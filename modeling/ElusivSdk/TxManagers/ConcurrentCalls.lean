import ElusivSdk.Library.Transition
import ElusivSdk.TxManagers.Query

/-!
# Several calls on one manager

The methods of a transaction manager are asynchronous.  Between two awaits a call runs alone; at an
await every other call may run and change the cache.  This file models that: a `Wallet` is a manager
with a family of calls in progress, and one event lets one call make one step.

* A call is in one of the `Phase`s, one for each await of `getTxs` and of its callers.  `Call.resume`
  is the code from one await to the next.
* A `Request` is a call of `getTxsFromNonces` in flight.  Which nonces it skips is decided when it is
  started; the chain is read **nonce by nonce**, each at its own time (`Event.read`); when the last
  nonce was read, the answer is cached (`Event.answer`).
* `Wallet.step` — one event, on the chain as it is at that moment.
-/

namespace ElusivSdk

open Descending Program

/-! ## Requests in flight -/

/-- A request for nonces.  A cell is a nonce that is not skipped, with the transactions read for it. -/
structure Request where
  cells : List (ℕ × Option (List ElusivTransaction))
  answered : Bool
deriving DecidableEq

namespace Request

/-- A started request: nonces marked as cached are skipped. -/
def ofNonces (nonces : List (ℕ × Bool)) : Request :=
  { cells := (nonces.filter fun n => !n.2).map fun n => (n.1, none), answered := false }

/-- Every nonce was read. -/
def isRead (r : Request) : Bool := r.cells.all fun cell => cell.2.isSome

/-- What the request returns. -/
def txs (r : Request) : List ElusivTransaction := r.cells.flatMap fun cell => cell.2.getD []

end Request

/-! ## Calls -/

/-- Where a call waits. -/
inductive Phase
  /-- Called, nothing has run yet. -/
  | calling
  /-- In the loop of `getLatestTransactionsIntoCache`, at its `i`. -/
  | latest (latestCachedNonce i : ℤ)
  /-- The range for `prepareTxFetchingParams` is known. -/
  | ranged (cachedRange : CachedRange)
  | prepared (inputs : TxFetchingInputs)
  /-- `fetchTxsIntoCache` awaits all its requests. -/
  | fetching (inputs : TxFetchingInputs)
  | fetched (inputs : TxFetchingInputs)
  /-- `getTxs` has returned a batch. -/
  | returned (batch : List ElusivTransaction)
  /-- `fetchTxs` has returned to `getActiveTxs`. -/
  | selecting (mostRecentTxs : List ElusivTransaction)
  | done (result : Except Failure (List ElusivTransaction))

structure Call where
  query : Query
  loop : FetchLoop
  phase : Phase
  requests : List Request

namespace Call

def start (q : Query) : Call :=
  { query := q, loop := FetchLoop.start q.before, phase := .calling, requests := [] }

/-- What the call has returned. -/
def outcome (c : Call) : Option (Except Failure (List ElusivTransaction)) :=
  match c.phase with
  | .done result => some result
  | _ => none

/-- The call waits for a window over the newest nonces. -/
def inLatest (c : Call) : Bool :=
  match c.phase with
  | .latest _ _ => true
  | _ => false

/-- The bound with which the next `getTxs` is called. -/
def before (c : Call) : Option ℤ :=
  match c.query with
  | .getMostRecentTx => none
  | _ => some c.loop.beforeInner

/-- Wait at an await that is not for a request. -/
def await (c : Call) (phase : Phase) : Call := { c with phase := phase, requests := [] }

/-- The next window of the loop over the newest nonces. -/
def openWindow (c : Call) (m : TxManager) (latestCachedNonce i : ℤ) : Call :=
  { c with
    phase := .latest latestCachedNonce i
    requests := [.ofNonces (m.noncesInRange (i + DEFAULT_FETCH_BATCH_SIZE + 1) i)] }

/-- `getTxs` up to its first await. -/
def callGetTxs (c : Call) (m : TxManager) : Call :=
  let latestCachedNonce := m.getLatestCachedNonce
  if c.before.all (fun before => latestCachedNonce < before) then
    c.openWindow m latestCachedNonce latestCachedNonce
  else c.await (.ranged { before := c.before.getD MAX_SAFE_INTEGER, after := -1 })

/-- `fetchTxs` after its loop. -/
def finish (c : Call) (m : TxManager) : TxManager × Call :=
  match getTxsInNonceRange c.loop.res (some c.query.count) with
  | .error e => (m, c.await (.done (.error e)))
  | .ok txs =>
      let m := m.setAllConfirmed txs.tail
      match c.query with
      | .getActiveTxs _ _ => (m, c.await (.selecting txs))
      | _ => (m, c.await (.done (.ok txs)))

/-- The next call of `getTxs`, or what comes after the loop. -/
def nextRound (c : Call) (m : TxManager) : TxManager × Call :=
  match c.query with
  | .getMostRecentTx => (m, c.callGetTxs m)
  | _ => if c.loop.continues c.query.count then (m, c.callGetTxs m) else c.finish m

/-- The code from the await at which the call waits to the next one. -/
def resume (c : Call) (m : TxManager) : Option (TxManager × Call) :=
  match c.phase with
  | .calling => some (c.nextRound m)
  | .latest latestCachedNonce i =>
      let txBatch := c.requests.flatMap Request.txs
      if txBatch.length != 0 then
        some (m, c.openWindow m latestCachedNonce (i + DEFAULT_FETCH_BATCH_SIZE))
      else some (m, c.await (.ranged
        { after := latestCachedNonce, before := m.getLatestCachedNonce + 1 }))
  | .ranged cachedRange => some (m, c.await (.prepared
      (prepareTxFetchingParams cachedRange (some c.query.count) DEFAULT_FETCH_BATCH_SIZE c.before)))
  | .prepared inputs =>
      match m.startAllBatches inputs with
      | .error e => some (m, c.await (.done (.error e)))
      | .ok batches =>
          some (m, { c with phase := .fetching inputs, requests := batches.map .ofNonces })
  | .fetching inputs => some (m, c.await (.fetched inputs))
  | .fetched inputs =>
      match getTxsInNonceRange ((m.getCachedTxsWrapper c.before (some inputs.after)).map some)
          (some c.query.count) with
      | .error e => some (m, c.await (.done (.error e)))
      | .ok batch => some (m, c.await (.returned batch))
  | .returned batch =>
      match c.query with
      | .getMostRecentTx => some (m, c.await (.done (.ok batch.head?.toList)))
      | _ => some (nextRound { c with loop := c.loop.addBatch c.query.tokenType batch } m)
  | .selecting [] => some (m, c.await (.done (.ok [])))
  | .selecting (newest :: rest) =>
      some (m.setConfirmed newest, c.await (.done (.ok (selectActiveTxs (newest :: rest)))))
  | .done _ => none

end Call

/-! ## Wallets -/

/-- One manager and the calls in progress on it. -/
structure Wallet (ι : Type) where
  manager : TxManager
  calls : ι → Call

inductive Event (ι : Type)
  /-- The signatures for one nonce of a request arrive. -/
  | read (call : ι) (request cell : ℕ)
  /-- Everything asked for by a request has arrived; the answer is cached. -/
  | answer (call : ι) (request : ℕ)
  /-- A call runs on from its await. -/
  | resume (call : ι)
deriving DecidableEq

namespace Wallet

variable {ι : Type} [DecidableEq ι]

/-- The queries were just called. -/
def start (m : TxManager) (queries : ι → Query) : Wallet ι :=
  { manager := m, calls := fun i => .start (queries i) }

def setCall (w : Wallet ι) (i : ι) (c : Call) : Wallet ι :=
  { w with calls := Function.update w.calls i c }

def setRequest (w : Wallet ι) (i : ι) (k : ℕ) (r : Request) : Wallet ι :=
  w.setCall i { w.calls i with requests := (w.calls i).requests.set k r }

/-- One event, on the chain `h`. -/
def step (h : History) (w : Wallet ι) : Event ι → Option (Wallet ι)
  | .read i k j => do
      let r ← (w.calls i).requests[k]?
      match r.cells[j]? with
      | some (n, none) =>
          some (w.setRequest i k { r with cells := r.cells.set j (n, some (h.txsAt n)) })
      | _ => none
  | .answer i k => do
      let r ← (w.calls i).requests[k]?
      if r.isRead && !r.answered then
        some { w.setRequest i k { r with answered := true } with manager := w.manager.cache r.txs }
      else none
  | .resume i =>
      if (w.calls i).requests.all Request.answered then do
        let (m, c) ← (w.calls i).resume w.manager
        some { w.setCall i c with manager := m }
      else none

end Wallet

end ElusivSdk
