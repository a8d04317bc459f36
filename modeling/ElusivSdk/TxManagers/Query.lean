import ElusivSdk.TxManagers.TransactionManager

/-!
# The calls of a transaction manager

A `Query` is one call of a method that reads transactions.

* `Query.alone` — the program of the call, when nothing else runs on the manager.
* `History.answer` — what the call returns on a manager that agrees with the chain.
* **`Query.alone_spec`** — it does, and it leaves such a manager.
-/

namespace ElusivSdk

open Descending Program

inductive Query
  | fetchTxs (count : ℕ) (tokenType : Option TokenType) (before : Option ℤ)
  | getActiveTxs (tokenType : TokenType) (beforeSend : Option ElusivTransaction)
  | getMostRecentTx

namespace Query

/-- The count with which the query calls `getTxs`. -/
def count : Query → ℕ
  | fetchTxs count _ _ => count
  | getActiveTxs _ _ => SEND_ARITY
  | getMostRecentTx => 1

def tokenType : Query → Option TokenType
  | fetchTxs _ tokenType _ => tokenType
  | getActiveTxs tokenType _ => some tokenType
  | getMostRecentTx => none

/-- The bound with which the query starts. -/
def before : Query → Option ℤ
  | fetchTxs _ _ before => before
  | getActiveTxs _ beforeSend => beforeSend.map fun send => (send.nonce : ℤ)
  | getMostRecentTx => none

/-- The query as a call that runs alone; at most one transaction for `getMostRecentTx`. -/
def alone (getTxsFromNonces : List (ℕ × Bool) → Except Failure (List ElusivTransaction))
    (fuel : ℕ) : Query → ManagerM (List ElusivTransaction)
  | fetchTxs count tokenType before =>
      ElusivSdk.fetchTxs getTxsFromNonces fuel count tokenType before
  | getActiveTxs tokenType beforeSend =>
      ElusivSdk.getActiveTxs getTxsFromNonces fuel tokenType beforeSend
  | getMostRecentTx => do
      let tx ← ElusivSdk.getMostRecentTx getTxsFromNonces fuel
      pure tx.toList

end Query

/-- What a call returns on a coherent manager. -/
def History.answer (h : History) : Query → List ElusivTransaction
  | .fetchTxs count tokenType before => h.fetchTxs count tokenType before
  | .getActiveTxs tokenType beforeSend => selectActiveTxs
      (h.fetchTxs SEND_ARITY (some tokenType) (beforeSend.map fun send => (send.nonce : ℤ)))
  | .getMostRecentTx => (h.read 1 none).head?.toList

/-- **A call on a coherent manager returns what the chain holds**, and leaves a coherent manager. -/
theorem Query.alone_spec {h : History} {m₀ : TxManager} (hc : Coherent h m₀)
    (hg : h.GapsBelow DEFAULT_FETCH_BATCH_SIZE) (q : Query) {fuel : ℕ}
    (hfuel : h.length + DEFAULT_FETCH_BATCH_SIZE + 3 ≤ fuel) :
    Total (fun m => m = m₀) (q.alone h.fetcher fuel) fun txs m =>
      txs = h.answer q ∧ Coherent h m := by
  cases q with
  | fetchTxs count tokenType before =>
      refine (fetchTxs_spec hc hg hfuel count tokenType before).mono (fun _ hs => hs) ?_
        fun _ _ hs => hs
      rintro _ m ⟨rfl, hm⟩
      exact ⟨rfl, hm.coherent⟩
  | getActiveTxs tokenType beforeSend =>
      refine (getActiveTxs_spec hc hg hfuel tokenType beforeSend).mono (fun _ hs => hs) ?_
        fun _ _ hs => hs
      rintro _ m ⟨rfl, hm⟩
      exact ⟨rfl, FetchedAndAllMarked.coherent hm⟩
  | getMostRecentTx =>
      refine Triple.bind (getMostRecentTx_spec hc hg hfuel) fun tx => Triple.ret ?_
      rintro m ⟨rfl, hm⟩
      exact ⟨rfl, hm.coherent⟩

end ElusivSdk
