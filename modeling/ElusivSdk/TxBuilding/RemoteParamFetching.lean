import ElusivSdk.Chain.Growth
import ElusivSdk.ParamManagers.CommitmentManager
import ElusivSdk.TxManagers.ActiveTransactions
import ElusivSdk.TxManagers.ConcurrentRuns

/-!
# Fetching the parameters of a new transaction

`fetchTopupRemoteParams` and `fetchSendRemoteParams` start `getActiveCommitments` and
`getMostRecentNonce` at once, on one manager, while the chain may grow.

* `ChainWallet` — a chain and a wallet of calls; an event is an event of the wallet or the landing of a
  transaction.
* `fetchRemoteParams` — what is made of the results of the two sweeps.
* `Untorn` — when an event leaves the two sweeps consistent: a transaction of the token may land before
  the sweep for the active transactions has come to its nonce, or above `lastNonce` once that was read.
* **`fetchRemoteParams_consistent`** — in a run of such events every unspent commitment of the token up
  to `lastNonce` is active.
* `fetchRemoteParams_torn` — a topup that lands after the sweep for the active transactions and before
  `lastNonce` is read is below `lastNonce` and not among the active commitments.
-/

namespace ElusivSdk

open Descending Program Transition

/-! ## The parameters -/

/-- The commitments to spend, given by their transactions, and the newest nonce in use. -/
structure RemoteParams where
  activeCommitments : List ElusivTransaction
  lastNonce : ℤ
deriving DecidableEq

/-- `getActiveCommitments` after `getActiveTxs`; the tree is asked for the newest transaction only. -/
def getActiveCommitmentsFrom (isInserted : ElusivTransaction → Bool) :
    List ElusivTransaction → Except Failure (List ElusivTransaction)
  | [] => .ok []
  | newest :: rest =>
      if isInserted newest then .ok (newest :: rest) else .error STILL_WAITING

/-- `getMostRecentNonce` after `getMostRecentTx`. -/
def getMostRecentNonceFrom (isInserted : ElusivTransaction → Bool) :
    List ElusivTransaction → Except Failure ℤ
  | [] => .ok (-1)
  | mostRecentTx :: _ =>
      if isInserted mostRecentTx then .ok mostRecentTx.nonce else .error STILL_WAITING

/-- The newest nonce of transactions from the newest down, -1 without a transaction. -/
def newestNonce (txs : List ElusivTransaction) : ℤ :=
  (txs.head?.map fun tx => (tx.nonce : ℤ)).getD (-1)

/-- The two sweeps ask the tree at different times. -/
def fetchRemoteParams (isInserted isInserted' : ElusivTransaction → Bool)
    (activeTxs mostRecentTx : Except Failure (List ElusivTransaction)) :
    Except Failure RemoteParams := do
  let activeCommitments ← getActiveCommitmentsFrom isInserted (← activeTxs)
  let lastNonce ← getMostRecentNonceFrom isInserted' (← mostRecentTx)
  pure { activeCommitments := activeCommitments, lastNonce := lastNonce }

/-- The check changes nothing of what it lets through. -/
lemma getActiveCommitmentsFrom_eq {isInserted : ElusivTransaction → Bool}
    {txs res : List ElusivTransaction} (h : getActiveCommitmentsFrom isInserted txs = .ok res) :
    res = txs := by
  cases txs with
  | nil => exact (Except.ok.inj h).symm
  | cons newest rest =>
      rw [getActiveCommitmentsFrom] at h
      split_ifs at h
      exact (Except.ok.inj h).symm

lemma getMostRecentNonceFrom_eq {isInserted : ElusivTransaction → Bool}
    {txs : List ElusivTransaction} {last : ℤ} (h : getMostRecentNonceFrom isInserted txs = .ok last) :
    last = newestNonce txs := by
  cases txs with
  | nil => exact (Except.ok.inj h).symm
  | cons mostRecentTx rest =>
      rw [getMostRecentNonceFrom] at h
      split_ifs at h
      exact (Except.ok.inj h).symm

/-! ## Calls on a growing chain -/

structure ChainWallet (ι : Type) where
  chain : History
  wallet : Wallet ι

inductive ChainEvent (ι : Type)
  | wallet (e : Event ι)
  /-- A transaction lands, at some position among those of its nonce. -/
  | land (tx : ElusivTransaction) (pos : ℕ)
deriving DecidableEq

namespace ChainWallet

variable {ι : Type} [DecidableEq ι]

def step (s : ChainWallet ι) : ChainEvent ι → Option (ChainWallet ι)
  | .wallet e => do
      let wallet ← s.wallet.step s.chain e
      some { s with wallet := wallet }
  | .land tx pos =>
      if hstatus : tx.transactionStatus ≠ some .CONFIRMED then
        some { s with chain := s.chain.land tx pos hstatus }
      else none

/-- No event changes what a call was asked. -/
lemma step_query {s s' : ChainWallet ι} {e : ChainEvent ι} (hs : s.step e = some s') (i : ι) :
    (s'.wallet.calls i).query = (s.wallet.calls i).query := by
  cases e with
  | wallet e =>
      simp only [step] at hs
      obtain ⟨w, hw, hs⟩ := Option.bind_eq_some_iff.mp hs
      obtain rfl := Option.some.inj hs
      exact Wallet.step_query hw i
  | land tx pos =>
      simp only [step] at hs
      split_ifs at hs
      obtain rfl := Option.some.inj hs
      rfl

end ChainWallet

/-- The transactions of a token that no later send of the token spends. -/
def History.unspent (h : History) (tokenType : TokenType) : List ElusivTransaction :=
  ElusivSdk.unspent (below (h.tokenBucket (some tokenType)) h.length)

/-- The chain is as the client keeps it: every nonce is used, transactions with one commitment hash are
of one token, and the token has one send on a nonce at most, no signature twice and at most
`SEND_ARITY` unspent commitments. -/
structure History.Sound (h : History) (tokenType : TokenType) : Prop where
  gapless : h.Gapless
  length_le : h.length ≤ MAX_UINT32
  keysAgree : h.KeysAgree fun tx => tx.hasToken (some tokenType)
  orderly : Orderly (below (h.tokenBucket (some tokenType)) h.length)
  arity : (h.unspent tokenType).length ≤ SEND_ARITY

/-- Equal keys need to be compared on the nonces in use only. -/
lemma History.keysAgree_iff {h : History} {p : ElusivTransaction → Bool} :
    h.KeysAgree p ↔
      ∀ n < h.length, ∀ x ∈ h.txsAt n, ∀ y ∈ h.txsAt n, x.key = y.key → p x = p y := by
  refine ⟨fun hk n _ => hk n, fun hk n x hx => ?_⟩
  refine hk n ?_ x hx
  by_contra hle
  rw [h.eq_nil_of_length_le n (by omega)] at hx
  exact List.not_mem_nil hx

instance (txs : List ElusivTransaction) : Decidable (Orderly txs) :=
  decidable_of_iff
    ((∀ x ∈ txs, ∀ y ∈ txs, x.txType = .SEND → y.txType = .SEND → x.nonce = y.nonce → x = y) ∧
      ∀ x ∈ txs, ∀ y ∈ txs, x.signature.isSome = true → x.signature = y.signature → x = y)
    ⟨fun h => ⟨h.1, h.2⟩, fun h => ⟨h.oneSend, h.signatures⟩⟩

instance (h : History) (tokenType : TokenType) : Decidable (h.Sound tokenType) :=
  decidable_of_iff
    ((∀ n < h.length, h.txsAt n ≠ []) ∧ h.length ≤ MAX_UINT32 ∧
      (∀ n < h.length, ∀ x ∈ h.txsAt n, ∀ y ∈ h.txsAt n, x.key = y.key →
        x.hasToken (some tokenType) = y.hasToken (some tokenType)) ∧
      Orderly (below (h.tokenBucket (some tokenType)) h.length) ∧
      (h.unspent tokenType).length ≤ SEND_ARITY)
    ⟨fun hs => ⟨hs.1, hs.2.1, History.keysAgree_iff.mpr hs.2.2.1, hs.2.2.2.1, hs.2.2.2.2⟩,
      fun hs => ⟨hs.gapless, hs.length_le, History.keysAgree_iff.mp hs.keysAgree, hs.orderly, hs.arity⟩⟩

/-! ## The two sweeps -/

/-- The nonce that a call of `getMostRecentTx` has read, once it has read the cache. -/
def Call.lastNonce (c : Call) : Option ℤ :=
  match c.phase with
  | .returned batch => some (newestNonce batch)
  | .done (.ok txs) => some (newestNonce txs)
  | _ => none

namespace ChainWallet

variable {κ : Type}

/-- The two sweeps were just started, next to other calls. -/
def fetchStart (h : History) (m : TxManager) (tokenType : TokenType) (others : κ → Query) :
    ChainWallet (Bool ⊕ κ) :=
  { chain := h, wallet := .start m (Sum.elim (remoteParamCalls tokenType) others) }

/-- The sweep of `getActiveCommitments`. -/
def activeSweep (s : ChainWallet (Bool ⊕ κ)) : Call := s.wallet.calls (.inl true)

/-- The sweep of `getMostRecentNonce`. -/
def nonceSweep (s : ChainWallet (Bool ⊕ κ)) : Call := s.wallet.calls (.inl false)

/-- What the two sweeps return, once both are done. -/
def remoteParams (isInserted isInserted' : ElusivTransaction → Bool)
    (s : ChainWallet (Bool ⊕ κ)) : Option (Except Failure RemoteParams) := do
  let activeTxs ← s.activeSweep.outcome
  let mostRecentTx ← s.nonceSweep.outcome
  some (fetchRemoteParams isInserted isInserted' activeTxs mostRecentTx)

/-- When a transaction of the token may land: nothing of its nonce was read yet, and the sweep for the
active transactions has not passed the nonce; or `lastNonce` was read, the nonce is larger, and nothing
of it was read or the commitment hash is new on it. -/
def MayLand (s : ChainWallet (Bool ⊕ κ)) (tx : ElusivTransaction) : Prop :=
  (s.wallet.Unread tx.nonce ∧ (tx.nonce : ℤ) < s.activeSweep.rest) ∨
    ∃ last ∈ s.nonceSweep.lastNonce, last < tx.nonce ∧
      (s.wallet.Unread tx.nonce ∨ ∀ x ∈ s.chain.txsAt tx.nonce, x.key ≠ tx.key)

instance [Fintype κ] (s : ChainWallet (Bool ⊕ κ)) (tx : ElusivTransaction) : Decidable (s.MayLand tx) :=
  inferInstanceAs (Decidable ((s.wallet.Unread tx.nonce ∧ (tx.nonce : ℤ) < s.activeSweep.rest) ∨
    ∃ last ∈ s.nonceSweep.lastNonce, last < tx.nonce ∧
      (s.wallet.Unread tx.nonce ∨ ∀ x ∈ s.chain.txsAt tx.nonce, x.key ≠ tx.key)))

end ChainWallet

/-- The chain stays as the client keeps it, a transaction of the token lands only when it may, and as
long as `lastNonce` was not read, the sweep for the active transactions leaves the loop over the newest
nonces only when no transaction of the token lies above the newest cached nonce. -/
def Untorn {κ : Type} (tokenType : TokenType) (s : ChainWallet (Bool ⊕ κ)) :
    ChainEvent (Bool ⊕ κ) → Prop
  | .land tx pos => (∀ hstatus, (s.chain.land tx pos hstatus).Sound tokenType) ∧
      (tx.tokenType = tokenType → s.MayLand tx)
  | .wallet (.resume (.inl true)) => s.nonceSweep.lastNonce = none → s.activeSweep.inLatest = true →
      s.activeSweep.requests.flatMap Request.txs = [] →
      ∀ n < s.chain.length, s.chain.tokenBucket (some tokenType) n ≠ [] →
        (n : ℤ) ≤ s.wallet.manager.getLatestCachedNonce
  | .wallet _ => True

instance {κ : Type} [Fintype κ] (tokenType : TokenType) (s : ChainWallet (Bool ⊕ κ)) :
    ∀ e, Decidable (Untorn tokenType s e)
  | .land _ _ => inferInstanceAs (Decidable (_ ∧ _))
  | .wallet (.resume (.inl true)) => inferInstanceAs (Decidable (_ → _ → _ → _))
  | .wallet (.resume (.inl false)) => inferInstanceAs (Decidable True)
  | .wallet (.resume (.inr _)) => inferInstanceAs (Decidable True)
  | .wallet (.read _ _ _) => inferInstanceAs (Decidable True)
  | .wallet (.answer _ _) => inferInstanceAs (Decidable True)

/-! ## The sweep for the newest nonce -/

/-- A call of `getMostRecentTx`; what it has read is cached. -/
structure Call.ReadsNewest (c : Call) (m : TxManager) : Prop where
  query_eq : c.query = .getMostRecentTx
  not_selecting : ∀ txs, c.phase ≠ .selecting txs
  le_latest : ∀ last ∈ c.lastNonce, last ≤ m.getLatestCachedNonce

namespace Call.ReadsNewest

variable {c c' : Call} {m m' : TxManager}

/-- The batch comes from the cache. -/
lemma newestNonce_le {after : ℤ} {batch : List ElusivTransaction}
    (hbatch : getTxsInNonceRange ((m.getCachedTxsWrapper none (some after)).map some) (some 1)
      = .ok batch) : newestNonce batch ≤ m.getLatestCachedNonce := by
  rw [getTxsInNonceRange_map_some Nat.one_pos] at hbatch
  obtain rfl := Except.ok.inj hbatch
  rw [newestNonce]
  cases hhead : (takeGroups ElusivTransaction.nonce 1 (m.getCachedTxsWrapper none (some after))).head?
    with
  | none => exact m.neg_one_le_getLatestCachedNonce
  | some tx =>
      have hmem := (takeGroups_sublist _ _ _).subset (List.mem_of_head? hhead)
      exact m.le_getLatestCachedNonce (List.ne_nil_of_mem (m.mem_bucket_of_mem_wrapper hmem))

/-- Until the cache is read there is no nonce. -/
lemma of_not_read (hq : c'.query = .getMostRecentTx) (hs : ∀ txs, c'.phase ≠ .selecting txs)
    (hlast : c.lastNonce = none) (hlast' : c'.lastNonce = none) :
    c'.ReadsNewest m ∧ ∀ last ∈ c.lastNonce, last ∈ c'.lastNonce := by
  rw [hlast]
  refine ⟨⟨hq, hs, fun last hmem => ?_⟩, fun last hmem => by cases hmem⟩
  rw [hlast'] at hmem
  cases hmem

/-- The code between two awaits of `getMostRecentTx`. -/
lemma resume (hc : c.ReadsNewest m) (hr : c.resume m = some (m', c')) :
    c'.ReadsNewest m' ∧ ∀ last ∈ c.lastNonce, last ∈ c'.lastNonce := by
  obtain ⟨hq, hs, hle⟩ := hc
  rcases c with ⟨q, loop, phase, requests⟩
  obtain rfl : q = .getMostRecentTx := hq
  cases phase with
  | calling =>
      obtain ⟨rfl, rfl⟩ := Prod.mk.inj (Option.some.inj hr)
      rw [Call.callGetTxs]
      split_ifs
      · exact of_not_read rfl (fun txs h => Phase.noConfusion h) rfl rfl
      · exact of_not_read rfl (fun txs h => Phase.noConfusion h) rfl rfl
  | latest L i =>
      simp only [Call.resume] at hr
      split_ifs at hr
      · obtain ⟨rfl, rfl⟩ := Prod.mk.inj (Option.some.inj hr)
        exact of_not_read rfl (fun txs h => Phase.noConfusion h) rfl rfl
      · obtain ⟨rfl, rfl⟩ := Prod.mk.inj (Option.some.inj hr)
        exact of_not_read rfl (fun txs h => Phase.noConfusion h) rfl rfl
  | ranged _ | fetching _ =>
      obtain ⟨rfl, rfl⟩ := Prod.mk.inj (Option.some.inj hr)
      exact of_not_read rfl (fun txs h => Phase.noConfusion h) rfl rfl
  | prepared inputs =>
      simp only [Call.resume] at hr
      split at hr
      · obtain ⟨rfl, rfl⟩ := Prod.mk.inj (Option.some.inj hr)
        exact of_not_read rfl (fun txs h => Phase.noConfusion h) rfl rfl
      · obtain ⟨rfl, rfl⟩ := Prod.mk.inj (Option.some.inj hr)
        exact of_not_read rfl (fun txs h => Phase.noConfusion h) rfl rfl
  | fetched inputs =>
      simp only [Call.resume, Call.before, Query.count] at hr
      split at hr
      · obtain ⟨rfl, rfl⟩ := Prod.mk.inj (Option.some.inj hr)
        exact of_not_read rfl (fun txs h => Phase.noConfusion h) rfl rfl
      · next batch hbatch =>
          obtain ⟨rfl, rfl⟩ := Prod.mk.inj (Option.some.inj hr)
          refine ⟨⟨rfl, fun txs h => Phase.noConfusion h, fun last hlast => ?_⟩, fun last h => by cases h⟩
          obtain rfl : newestNonce batch = last := Option.some.inj hlast
          exact newestNonce_le hbatch
  | returned batch =>
      obtain ⟨rfl, rfl⟩ := Prod.mk.inj (Option.some.inj hr)
      have hsame : newestNonce batch.head?.toList = newestNonce batch := by
        rw [newestNonce, newestNonce]
        cases batch.head? <;> rfl
      have hlast : Call.lastNonce ⟨.getMostRecentTx, loop, .returned batch, requests⟩
          = some (newestNonce batch.head?.toList) := congrArg some hsame.symm
      rw [hlast] at hle ⊢
      exact ⟨⟨rfl, fun txs h => Phase.noConfusion h, hle⟩, fun last h => h⟩
  | selecting txs => exact absurd rfl (hs txs)
  | done result => cases hr

/-- An event of the wallet changes nothing of what was read. -/
lemma step {ι : Type} [DecidableEq ι] {h : History} {w w' : Wallet ι} {e : Event ι} {i : ι}
    (hc : (w.calls i).ReadsNewest w.manager) (hs : w.step h e = some w') :
    (w'.calls i).ReadsNewest w'.manager ∧
      ∀ last ∈ (w.calls i).lastNonce, last ∈ (w'.calls i).lastNonce := by
  rcases Wallet.step_call hs i with ⟨requests, heq⟩ | ⟨-, hr⟩
  · rw [heq]
    have hmono := TxManager.latest_mono fun n hn => Wallet.step_bucket_ne_nil hs (n := n) hn
    exact ⟨⟨hc.query_eq, hc.not_selecting, fun last hlast => (hc.le_latest last hlast).trans hmono⟩,
      fun last hlast => hlast⟩
  · exact hc.resume hr

end Call.ReadsNewest

/-! ## The invariant -/

namespace ChainWallet

variable {κ : Type} {tokenType : TokenType}

/-- Up to where the sweep for the active transactions must miss nothing. -/
def limit (s : ChainWallet (Bool ⊕ κ)) : ℕ :=
  match s.nonceSweep.lastNonce with
  | some last => (last + 1).toNat
  | none => MAX_UINT32

/-- The chain is sound, the cache and the sweep for the active transactions are as the part of the
token requires, and the newest nonce was read from the cache. -/
structure Ok (tokenType : TokenType) (s : ChainWallet (Bool ⊕ κ)) : Prop where
  sound : s.chain.Sound tokenType
  wallet : WalletOk (fun tx => tx.hasToken (some tokenType)) (s.chain.tokenBucket (some tokenType))
    s.limit (· = .inl true) s.chain s.wallet
  active : s.activeSweep.query = .getActiveTxs tokenType none
  newest : s.nonceSweep.ReadsNewest s.wallet.manager

end ChainWallet

/-- The selected part of a chain on which equal keys are selected together. -/
lemma History.KeysAgree.tracks {h : History} {p : ElusivTransaction → Bool} (hk : h.KeysAgree p) :
    Tracks p (h.selected p) h where
  part _ := rfl
  known n x hx hp := by
    obtain ⟨y, hy, hkey⟩ := h.exists_key_mem_bucket hx
    refine ⟨y, List.mem_filter.mpr ⟨hy, ?_⟩, hkey⟩
    rw [hk n y (h.bucket_subset n hy) x hx hkey, hp]

lemma History.Sound.chainOk {h : History} {tokenType : TokenType} (hs : h.Sound tokenType) :
    ChainOk (fun tx => tx.hasToken (some tokenType)) (h.tokenBucket (some tokenType)) h :=
  ⟨hs.keysAgree.tracks, hs.gapless, hs.length_le⟩

/-- `lastNonce` was read from the cache, so it lies on the chain. -/
lemma ChainWallet.limit_le {κ : Type} {s : ChainWallet (Bool ⊕ κ)}
    (hn : s.nonceSweep.ReadsNewest s.wallet.manager) (hlen : s.chain.length ≤ MAX_UINT32)
    (hused : ∀ n, s.wallet.manager.bucket n ≠ [] → n < s.chain.length) : s.limit ≤ MAX_UINT32 := by
  rw [limit]
  split
  · next last hlast =>
      have hle := hn.le_latest last hlast
      have hlow := s.wallet.manager.neg_one_le_getLatestCachedNonce
      by_cases hneg : s.wallet.manager.getLatestCachedNonce = -1
      · omega
      · have hlt := hused s.wallet.manager.getLatestCachedNonce.toNat
          (s.wallet.manager.bucket_getLatestCachedNonce (by omega))
        omega
  · exact Nat.le_refl _

namespace ChainWallet.Ok

variable {κ : Type} {tokenType : TokenType} {s s' : ChainWallet (Bool ⊕ κ)}

/-- **What the sweep for the active transactions returns has every unspent transaction of the token up
to `lastNonce`.** -/
theorem mem_active (hs : s.Ok tokenType) {r : Except Failure (List ElusivTransaction)}
    (hdone : s.activeSweep.outcome = some r) {last : ℤ} (hlast : last ∈ s.nonceSweep.lastNonce)
    {tx : ElusivTransaction} (htx : tx ∈ s.chain.unspent tokenType) (hle : tx.nonce ≤ last) :
    ∃ txs, r = .ok txs ∧ tx ∈ txs := by
  have htracks := hs.sound.chainOk.tracks
  have hgraded := htracks.graded
  obtain ⟨v, hv, hr⟩ := (hs.wallet.calls (.inl true) rfl).result_eq hgraded
    (Call.outcome_eq_some.mp hdone)
  have hquery : (s.wallet.calls (.inl true)).query = .getActiveTxs tokenType none := hs.active
  rw [hquery] at hr
  refine ⟨_, hr, ?_⟩
  have hwanted : (Query.getActiveTxs tokenType none).wanted v = v := by
    refine funext fun n => List.filter_eq_self.mpr fun x hx => ?_
    exact (List.mem_filter.mp ((hv.part n).subset hx)).2
  have hbound : (Query.getActiveTxs tokenType none).bound = MAX_SAFE_INTEGER := rfl
  have hmax : MAX_UINT32 ≤ MAX_SAFE_INTEGER := by decide
  have hlen := hs.sound.length_le
  have hlimit : s.limit = (last + 1).toNat := by rw [limit, hlast]
  have hvgraded := hv.graded hgraded
  show tx ∈ selectActiveTxs (takeGroups ElusivTransaction.nonce SEND_ARITY (below _ _))
  rw [hwanted]
  refine mem_select_of_subset hs.sound.orderly (fun x hx => ?_) (hvgraded.between_pairwise 0 _)
    (hvgraded.between_nodup hv.nodup 0 _) hs.sound.arity htx fun x hx hxle => ?_
  · obtain ⟨-, -, hx⟩ := hvgraded.mem_between.mp hx
    have hx := (hv.part _).subset hx
    exact hgraded.mem_between.mpr ⟨Nat.zero_le _, htracks.lt_length (List.ne_nil_of_mem hx), hx⟩
  · obtain ⟨-, hlt, hx⟩ := hgraded.mem_between.mp hx
    refine hvgraded.mem_between.mpr ⟨Nat.zero_le _, by omega, ?_⟩
    rwa [(hv.part _).eq (by omega)]

variable [DecidableEq κ]

/-- An event of the wallet. -/
lemma step_wallet (hs : s.Ok tokenType) {e : Event (Bool ⊕ κ)} (huntorn : Untorn tokenType s (.wallet e))
    (hstep : s.step (.wallet e) = some s') : s'.Ok tokenType := by
  have hquery := ChainWallet.step_query hstep (.inl true)
  simp only [ChainWallet.step] at hstep
  obtain ⟨w, hw, hstep⟩ := Option.bind_eq_some_iff.mp hstep
  obtain rfl := Option.some.inj hstep
  obtain ⟨hnewest, hkept⟩ := hs.newest.step hw
  have hends : EndsAbove (s.chain.tokenBucket (some tokenType)) s.limit (· = .inl true) s.wallet e := by
    cases e with
    | read i k j => trivial
    | answer i k => trivial
    | resume i =>
        rintro rfl hlatest hnil n hn hne
        cases hlast : s.nonceSweep.lastNonce with
        | none => exact huntorn hlast hlatest hnil n (hs.sound.chainOk.tracks.lt_length hne) hne
        | some last =>
            -- `lastNonce` itself was read from the cache
            have hle := hs.newest.le_latest last hlast
            rw [limit, hlast] at hn
            simp only at hn
            omega
  have hwallet := hs.wallet.step hs.sound.chainOk hends hw
  have hlimit : ChainWallet.limit { s with wallet := w } ≤ s.limit := by
    cases hlast : s.nonceSweep.lastNonce with
    | none =>
        rw [show s.limit = MAX_UINT32 by rw [limit, hlast]]
        exact limit_le hnewest hs.sound.length_le hwallet.knows.used
    | some last =>
        have hlast' : (ChainWallet.nonceSweep { s with wallet := w }).lastNonce = some last :=
          hkept last hlast
        rw [limit, limit, hlast, hlast']
  exact ⟨hs.sound, hwallet.grow (Nat.le_refl _) hlimit, hquery.trans hs.active, hnewest⟩

/-- A transaction lands. -/
lemma step_land (hs : s.Ok tokenType) {tx : ElusivTransaction} {pos : ℕ}
    (huntorn : Untorn tokenType s (.land tx pos)) (hstep : s.step (.land tx pos) = some s') :
    s'.Ok tokenType := by
  simp only [ChainWallet.step] at hstep
  split_ifs at hstep with hstatus
  obtain rfl := Option.some.inj hstep
  obtain ⟨hsound, hmay⟩ := huntorn
  have hsound := hsound hstatus
  refine ⟨hsound, ?_, hs.active, hs.newest⟩
  have hlen := s.chain.length_le_land tx pos hstatus
  have hother : ∀ n, n ≠ tx.nonce → (s.chain.land tx pos hstatus).tokenBucket (some tokenType) n
      = s.chain.tokenBucket (some tokenType) n := fun n hn => by
    rw [History.tokenBucket, History.tokenBucket, History.bucket, History.bucket,
      History.txsAt_land_of_ne hn]
  by_cases htoken : tx.tokenType = tokenType
  · have hquery : (s.wallet.calls (.inl true)).query = .getActiveTxs tokenType none := hs.active
    refine hs.wallet.land hlen (fun i hi => ?_) ?_ hother hsound.chainOk.tracks.nodup
    · rw [hi, hquery]
      exact Query.noConfusion
    · have hbeyond : ∀ last ∈ s.nonceSweep.lastNonce, last < tx.nonce → s.limit ≤ tx.nonce := by
        intro last hlast hlt
        rw [limit, hlast]
        simp only
        omega
      rcases hmay htoken with ⟨hunread, hrest⟩ | ⟨last, hlast, hlt, hunread | hfresh⟩
      · refine Or.inl ⟨hunread, ?_⟩
        rintro i rfl
        exact Or.inr hrest
      · exact Or.inl ⟨hunread, fun i _ => Or.inl (hbeyond last hlast hlt)⟩
      · refine Or.inr ⟨hbeyond last hlast hlt, ?_⟩
        exact List.filter_subset _ (History.bucket_subset_land hfresh pos hstatus tx.nonce)
  · have htx : tx.hasToken (some tokenType) = false := by simpa [ElusivTransaction.hasToken]
    have hnew : ∀ x ∈ s.chain.txsAt tx.nonce, x.key = tx.key →
        x.hasToken (some tokenType) = tx.hasToken (some tokenType) := by
      have hmem : ∀ x, x = tx ∨ x ∈ s.chain.txsAt tx.nonce →
          x ∈ (s.chain.land tx pos hstatus).txsAt tx.nonce := fun x hx => by
        rw [History.txsAt_land_nonce]
        exact History.mem_putAt.mpr hx
      exact fun x hx hkey => hsound.keysAgree tx.nonce x (hmem x (Or.inr hx)) tx
        (hmem tx (Or.inl rfl)) hkey
    have hsame : (s.chain.land tx pos hstatus).tokenBucket (some tokenType)
        = s.chain.tokenBucket (some tokenType) :=
      funext (History.selected_land hs.sound.keysAgree htx hnew pos hstatus)
    have hgrown := hs.wallet.grow hlen (Nat.le_refl s.limit)
    rw [← hsame] at hgrown
    exact hgrown

/-- **One event that tears nothing keeps the invariant.** -/
theorem step (hs : s.Ok tokenType) {e : ChainEvent (Bool ⊕ κ)} (huntorn : Untorn tokenType s e)
    (hstep : s.step e = some s') : s'.Ok tokenType := by
  cases e with
  | wallet e => exact hs.step_wallet huntorn hstep
  | land tx pos => exact hs.step_land huntorn hstep

end ChainWallet.Ok
/-- What the checks let through is what the sweeps returned. -/
lemma fetchRemoteParams_eq_ok {isInserted isInserted' : ElusivTransaction → Bool}
    {activeTxs mostRecentTx : Except Failure (List ElusivTransaction)} {params : RemoteParams}
    (h : fetchRemoteParams isInserted isInserted' activeTxs mostRecentTx = .ok params) :
    activeTxs = .ok params.activeCommitments ∧
      ∃ txs, mostRecentTx = .ok txs ∧ params.lastNonce = newestNonce txs := by
  obtain ⟨txs, htxs, h⟩ := bind_eq_ok.mp h
  obtain ⟨res, hres, h⟩ := bind_eq_ok.mp h
  obtain ⟨recent, hrecent, h⟩ := bind_eq_ok.mp h
  obtain ⟨last, hlast, h⟩ := bind_eq_ok.mp h
  obtain rfl := Except.ok.inj h
  rw [getActiveCommitmentsFrom_eq hres]
  exact ⟨htxs, recent, hrecent, getMostRecentNonceFrom_eq hlast⟩

/-- **The parameters are consistent** in every run of events that tear nothing: every unspent commitment
of the token up to `lastNonce` is active. -/
theorem fetchRemoteParams_consistent {κ : Type} [DecidableEq κ] {tokenType : TokenType}
    {h₀ : History} (hsound : h₀.Sound tokenType) {m₀ : TxManager}
    (hm₀ : ∀ n, m₀.bucket n ≠ [] → n < h₀.length ∧
      (m₀.bucket n).filter (fun tx => tx.hasToken (some tokenType)) = h₀.tokenBucket (some tokenType) n)
    (others : κ → Query) {es : List (ChainEvent (Bool ⊕ κ))} {s : ChainWallet (Bool ⊕ κ)}
    (hrun : run ChainWallet.step (.fetchStart h₀ m₀ tokenType others) es = some s)
    (huntorn : Allowed ChainWallet.step (Untorn tokenType) (.fetchStart h₀ m₀ tokenType others) es)
    {isInserted isInserted' : ElusivTransaction → Bool} {params : RemoteParams}
    (hparams : s.remoteParams isInserted isInserted' = some (.ok params)) :
    ∀ tx ∈ s.chain.unspent tokenType, tx.nonce ≤ params.lastNonce →
      tx ∈ params.activeCommitments := by
  have hknows : Knows (fun tx => tx.hasToken (some tokenType)) (h₀.tokenBucket (some tokenType))
      MAX_UINT32 h₀ m₀ := by
    refine ⟨fun n hn => ?_, fun n hn => (hm₀ n hn).1⟩
    rw [(hm₀ n hn).2]
    exact Part.refl _ _ n
  have hstart : ChainWallet.Ok tokenType (.fetchStart h₀ m₀ tokenType others) := by
    refine ⟨hsound, WalletOk.start hknows hsound.chainOk.tracks.nodup _ ?_, rfl, ?_⟩
    · rintro i rfl tx htx
      exact htx
    · exact ⟨rfl, fun txs h => Phase.noConfusion h, fun last h => by cases h⟩
  have hs : s.Ok tokenType :=
    run_invariant (fun _ _ _ hs he hstep => hs.step he hstep) hstart huntorn hrun
  obtain ⟨activeTxs, hactive, hparams⟩ := Option.bind_eq_some_iff.mp hparams
  obtain ⟨mostRecentTx, hrecent, hparams⟩ := Option.bind_eq_some_iff.mp hparams
  obtain ⟨rfl, txs, rfl, hlast⟩ := fetchRemoteParams_eq_ok (Option.some.inj hparams)
  have hread : params.lastNonce ∈ s.nonceSweep.lastNonce := by
    rw [Call.lastNonce, Call.outcome_eq_some.mp hrecent, hlast]
    rfl
  intro tx htx hle
  obtain ⟨txs', heq, hmem⟩ := hs.mem_active hactive hread htx hle
  rwa [Except.ok.inj heq]

/-- One sweep on its own, on a chain of at most ten nonces. -/
def sweep (i : Bool) (resumes : ℕ) : List (ChainEvent (Bool ⊕ Empty)) :=
  let window := [.resume (.inl i)] ++ readWindow (.inl i) ++ [.answer (.inl i) 0]
  (window ++ window ++ List.replicate resumes (.resume (.inl i))).map .wallet

/-- Topups of the token land before both sweeps, between them, and after both, and one of another token
in the middle of the second sweep. -/
def landings : List (ChainEvent (Bool ⊕ Empty)) :=
  [.land (.bareTopup 1 .LAMPORTS 1 1) 0] ++ sweep false 6 ++ [.land (.bareTopup 2 .LAMPORTS 1 2) 0] ++
    (sweep true 12).take 15 ++ [.land (.bareTopup 3 .USDC 1 3) 0] ++ (sweep true 12).drop 15 ++
    [.land (.bareTopup 4 .LAMPORTS 1 4) 0]

theorem fetchRemoteParams_consistent_landings :
    ∃ s params, run ChainWallet.step (.fetchStart (topupChain 1) .new .LAMPORTS Empty.elim) landings
        = some s ∧
      s.remoteParams (fun _ => true) (fun _ => true) = some (.ok params) ∧ params.lastNonce = 1 ∧
      s.chain.length = 5 ∧
      ∀ tx ∈ s.chain.unspent .LAMPORTS, tx.nonce ≤ params.lastNonce →
        tx ∈ params.activeCommitments := by
  have hall : ((run ChainWallet.step (.fetchStart (topupChain 1) .new .LAMPORTS Empty.elim) landings).map
      fun s => (s.remoteParams (fun _ => true) (fun _ => true), s.chain.length)) = some (some (.ok
        { activeCommitments :=
            [.bareTopup 2 .LAMPORTS 1 2, .bareTopup 1 .LAMPORTS 1 1, .bareTopup 0 .LAMPORTS 1 0]
          lastNonce := 1 }), 5) := by
    decide +kernel
  obtain ⟨s, hrun, hs⟩ := Option.map_eq_some_iff.mp hall
  obtain ⟨hparams, hlength⟩ := Prod.mk.inj hs
  exact ⟨s, _, hrun, hparams, rfl, hlength, fetchRemoteParams_consistent (by decide +kernel)
    (fun n hn => absurd (TxManager.new_bucket n) hn) Empty.elim hrun (by decide +kernel) hparams⟩

/-- **A topup that lands between the two sweeps is lost to the next send**: its nonce is `lastNonce`,
and it is not among the active commitments. -/
theorem fetchRemoteParams_torn :
    (topupChain 1).Sound .LAMPORTS ∧
    ∃ s, run ChainWallet.step (.fetchStart (topupChain 1) .new .LAMPORTS Empty.elim)
        (sweep true 12 ++ [.land (.bareTopup 1 .LAMPORTS 1 1) 0] ++ sweep false 6) = some s ∧
      s.remoteParams (fun _ => true) (fun _ => true)
        = some (.ok { activeCommitments := [.bareTopup 0 .LAMPORTS 1 0], lastNonce := 1 }) ∧
      .bareTopup 1 .LAMPORTS 1 1 ∈ s.chain.unspent .LAMPORTS := by
  have hall : ((run ChainWallet.step (.fetchStart (topupChain 1) .new .LAMPORTS Empty.elim)
      (sweep true 12 ++ [.land (.bareTopup 1 .LAMPORTS 1 1) 0] ++ sweep false 6)).map
      fun s => (s.remoteParams (fun _ => true) (fun _ => true),
        decide (.bareTopup 1 .LAMPORTS 1 1 ∈ s.chain.unspent .LAMPORTS))) = some (some (.ok
        { activeCommitments := [.bareTopup 0 .LAMPORTS 1 0], lastNonce := 1 }), true) := by
    decide +kernel
  obtain ⟨s, hrun, hs⟩ := Option.map_eq_some_iff.mp hall
  obtain ⟨hparams, hmem⟩ := Prod.mk.inj hs
  exact ⟨by decide +kernel, s, hrun, hparams, of_decide_eq_true hmem⟩

end ElusivSdk
