import ElusivSdk.TxBuilding.TransactionBuilding
import ElusivSdk.TxManagers.TransactionManager

/-!
# Sending with tracking

`sendElusivTxWithTracking` hands the data of a transaction to the warden.  When the warden's answer is lost
(`fetch failed`), it looks at the newest transaction on chain and takes its signature when the nonce is
the one after `lastNonce`.

* `ElusivTxData.BuiltOn` — the nonce with which the transaction of some data was built.
* `elusivTxSig` — the signature that `sendElusivTxWithTracking` returns.
* **`elusivTxSig_iff`** — the recovery takes exactly the transaction that was built, unless the data is
  that of a topup after a merge and the newest nonce is that of the merge or of the topup.
* **`elusivTxSig_takes_merge`**, and the topup itself is refused.
-/

namespace ElusivSdk

open Descending InstructionBuilding Program TransactionBuilding

inductive ElusivTxData
  | send (txData : SendTxData)
  | topup (txData : TopupTxData)

namespace ElusivTxData

def lastNonce : ElusivTxData → ℤ
  | send txData => txData.lastNonce
  | topup txData => txData.lastNonce

/-- `txData.txType === 'TOPUP' && txData.merge`. -/
def isMerge : ElusivTxData → Bool
  | send _ => false
  | topup txData => txData.merge

/-- The nonce that `findSig` looks for afterwards. -/
def currNonce (txData : ElusivTxData) : ℤ :=
  if txData.isMerge then txData.lastNonce + 2 else txData.lastNonce + 1

end ElusivTxData

/-- What sending throws: a `TypeError`, as the fetch of the platform does, or anything else. -/
inductive SendError
  | typeError (message : String)
  | other (failure : Failure)
deriving DecidableEq

def FETCH_FAILED : SendError := .typeError "fetch failed"

/-- The first part of `sendElusivTxWithTracking`: `sent` is what the sender returned or threw, and an
error is thrown again. -/
def elusivTxSig (getTxsFromNonces : List (ℕ × Bool) → Except Failure (List ElusivTransaction))
    (fuel : ℕ) (txData : ElusivTxData) (sent : Except SendError ConfirmedSignatureInfo) :
    ManagerM (Except SendError (Option ConfirmedSignatureInfo)) :=
  match sent with
  | .ok sig => pure (.ok (some sig))
  | .error err =>
      -- the warden may have done its work although the answer was lost
      if err = FETCH_FAILED then do
        let txs ← fetchTxs getTxsFromNonces fuel 1 none none
        match txs[0]? with
        | some mostRecent =>
            if (mostRecent.nonce : ℤ) = txData.lastNonce + 1 then pure (.ok mostRecent.signature)
            else pure (.error err)
        | none => pure (.error err)
      else pure (.error err)

/-- The newest transaction on chain. -/
def History.mostRecent (h : History) : Option ElusivTransaction := (below h.bucket h.length).head?

namespace History

variable {h : History}

/-- One batch of one transaction reads the newest first. -/
lemma head?_read_one (hlen : h.length ≤ MAX_UINT32) :
    (h.read 1 (some MAX_SAFE_INTEGER)).head? = h.mostRecent := by
  have htop : h.top (some MAX_SAFE_INTEGER) = h.length := by
    have hmax : MAX_UINT32 ≤ MAX_SAFE_INTEGER := by decide
    rw [top, Option.map_some, Option.getD_some, Int.toNat_natCast]
    omega
  rw [read, head?_takeGroups Nat.one_pos, htop, mostRecent]
  cases hn : h.length with
  | zero => rfl
  | succ n =>
      have hne : (h.bucket n).reverse ≠ [] := by
        rw [Ne, List.reverse_eq_nil_iff]
        exact fun hnil => h.ne_nil_of_newest n hn ((h.bucket_eq_nil_iff n).mp hnil)
      rw [Nat.add_sub_cancel, between_singleton, below, between_succ (Nat.zero_le n),
        List.head?_append_of_ne_nil _ hne]

/-- **Fetching one transaction gives the newest first**, on any chain. -/
lemma head?_fetchTxs_one (hlen : h.length ≤ MAX_UINT32) :
    (h.fetchTxs 1 none none).head? = h.mostRecent := by
  rw [← head?_read_one hlen]
  generalize hbatch : h.read 1 (some MAX_SAFE_INTEGER) = batch
  have hround : h.fetchRound 1 none (FetchLoop.start none)
      = { res := batch.map some, fetchedCount := batch.length,
          beforeInner := getLowestFetchedNonceFromBatch batch } := by
    rw [fetchRound, show (FetchLoop.start none).beforeInner = MAX_SAFE_INTEGER from rfl, hbatch,
      FetchLoop.addBatch, FetchLoop.mk.injEq]
    refine ⟨List.nil_append _, ?_, rfl⟩
    have hall : (batch.filter fun tx => tx.hasToken none) = batch :=
      List.filter_eq_self.mpr fun tx _ => rfl
    show 0 + (batch.filter fun tx => tx.hasToken none).length = batch.length
    rw [hall, Nat.zero_add]
  -- an empty batch ends the loop by its bound, another one by its length
  have hend : FetchLoop.continues 1 (h.fetchRound 1 none (FetchLoop.start none)) = false := by
    rw [hround, FetchLoop.continues]
    cases batch with
    | nil => rfl
    | cons tx batch =>
        rw [Bool.and_eq_false_iff]
        exact Or.inr (decide_eq_false (by simp))
  have hloop : h.fetchLoop 1 none none = h.fetchRound 1 none (FetchLoop.start none) := by
    have hstart : FetchLoop.continues 1 (FetchLoop.start none) = true := by decide
    rw [fetchLoop, iterateWhile, if_pos hstart, iterateWhile, if_neg (by rw [hend]; decide)]
  rw [fetchTxs, hloop, hround, head?_takeGroups Nat.one_pos]
  show ((batch.map some).filterMap id).head? = batch.head?
  rw [List.filterMap_map, Function.id_comp, List.filterMap_some]

end History

/-! ## What is accepted after a lost answer -/

/-- The nonce with which the transaction of the data was built. -/
inductive ElusivTxData.BuiltOn {poseidon : Poseidon} (circuits : Circuits poseidon)
    (serialization : Serialization) (seedWrapper : SeedWrapper) (accs : ProgramAccounts) :
    ElusivTxData → ℕ → Prop
  | send {request : SendRequest} {params : FetchedParams} {sendTx : SendTx} {fee : Fee}
      (hnonce : -1 ≤ params.lastNonce)
      (hbuilt : buildSend circuits serialization seedWrapper request params = .ok (sendTx, fee)) :
      BuiltOn circuits serialization seedWrapper accs
        (.send (@sendTxToSendTxData poseidon sendTx fee params.merkleStartIndex))
        sendTx.nonce
  | topup {request : TopupRequest} {params : FetchedParams} {mergeFee : Option ℤ}
      {storeTx : StoreTx} {fee : Fee} {txData : TopupTxData} (hnonce : -1 ≤ params.lastNonce)
      (hbuilt : topupStore serialization seedWrapper poseidon request params mergeFee
        = .ok (storeTx, fee))
      (hdata : topupTxData seedWrapper accs poseidon (storeTx, fee) params mergeFee = .ok txData) :
      BuiltOn circuits serialization seedWrapper accs (.topup txData) storeTx.nonce

section Recovery

variable {poseidon : Poseidon} {circuits : Circuits poseidon} {serialization : Serialization}
  {seedWrapper : SeedWrapper} {accs : ProgramAccounts} {txData : ElusivTxData} {nonce : ℕ}

/-- **The poll of `findSig` looks for the nonce of the build**, after a merge too. -/
theorem ElusivTxData.BuiltOn.currNonce_eq
    (h : txData.BuiltOn circuits serialization seedWrapper accs nonce) : txData.currNonce = nonce := by
  cases h with
  | send hnonce hbuilt =>
      rename_i request params sendTx fee
      show (sendTx.nonce : ℤ) - 1 + 1 = sendTx.nonce
      omega
  | topup hnonce hbuilt hdata =>
      rename_i request params mergeFee storeTx fee data
      obtain ⟨rawTx, -, hdata⟩ := bind_eq_ok.mp hdata
      obtain rfl := Except.ok.inj hdata
      rw [(topupStore_spec hbuilt).nonce_eq]
      show (if mergeFee.isSome then params.lastNonce + 2 else params.lastNonce + 1) = _
      cases mergeFee with
      | none =>
          rw [Option.isSome_none, if_neg Bool.false_ne_true, if_neg Bool.false_ne_true]
          omega
      | some fee =>
          rw [Option.isSome_some, if_pos rfl, if_pos rfl]
          omega

/-- What the recovery returns, on any coherent manager. -/
lemma elusivTxSig_fetchFailed {h : History} {m : TxManager} (hc : Coherent h m)
    (hgaps : h.GapsBelow DEFAULT_FETCH_BATCH_SIZE) (hlen : h.length ≤ MAX_UINT32) {fuel : ℕ}
    (hfuel : h.length + DEFAULT_FETCH_BATCH_SIZE + 3 ≤ fuel) (txData : ElusivTxData) :
    ∃ res m', exec (elusivTxSig h.fetcher fuel txData (.error FETCH_FAILED)) m
        = (.ok res, m') ∧
      ∀ sig, res = .ok sig ↔ ∃ tx, h.mostRecent = some tx ∧
        (tx.nonce : ℤ) = txData.lastNonce + 1 ∧ tx.signature = sig := by
  obtain ⟨txs, m', hexec, rfl, -⟩ := (fetchTxs_spec hc hgaps hfuel 1 none none).run rfl
  have hhead := h.head?_fetchTxs_one hlen
  rw [List.head?_eq_getElem?] at hhead
  rw [elusivTxSig, if_pos rfl]
  cases hrecent : h.mostRecent with
  | none =>
      rw [hrecent] at hhead
      refine ⟨.error FETCH_FAILED, m', exec_bind_eq_ok.mpr ⟨_, m', hexec, ?_⟩,
        fun sig => ?_⟩
      · rw [hhead]
        rfl
      · refine iff_of_false (fun heq => nomatch heq) ?_
        rintro ⟨tx, htx, -⟩
        nomatch htx
  | some tx =>
      rw [hrecent] at hhead
      by_cases hnonce : (tx.nonce : ℤ) = txData.lastNonce + 1
      · refine ⟨.ok tx.signature, m', exec_bind_eq_ok.mpr ⟨_, m', hexec, ?_⟩,
        fun sig => ?_⟩
        · rw [hhead]
          dsimp only
          rw [if_pos hnonce]
          rfl
        · constructor
          · intro heq
            exact ⟨tx, rfl, hnonce, Except.ok.inj heq⟩
          · rintro ⟨tx', htx', -, rfl⟩
            obtain rfl := Option.some.inj htx'
            rfl
      · refine ⟨.error FETCH_FAILED, m', exec_bind_eq_ok.mpr ⟨_, m', hexec, ?_⟩,
        fun sig => ?_⟩
        · rw [hhead]
          dsimp only
          rw [if_neg hnonce]
          rfl
        · refine iff_of_false (fun heq => nomatch heq) ?_
          rintro ⟨tx', htx', heq, -⟩
          obtain rfl := Option.some.inj htx'
          exact hnonce heq

/-- **After `fetch failed` a signature is returned exactly when the newest transaction has the nonce of
the build, and it is that transaction's — exactly when** the data is not that of a topup after a merge,
or the newest nonce is neither that of the merge nor that of the topup. -/
theorem elusivTxSig_iff (hbuilt : txData.BuiltOn circuits serialization seedWrapper accs nonce)
    {h : History} {m : TxManager} (hc : Coherent h m)
    (hgaps : h.GapsBelow DEFAULT_FETCH_BATCH_SIZE) (hlen : h.length ≤ MAX_UINT32) {fuel : ℕ}
    (hfuel : h.length + DEFAULT_FETCH_BATCH_SIZE + 3 ≤ fuel) :
    ∃ res m', exec (elusivTxSig h.fetcher fuel txData (.error FETCH_FAILED)) m
        = (.ok res, m') ∧
      ((∀ sig, res = .ok sig ↔ ∃ tx, h.mostRecent = some tx ∧ tx.nonce = nonce ∧
          tx.signature = sig) ↔
        (txData.isMerge = true → ∀ tx ∈ h.mostRecent, (tx.nonce : ℤ) ≠ txData.lastNonce + 1 ∧
          (tx.nonce : ℤ) ≠ txData.lastNonce + 2)) := by
  obtain ⟨res, m', hexec, hres⟩ := elusivTxSig_fetchFailed hc hgaps hlen hfuel txData
  refine ⟨res, m', hexec, ?_⟩
  have hnonce := hbuilt.currNonce_eq
  rw [ElusivTxData.currNonce] at hnonce
  cases hmerge : txData.isMerge with
  | false =>
      rw [hmerge, if_neg Bool.false_ne_true] at hnonce
      refine iff_of_true (fun sig => ?_) nofun
      rw [hres, hnonce]
      simp only [Nat.cast_inj]
  | true =>
      rw [hmerge, if_pos rfl] at hnonce
      constructor
      · intro hall _ tx htx
        have hrecent : h.mostRecent = some tx := htx
        constructor
        · intro heq
          -- the merge is taken for the topup
          obtain ⟨tx', htx', hnonce', -⟩ := (hall tx.signature).mp
            ((hres _).mpr ⟨tx, hrecent, heq, rfl⟩)
          rw [hrecent] at htx'
          obtain rfl := Option.some.inj htx'
          omega
        · intro heq
          -- the topup is refused
          obtain ⟨tx', htx', hnonce', -⟩ := (hres tx.signature).mp
            ((hall _).mpr ⟨tx, hrecent, by omega, rfl⟩)
          rw [hrecent] at htx'
          obtain rfl := Option.some.inj htx'
          omega
      · intro hne sig
        rw [hres]
        refine iff_of_false ?_ ?_
        · rintro ⟨tx, htx, heq, -⟩
          exact (hne rfl tx htx).1 heq
        · rintro ⟨tx, htx, heq, -⟩
          exact (hne rfl tx htx).2 (by omega)

end Recovery

/-! ### A topup after a merge -/

/-- Four active topups, of 1000000 lamports each. -/
def fourActive : List IncompleteCommitment :=
  [0, 1, 2, 3].map fun nonce => buildTopupCommitment nonce 1000000 .LAMPORTS 7 plainSeed

def mergedTopup : Except Failure (StoreTx × Fee) :=
  topupStore plainSerialization plainSeed plainPoseidon (plainTopupRequest 600000)
    (plainParams 3 fourActive) (some 5000)

def mergedTopupData : TopupTxData :=
  value (topupTxData plainSeed plainAccounts plainPoseidon (value mergedTopup (by decide +kernel))
    (plainParams 3 fourActive) (some 5000)) (by decide +kernel)

lemma builtOn_mergedTopupData :
    (ElusivTxData.topup mergedTopupData).BuiltOn plainCircuits plainSerialization plainSeed
      plainAccounts 5 := by
  have hnonce : (value mergedTopup (by decide +kernel)).1.nonce = 5 := by decide +kernel
  rw [← hnonce]
  exact ElusivTxData.BuiltOn.topup (by decide) (eq_ok_value (by decide +kernel))
    (eq_ok_value (by decide +kernel))

/-- The four topups, and the merge on nonce 4. -/
def mergedChain : History :=
  .ofList [.bareTopup 0 .LAMPORTS 1000000 0, .bareTopup 1 .LAMPORTS 1000000 1,
    .bareTopup 2 .LAMPORTS 1000000 2, .bareTopup 3 .LAMPORTS 1000000 3,
    .bareSend 4 .LAMPORTS 0 5000 4 none] (by decide)

/-- The four topups, the merge, and the topup on nonce 5. -/
def toppedUpChain : History :=
  .ofList [.bareTopup 0 .LAMPORTS 1000000 0, .bareTopup 1 .LAMPORTS 1000000 1,
    .bareTopup 2 .LAMPORTS 1000000 2, .bareTopup 3 .LAMPORTS 1000000 3,
    .bareSend 4 .LAMPORTS 0 5000 4 none, .bareTopup 5 .LAMPORTS 600000 5] (by decide)

lemma gapsBelow_mergedChain : mergedChain.GapsBelow DEFAULT_FETCH_BATCH_SIZE := by
  have hgapless : mergedChain.Gapless := show ∀ n < 5, mergedChain.txsAt n ≠ [] by decide
  exact hgapless.gapsBelow (by decide)

theorem elusivTxSig_iff_merged :
    ∃ res m', exec (elusivTxSig mergedChain.fetcher 18 (.topup mergedTopupData)
        (.error FETCH_FAILED)) .new = (.ok res, m') ∧
      ¬ ∀ sig, res = .ok sig ↔ ∃ tx, mergedChain.mostRecent = some tx ∧ tx.nonce = 5 ∧
        tx.signature = sig := by
  obtain ⟨res, m', hexec, hiff⟩ := elusivTxSig_iff builtOn_mergedTopupData
    (coherent_new mergedChain) gapsBelow_mergedChain (by decide) (Nat.le_refl 18)
  refine ⟨res, m', hexec, fun hall => ?_⟩
  have hrecent : mergedChain.mostRecent = some (.bareSend 4 .LAMPORTS 0 5000 4 none) := by decide
  exact (hiff.mp hall (by decide +kernel) _ hrecent).1 (by decide +kernel)

/-- **The merge is taken for the topup that was built on nonce 5, and the topup itself is refused.** -/
theorem elusivTxSig_takes_merge :
    (ElusivTxData.topup mergedTopupData).BuiltOn plainCircuits plainSerialization plainSeed
        plainAccounts 5 ∧
      (exec (elusivTxSig mergedChain.fetcher 18 (.topup mergedTopupData)
          (.error FETCH_FAILED)) .new).1 = .ok (.ok (some ⟨"4", none, none⟩)) ∧
      mergedChain.mostRecent.map ElusivTransaction.nonce = some 4 ∧
      (exec (elusivTxSig toppedUpChain.fetcher 19 (.topup mergedTopupData)
          (.error FETCH_FAILED)) .new).1 = .ok (.error FETCH_FAILED) ∧
      toppedUpChain.mostRecent.map ElusivTransaction.nonce = some 5 :=
  ⟨builtOn_mergedTopupData, by decide +kernel, by decide, by decide +kernel, by decide⟩

end ElusivSdk
