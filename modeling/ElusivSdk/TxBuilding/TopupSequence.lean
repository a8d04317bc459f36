import ElusivSdk.Library.BoundedCounter
import ElusivSdk.TxBuilding.SequentialRuns

/-!
# Topups one after the other

A client that tops up again and again merges whenever all places for active commitments are taken: the
commitments of a token count up to `SEND_ARITY`, and after a merge and its topup there are two.

* `Client.activeCount` — how many active commitments there are of a token.
* `Client.landTopup`, `Client.landTopups` — `buildTopUpTx` and landing what it makes, with the merges.
* **`Client.landTopups_merges`** — the merges are where the counter of the token overflows.
-/

namespace ElusivSdk

open BoundedCounter InstructionBuilding Program TransactionBuilding Transition

/-- The active transactions after one more. -/
lemma SequentialChain.length_activeTxs_grow {scheme : CommitmentScheme} {h h' : History}
    {tx : ElusivTransaction} (hgrow : h.grow (.land tx 0) = some h') (hs : SequentialChain scheme h)
    (hs' : SequentialChain scheme h') (hnonce : tx.nonce = h.length) (hlen : h'.length ≤ MAX_UINT32)
    (tokenType : TokenType) : (h'.activeTxs tokenType).length
      = if tx.tokenType = tokenType then
          match tx.txType with
          | .SEND => 1
          | .TOPUP => (h.activeTxs tokenType).length + 1
        else (h.activeTxs tokenType).length := by
  rw [History.grow] at hgrow
  split_ifs at hgrow
  obtain rfl := Option.some.inj hgrow
  have hlen' : h.length ≤ MAX_UINT32 := by
    rw [History.length_land hnonce] at hlen
    omega
  rw [hs'.activeTxs_eq hlen, hs.activeTxs_eq hlen',
    History.tokenTxs_land hs.distinctHashes hs'.distinctHashes hnonce]
  split_ifs
  · rw [upToSend]
    cases tx.txType with
    | SEND => rfl
    | TOPUP => rfl
  · rfl

/-- A topup that is asked for, and what is needed to land it. -/
structure TopupCall where
  request : TopupRequest
  answers : Answers
  fee : ℤ
  signature : ConfirmedSignatureInfo
  /-- For the merge, if there is one. -/
  data : FinalizeData

namespace Client

def activeCount (s : Client) (tokenType : TokenType) : ℕ := (s.chain.activeTxs tokenType).length

section Landing

variable {poseidon : Poseidon} (circuits : Circuits poseidon) (serialization : Serialization)
  (seedWrapper : SeedWrapper) (accs : ProgramAccounts) (owner : PublicKey)

/-- `buildTopUpTx` with automatic merges, whose topup lands; the flag tells whether a merge did first. -/
def landTopup (s : Client) (call : TopupCall) : Option (Client × Bool) :=
  (step circuits serialization seedWrapper accs owner s (.topup false call.request call.answers call.fee
      call.signature call.data)).bind fun s₁ =>
    match s₁.merged with
    | none => if s₁.chain.length = s.chain.length + 1 then some (s₁, false) else none
    | some _ =>
        (step circuits serialization seedWrapper accs owner s₁
          (.topupMerged call.fee call.signature)).bind fun s₂ =>
            if s₂.chain.length = s₁.chain.length + 1 then some (s₂, true) else none

/-- The topups in turn, and which of them needed a merge. -/
def landTopups : Client → List TopupCall → Option (Client × List Bool)
  | s, [] => some (s, [])
  | s, call :: calls =>
      (landTopup circuits serialization seedWrapper accs owner s call).bind fun landed =>
        (landTopups landed.1 calls).map fun rest => (rest.1, landed.2 :: rest.2)

variable {circuits serialization seedWrapper accs owner} {hasCommitment : Bytes → ℕ → Bool}
  {s s' : Client}

/-- A topup that lands is one more commitment of its token. -/
lemma Kept.activeCount_topup (hs : Kept (seedWrapper.commitmentScheme poseidon hasCommitment) s)
    (hs' : Kept (seedWrapper.commitmentScheme poseidon hasCommitment) s')
    {request : TopupRequest} {params : FetchedParams} {mergeFee : Option ℤ} {storeTx : StoreTx}
    (hbuild : buildTopup serialization seedWrapper accs poseidon request params mergeFee = .ok storeTx)
    (hnonce : (if mergeFee.isSome then params.lastNonce + 1 else params.lastNonce) + 1
      = (s.chain.length : ℤ))
    {fee : ℤ} {signature : ConfirmedSignatureInfo}
    (hland : s.land (storeTx.landed fee signature) = some s') (hlen : s'.chain.length ≤ MAX_UINT32)
    (tokenType : TokenType) : s'.activeCount tokenType
      = if request.tokenType = tokenType then s.activeCount tokenType + 1 else s.activeCount tokenType := by
  obtain ⟨hbuilt, -, -⟩ := buildTopup_landed hasCommitment hbuild fee signature
  have hlanded : (storeTx.landed fee signature).nonce = s.chain.length := by
    have heq := hbuilt.nonce_eq
    rw [hnonce] at heq
    exact heq
  have htoken : (storeTx.landed fee signature).tokenType = request.tokenType := hbuilt.tokenType_eq
  obtain ⟨chain, hgrow, rfl⟩ := Option.map_eq_some_iff.mp hland
  have hcount := hs.chain.length_activeTxs_grow hgrow hs'.chain hlanded hlen tokenType
  rw [htoken] at hcount
  exact hcount

/-- A merge that lands is the only active commitment of its token. -/
lemma Kept.activeCount_merge (hs : Kept (seedWrapper.commitmentScheme poseidon hasCommitment) s)
    {request : TopupRequest} {params : FetchedParams} (hfresh : params.Fresh s.chain request.tokenType)
    {send : SendTx × Fee} (hsend : buildSend circuits serialization seedWrapper
      (mergeRequest accs request.tokenType owner request.warden none) params = .ok send)
    {data : FinalizeData} {tx : ElusivTransaction}
    (hlanded : landedSend serialization seedWrapper send data = .ok tx)
    (hgrow : s.chain.grow (.land tx 0) = some s'.chain)
    (hs' : Kept (seedWrapper.commitmentScheme poseidon hasCommitment) s')
    (hlen : s'.chain.length ≤ MAX_UINT32) (tokenType : TokenType) :
    s'.activeCount tokenType = if request.tokenType = tokenType then 1 else s.activeCount tokenType := by
  obtain ⟨hbuilt, hlandedAs, -⟩ := landedSend_eq_ok hasCommitment hsend hlanded
  have hnonce : tx.nonce = s.chain.length := by
    rw [hlandedAs.nonce_eq, hbuilt.nonce_eq, hfresh.lastNonce_eq]
    omega
  have htoken : tx.tokenType = request.tokenType := hlandedAs.tokenType_eq.trans hbuilt.tokenType_eq
  have hcount := hs.chain.length_activeTxs_grow hgrow hs'.chain hnonce hlen tokenType
  rw [htoken, hlandedAs.txType_eq] at hcount
  exact hcount

/-- What is fetched is as many commitments as there are active ones. -/
lemma Kept.length_fetched (hs : Kept (seedWrapper.commitmentScheme poseidon hasCommitment) s)
    (hlen : s.chain.length ≤ MAX_UINT32) {params : FetchedParams} {tokenType : TokenType}
    (hfresh : params.Fresh s.chain tokenType) :
    params.activeCommitments.length = s.activeCount tokenType := by
  rw [activeCount, hs.chain.activeTxs_eq hlen, hfresh.length_eq]

/-- **One call of `buildTopUpTx`**: it merges when the counter of the token is full, and counts the topup. -/
theorem Kept.landTopup (hs : Kept (seedWrapper.commitmentScheme poseidon hasCommitment) s)
    (hsep : (seedWrapper.commitmentScheme poseidon hasCommitment).Separates) {call : TopupCall}
    {merge : Bool} (h : s.landTopup circuits serialization seedWrapper accs owner call = some (s', merge))
    (hlen : s'.chain.length ≤ MAX_UINT32) :
    Kept (seedWrapper.commitmentScheme poseidon hasCommitment) s' ∧
      merge = decide (s.activeCount call.request.tokenType = SEND_ARITY) ∧
      s'.activeCount = add SEND_ARITY 1 s.activeCount call.request.tokenType := by
  obtain ⟨s₁, hstep, h⟩ := Option.bind_eq_some_iff.mp h
  have hgrows := length_le_step hstep
  cases hmerged : s₁.merged with
  | none =>
      rw [hmerged] at h
      dsimp only at h
      split_ifs at h with hlanded
      obtain ⟨rfl, rfl⟩ := Prod.mk.inj (Option.some.inj h)
      have hlen₀ : s.chain.length ≤ MAX_UINT32 := Nat.le_trans hgrows hlen
      have hs₁ := hs.step hsep hlen₀ hstep
      obtain ⟨hnone, m, hm, rfl | ⟨params, hfresh, ⟨storeTx, hroom, hbuild, hland⟩ |
        ⟨send, tx, chain, -, -, -, -, rfl⟩⟩⟩ := hs.topup_cases hsep hlen₀ hstep
      · -- nothing landed
        exact absurd hlanded (Nat.ne_of_lt (Nat.lt_succ_self _))
      · rw [hs.length_fetched hlen₀ hfresh] at hroom
        have hcount := (hs.withManager hm).activeCount_topup hs₁ hbuild
          (by rw [hfresh.lastNonce_eq]; exact sub_add_cancel _ _) hland hlen
        refine ⟨hs₁, (decide_eq_false (Nat.ne_of_lt hroom)).symm, funext fun tokenType => ?_⟩
        rw [hcount tokenType]
        by_cases htoken : call.request.tokenType = tokenType
        · subst htoken
          rw [if_pos rfl, add_self, if_neg (Nat.ne_of_lt hroom)]
          rfl
        · rw [if_neg htoken, add_of_ne (Ne.symm htoken)]
          rfl
      · nomatch hmerged
  | some merged =>
      rw [hmerged] at h
      obtain ⟨s₂, hstep₂, h⟩ := Option.bind_eq_some_iff.mp h
      split_ifs at h with hlanded
      obtain ⟨rfl, rfl⟩ := Prod.mk.inj (Option.some.inj h)
      have hlen₁ : s₁.chain.length ≤ MAX_UINT32 := Nat.le_trans (length_le_step hstep₂) hlen
      have hlen₀ : s.chain.length ≤ MAX_UINT32 := Nat.le_trans hgrows hlen₁
      have hs₁ := hs.step hsep hlen₀ hstep
      have hs₂ := hs₁.step hsep hlen₁ hstep₂
      obtain ⟨hnone, m, hm, rfl | ⟨params, hfresh, ⟨storeTx, -, -, hland⟩ |
        ⟨send, tx, chain, hfull, hsend, hlandedSend, hgrow, rfl⟩⟩⟩ := hs.topup_cases hsep hlen₀ hstep
      · nomatch hnone.symm.trans hmerged
      · obtain ⟨chain, -, rfl⟩ := Option.map_eq_some_iff.mp hland
        nomatch hnone.symm.trans hmerged
      · rw [hs.length_fetched hlen₀ hfresh] at hfull
        have hmerge := (hs.withManager hm).activeCount_merge hfresh hsend hlandedSend hgrow hs₁ hlen₁
        have hready := hs₁.ready _ rfl
        obtain ⟨merged', hmerged', rfl | ⟨storeTx, hbuild, hland⟩⟩ := topupMerged_cases hstep₂
        · exact absurd hlanded (Nat.ne_of_lt (Nat.lt_succ_self _))
        · obtain rfl := Option.some.inj hmerged'
          have hnonce : params.lastNonce + 1 + 1 = (chain.length : ℤ) := by
            rw [add_assoc]
            exact hready.lastNonce_eq
          have hcount := hs₁.withoutMerged.activeCount_topup hs₂ hbuild hnonce hland hlen
          refine ⟨hs₂, (decide_eq_true hfull).symm, funext fun tokenType => ?_⟩
          rw [hcount tokenType]
          by_cases htoken : call.request.tokenType = tokenType
          · subst htoken
            rw [if_pos rfl, add_self, if_pos hfull]
            exact congrArg (· + 1) ((hmerge _).trans (if_pos rfl))
          · rw [if_neg htoken, add_of_ne (Ne.symm htoken)]
            exact (hmerge tokenType).trans (if_neg htoken)

lemma length_le_landTopup {call : TopupCall} {merge : Bool}
    (h : s.landTopup circuits serialization seedWrapper accs owner call = some (s', merge)) :
    s.chain.length ≤ s'.chain.length := by
  obtain ⟨s₁, hstep, h⟩ := Option.bind_eq_some_iff.mp h
  have hgrows := length_le_step hstep
  cases hmerged : s₁.merged with
  | none =>
      rw [hmerged] at h
      dsimp only at h
      split_ifs at h
      obtain ⟨rfl, -⟩ := Prod.mk.inj (Option.some.inj h)
      exact hgrows
  | some merged =>
      rw [hmerged] at h
      obtain ⟨s₂, hstep₂, h⟩ := Option.bind_eq_some_iff.mp h
      split_ifs at h
      obtain ⟨rfl, -⟩ := Prod.mk.inj (Option.some.inj h)
      exact Nat.le_trans hgrows (length_le_step hstep₂)

lemma length_le_landTopups {calls : List TopupCall} {merges : List Bool}
    (h : landTopups circuits serialization seedWrapper accs owner s calls = some (s', merges)) :
    s.chain.length ≤ s'.chain.length := by
  induction calls generalizing s merges with
  | nil => exact Nat.le_of_eq (congrArg (fun landed => landed.1.chain.length) (Option.some.inj h))
  | cons call calls ih =>
      obtain ⟨⟨s₁, merge⟩, hlanded, h⟩ := Option.bind_eq_some_iff.mp h
      obtain ⟨⟨s₂, rest⟩, hrest, heq⟩ := Option.map_eq_some_iff.mp h
      obtain ⟨rfl, -⟩ := Prod.mk.inj heq
      exact Nat.le_trans (length_le_landTopup hlanded) (ih hrest)

/-- **A list of topups merges where the counters overflow** that start with the active commitments. -/
theorem Kept.landTopups_merges (hs : Kept (seedWrapper.commitmentScheme poseidon hasCommitment) s)
    (hsep : (seedWrapper.commitmentScheme poseidon hasCommitment).Separates) {calls : List TopupCall}
    {merges : List Bool}
    (h : landTopups circuits serialization seedWrapper accs owner s calls = some (s', merges))
    (hlen : s'.chain.length ≤ MAX_UINT32) :
    merges = overflows SEND_ARITY 1 s.activeCount (calls.map fun call => call.request.tokenType) := by
  induction calls generalizing s merges with
  | nil => exact (Prod.mk.inj (Option.some.inj h)).2.symm
  | cons call calls ih =>
      obtain ⟨⟨s₁, merge⟩, hlanded, h⟩ := Option.bind_eq_some_iff.mp h
      obtain ⟨⟨s₂, rest⟩, hrest, heq⟩ := Option.map_eq_some_iff.mp h
      obtain ⟨rfl, rfl⟩ := Prod.mk.inj heq
      obtain ⟨hs₁, hmerge, hcount⟩ :=
        hs.landTopup hsep hlanded (Nat.le_trans (length_le_landTopups hrest) hlen)
      have hrests := ih hs₁ hrest
      rw [hcount] at hrests
      rw [List.map_cons, overflows, hmerge, hrests]

/-- There is never more than fits. -/
lemma Kept.activeCount_le {scheme : CommitmentScheme} (hs : Kept scheme s)
    (hlen : s.chain.length ≤ MAX_UINT32) (tokenType : TokenType) :
    s.activeCount tokenType ≤ SEND_ARITY := by
  rw [activeCount, hs.chain.activeTxs_eq hlen]
  exact hs.chain.arity tokenType

end Landing

end Client

end ElusivSdk
