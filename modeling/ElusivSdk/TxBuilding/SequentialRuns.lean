import ElusivSdk.Library.Transition
import ElusivSdk.TxBuilding.LandedCommitments
import ElusivSdk.TxManagers.Query

/-!
# Runs of one client

A client builds a transaction, waits until it is confirmed, and builds the next.  When the active
commitments leave no room for a topup, a merge is built from the same parameters and sent first.

* `Client` — the chain, the cache of the client, and the topup that a merge was made for.
* `ClientEvent` — reading, a topup, the topup after a merge, a send or a merge; a call that throws changes
  only the cache.
* `Client.Kept` — what a client keeps: the chain is that of one client that waits, every topup tells the
  balance right after it, and every send was built as its commitment says.
* **`Client.Kept.step`**, **`Client.kept_of_run`** — every step keeps it, as long as nonces fit in 32 bits,
  and so does every run.
-/

namespace ElusivSdk

open Descending InstructionBuilding Program TransactionBuilding Transition

/-- The chain, and one client with its cache. -/
structure Client where
  chain : History
  manager : TxManager
  /-- The merge is on chain, the topup is not. -/
  merged : Option MergedTopup
  /-- Every send as it was built, and as it is on chain. -/
  sends : List (SendTx × ElusivTransaction)

inductive ClientEvent
  /-- A call that reads. -/
  | query (q : Query)
  /-- `buildTopUpTx`; the topup or the merge that it makes is sent. -/
  | topup (manualMerge : Bool) (request : TopupRequest) (answers : Answers) (fee : ℤ)
      (signature : ConfirmedSignatureInfo) (data : FinalizeData)
  /-- The rest of `buildTopUpTx` after the merge. -/
  | topupMerged (fee : ℤ) (signature : ConfirmedSignatureInfo)
  /-- The topup is not made. -/
  | giveUp
  | send (request : SendRequest) (answers : Answers) (data : FinalizeData)

section Client

variable {poseidon : Poseidon} (circuits : Circuits poseidon) (serialization : Serialization)
  (seedWrapper : SeedWrapper) (accs : ProgramAccounts) (owner : PublicKey)

/-- `buildTopUpTx` up to the topup, or to the merge. -/
def buildTopUpTx (getTxsFromNonces : List (ℕ × Bool) → Except Failure (List ElusivTransaction))
    (fuel : ℕ) (manualMerge : Bool) (request : TopupRequest) (answers : Answers) :
    ManagerM (BuiltTopup × FetchedParams) := do
  let params ← fetchTxRemoteParams seedWrapper poseidon getTxsFromNonces fuel answers request.tokenType
  let built ← lift (buildTopupOrMerge circuits serialization seedWrapper accs owner manualMerge request
    params)
  pure (built, params)

/-- `buildSendTx`; a merge is a send with the request of a merge. -/
def buildFetchedSend
    (getTxsFromNonces : List (ℕ × Bool) → Except Failure (List ElusivTransaction)) (fuel : ℕ)
    (request : SendRequest) (answers : Answers) : ManagerM (SendTx × Fee) := do
  let params ← fetchTxRemoteParams seedWrapper poseidon getTxsFromNonces fuel answers request.tokenType
  lift (buildSend circuits serialization seedWrapper request params)

namespace Client

def start : Client :=
  { chain := .ofList [] History.nil_not_confirmed
    manager := .new
    merged := none
    sends := [] }

def land (s : Client) (tx : ElusivTransaction) : Option Client :=
  (s.chain.grow (.land tx 0)).map fun chain => { s with chain := chain }

/-- The send lands, unless its JSON cannot be written; `merged` waits for it. -/
def landSend (s : Client) (send : SendTx × Fee) (data : FinalizeData) (merged : Option MergedTopup) :
    Option Client :=
  match landedSend serialization seedWrapper send data with
  | .error _ => some s
  | .ok tx => (s.land tx).map fun s => { s with sends := (send.1, tx) :: s.sends, merged := merged }

def step (s : Client) : ClientEvent → Option Client
  | .query q => some { s with manager := (exec (q.alone s.chain.fetcher s.chain.enoughFuel) s.manager).2 }
  | .topup manualMerge request answers fee signature data =>
      if s.merged.isSome then none
      else
        match exec (buildTopUpTx circuits serialization seedWrapper accs owner s.chain.fetcher
          s.chain.enoughFuel manualMerge request answers) s.manager with
        | (.error _, m) => some { s with manager := m }
        | (.ok (.topup storeTx, _), m) => land { s with manager := m } (storeTx.landed fee signature)
        | (.ok (.merge send, params), m) =>
            landSend serialization seedWrapper { s with manager := m } send data
              (some ⟨request, params, getTotalFeeAmount send.2⟩)
  | .topupMerged fee signature =>
      match s.merged with
      | none => none
      | some merged =>
          match buildTopup serialization seedWrapper accs poseidon merged.request merged.params
            (some merged.mergeFee) with
          | .error _ => some { s with merged := none }
          | .ok storeTx => land { s with merged := none } (storeTx.landed fee signature)
  | .giveUp => some { s with merged := none }
  | .send request answers data =>
      if s.merged.isSome then none
      else
        match exec (buildFetchedSend circuits serialization seedWrapper s.chain.fetcher
          s.chain.enoughFuel request answers) s.manager with
        | (.error _, m) => some { s with manager := m }
        | (.ok send, m) => landSend serialization seedWrapper { s with manager := m } send data none

end Client

/-! ## What a fetch returns -/

/-- Parameters that were fetched on the chain. -/
structure FetchedParams.Fresh (params : FetchedParams) (h : History) (tokenType : TokenType) : Prop where
  sumBalance_eq : sumBalance params.activeCommitments = h.balanceBelow tokenType h.length
  length_eq : params.activeCommitments.length = (upToSend (h.tokenTxs tokenType)).length
  lastNonce_eq : params.lastNonce = (h.length : ℤ) - 1

section Specs

attribute [local irreducible] Triple

variable {seedWrapper} {hasCommitment : Bytes → ℕ → Bool} {h : History} {m₀ : TxManager}
  (hs : SequentialChain (seedWrapper.commitmentScheme poseidon hasCommitment) h)
  (hsep : (seedWrapper.commitmentScheme poseidon hasCommitment).Separates)
  (hlen : h.length ≤ MAX_UINT32) (hc : Coherent h m₀)
include hs hsep hlen hc

/-- **On such a chain a fetch returns what the chain holds, or it throws.** -/
theorem fetchTxRemoteParams_fresh (answers : Answers) (tokenType : TokenType) :
    Triple (fun m => m = m₀)
      (fetchTxRemoteParams seedWrapper poseidon h.fetcher h.enoughFuel answers tokenType)
      (fun params m => params.Fresh h tokenType ∧ Coherent h m) (fun _ m => Coherent h m) := by
  have hactive := hs.activeTxs_eq hlen tokenType
  have hnodup : ((h.activeTxs tokenType).map ElusivTransaction.commitmentHash).Nodup := by
    rw [hactive]
    exact (hs.nodup_hashes hsep tokenType).sublist ((upToSend_sublist _).map _)
  refine (fetchTxRemoteParams_spec hc hs.gapless hlen hs.tells hnodup answers).mono (fun _ hm => hm) ?_
    fun _ _ hm => hm
  rintro params m ⟨hcomms, hnonce, hm⟩
  refine ⟨⟨?_, ?_, hnonce⟩, hm⟩
  · rw [hcomms]
    exact hs.sumBalance_active hlen tokenType
  · rw [hcomms, List.length_map, (sendsLast_perm _).length_eq, hactive]

theorem buildTopUpTx_spec (manualMerge : Bool) (request : TopupRequest) (answers : Answers) :
    Triple (fun m => m = m₀)
      (buildTopUpTx circuits serialization seedWrapper accs owner h.fetcher h.enoughFuel manualMerge
        request answers)
      (fun built m => (built.2.Fresh h request.tokenType ∧ buildTopupOrMerge circuits serialization
        seedWrapper accs owner manualMerge request built.2 = .ok built.1) ∧ Coherent h m)
      (fun _ m => Coherent h m) := by
  have hfetch := fetchTxRemoteParams_fresh hs hsep hlen hc answers request.tokenType
  refine Triple.bind hfetch fun params => Triple.of_forall ?_
  rintro m ⟨hfresh, hm⟩
  refine Triple.lift_bind (fun built hbuilt => Triple.ret ?_) fun _ s hs => hs ▸ hm
  rintro s rfl
  exact ⟨⟨hfresh, hbuilt⟩, hm⟩

theorem buildFetchedSend_spec (request : SendRequest) (answers : Answers) :
    Triple (fun m => m = m₀)
      (buildFetchedSend circuits serialization seedWrapper h.fetcher h.enoughFuel request answers)
      (fun send m => (∃ params : FetchedParams, params.Fresh h request.tokenType ∧
        buildSend circuits serialization seedWrapper request params = .ok send) ∧ Coherent h m)
      (fun _ m => Coherent h m) := by
  have hfetch := fetchTxRemoteParams_fresh hs hsep hlen hc answers request.tokenType
  refine Triple.bind hfetch fun params => Triple.lift_any ?_ fun _ _ _ hs => hs.2
  intro send m hsend hm
  exact ⟨⟨params, hm.1, hsend⟩, hm.2⟩

end Specs

end Client

/-! ## What a run keeps -/

/-- The merge has made room for the topup, and left what the topup counts on. -/
structure MergedTopup.Ready (merged : MergedTopup) (h : History) : Prop where
  lastNonce_eq : merged.params.lastNonce + 2 = h.length
  balance_eq : sumBalance merged.params.activeCommitments - merged.mergeFee
    = h.balanceBelow merged.request.tokenType h.length
  room : (upToSend (h.tokenTxs merged.request.tokenType)).length < SEND_ARITY

namespace Client

/-- What every step of a client keeps.  A nonce of the chain was the newest when its transaction landed, so
what lies up to it is the chain of that moment. -/
structure Kept (scheme : CommitmentScheme) (s : Client) : Prop where
  chain : SequentialChain scheme s.chain
  coherent : Coherent s.chain s.manager
  parsed : ∀ n, ∀ tx ∈ s.chain.txsAt n, ∀ fields, tx.body = .store fields →
    fields.parsedPrivateBalance = s.chain.balanceBelow tx.tokenType (n + 1)
  rebuilt : ∀ send ∈ s.sends, send.2 ∈ s.chain.txsAt send.2.nonce ∧
    scheme.buildCommitmentForPartialSend send.2
      (s.chain.balanceBelow send.2.tokenType send.2.nonce) = send.1.commitment ∧
    scheme.getCommitmentHash send.1.commitment = send.2.commitmentHash
  logged : ∀ n, ∀ tx ∈ s.chain.txsAt n, tx.txType = .SEND → ∃ sendTx, (sendTx, tx) ∈ s.sends
  ready : ∀ merged, s.merged = some merged → merged.Ready s.chain

variable {scheme : CommitmentScheme} {s : Client}

lemma kept_start : Kept scheme start := by
  have hnone : ∀ n, start.chain.txsAt n = [] := fun n => rfl
  have hlength : start.chain.length = 0 := rfl
  refine ⟨⟨?_, ?_, ?_, ?_, ?_, ?_⟩, coherent_new _, ?_, ?_, ?_, ?_⟩
  · intro n hn
    omega
  · intro n
    exact Nat.zero_le 1
  · intro n tx htx
    exact absurd htx List.not_mem_nil
  · intro n tx htx
    exact absurd htx List.not_mem_nil
  · intro n tx htx
    exact absurd htx List.not_mem_nil
  · intro tokenType
    exact Nat.zero_le SEND_ARITY
  · intro n tx htx
    exact absurd htx List.not_mem_nil
  · intro send hsend
    exact absurd hsend List.not_mem_nil
  · intro n tx htx
    exact absurd htx List.not_mem_nil
  · intro merged hmerged
    nomatch hmerged

/-- Calls that read leave everything but the cache. -/
lemma Kept.withManager (hs : Kept scheme s) {m : TxManager} (hm : Coherent s.chain m) :
    Kept scheme { s with manager := m } :=
  { hs with coherent := hm }

lemma Kept.withoutMerged (hs : Kept scheme s) : Kept scheme { s with merged := none } :=
  { hs with ready := fun _ hmerged => nomatch hmerged }

/-- **One more transaction on the chain.** -/
theorem Kept.extend (hs : Kept scheme s) {tx : ElusivTransaction} (hnonce : tx.nonce = s.chain.length)
    (htells : scheme.Tells tx) (hdescribed : ∃ metadata, scheme.Describes metadata tx)
    (hbalance : tx.txType = .SEND → (scheme.commitmentOf tx).balance
      = tx.value + s.chain.balanceBelow tx.tokenType s.chain.length)
    (harity : tx.txType = .TOPUP → (upToSend (s.chain.tokenTxs tx.tokenType)).length < SEND_ARITY)
    (hparsed : ∀ fields, tx.body = .store fields → fields.parsedPrivateBalance
      = tx.value + s.chain.balanceBelow tx.tokenType s.chain.length)
    {chain : History} (hgrow : s.chain.grow (.land tx 0) = some chain)
    {sends : List (SendTx × ElusivTransaction)} (hsub : s.sends ⊆ sends)
    (hsends : ∀ send ∈ sends, send ∈ s.sends ∨ send.2 = tx ∧
      scheme.buildCommitmentForPartialSend tx (s.chain.balanceBelow tx.tokenType s.chain.length)
        = send.1.commitment ∧ scheme.getCommitmentHash send.1.commitment = tx.commitmentHash)
    (hlogged : tx.txType = .SEND → ∃ sendTx, (sendTx, tx) ∈ sends)
    {merged : Option MergedTopup} (hready : ∀ m, merged = some m → m.Ready chain) :
    Kept scheme ⟨chain, s.manager, merged, sends⟩ := by
  have hcoherent : Coherent chain s.manager :=
    hs.coherent.grow hgrow (hs.coherent.eq_nil_of_length_le (Nat.le_of_eq hnonce.symm))
  rw [History.grow] at hgrow
  split_ifs at hgrow with hstatus
  obtain rfl := Option.some.inj hgrow
  have hmem : ∀ {n : ℕ} {x : ElusivTransaction}, x ∈ (s.chain.land tx 0 hstatus).txsAt n →
      x = tx ∧ n = s.chain.length ∨ x ∈ s.chain.txsAt n ∧ n < s.chain.length :=
    History.mem_land_length hnonce
  refine ⟨hs.chain.land hnonce htells hdescribed hbalance harity 0 hstatus, hcoherent, ?_, ?_, ?_,
    hready⟩
  · intro n x hx fields hfields
    rcases hmem hx with ⟨rfl, rfl⟩ | ⟨hold, hn⟩
    · show _ = (s.chain.land x 0 hstatus).balanceBelow x.tokenType (s.chain.length + 1)
      rw [History.balanceBelow_land hnonce, if_pos rfl]
      exact hparsed fields hfields
    · show _ = (s.chain.land tx 0 hstatus).balanceBelow x.tokenType (n + 1)
      rw [History.balanceBelow_land_of_le hnonce hn]
      exact hs.parsed n x hold fields hfields
  · intro send hsend
    rcases hsends send hsend with hold | ⟨htx, hcomm, hhash⟩
    · obtain ⟨hin, hcomm, hhash⟩ := hs.rebuilt send hold
      have hlt : send.2.nonce < s.chain.length := by
        by_contra hge
        rw [s.chain.eq_nil_of_length_le _ (Nat.le_of_not_lt hge)] at hin
        exact List.not_mem_nil hin
      refine ⟨?_, ?_, hhash⟩
      · show send.2 ∈ (s.chain.land tx 0 hstatus).txsAt send.2.nonce
        rw [History.txsAt_land_of_lt hnonce hlt]
        exact hin
      · show scheme.buildCommitmentForPartialSend send.2
          ((s.chain.land tx 0 hstatus).balanceBelow send.2.tokenType send.2.nonce) = _
        rw [History.balanceBelow_land_of_le hnonce (Nat.le_of_lt hlt)]
        exact hcomm
    · rw [htx]
      refine ⟨?_, ?_, hhash⟩
      · show tx ∈ (s.chain.land tx 0 hstatus).txsAt tx.nonce
        rw [hnonce, History.txsAt_land_length hnonce]
        exact List.mem_singleton_self tx
      · show scheme.buildCommitmentForPartialSend tx
          ((s.chain.land tx 0 hstatus).balanceBelow tx.tokenType tx.nonce) = _
        rw [hnonce, History.balanceBelow_land_of_le hnonce (Nat.le_refl _)]
        exact hcomm
  · intro n x hx htype
    rcases hmem hx with ⟨rfl, -⟩ | ⟨hold, -⟩
    · exact hlogged htype
    · obtain ⟨sendTx, hin⟩ := hs.logged n x hold htype
      exact ⟨sendTx, hsub hin⟩

section Steps

variable {poseidon : Poseidon} {circuits : Circuits poseidon} {serialization : Serialization}
  {seedWrapper : SeedWrapper} {accs : ProgramAccounts} {owner : PublicKey}
  {hasCommitment : Bytes → ℕ → Bool}

/-- A topup lands. -/
theorem Kept.topup (hs : Kept (seedWrapper.commitmentScheme poseidon hasCommitment) s)
    {request : TopupRequest} {params : FetchedParams} {mergeFee : Option ℤ} {storeTx : StoreTx}
    (hbuild : buildTopup serialization seedWrapper accs poseidon request params mergeFee = .ok storeTx)
    (hnonce : (if mergeFee.isSome then params.lastNonce + 1 else params.lastNonce) + 1
      = (s.chain.length : ℤ))
    (hbalance : sumBalance params.activeCommitments - mergeFee.getD 0
      = s.chain.balanceBelow request.tokenType s.chain.length)
    (hroom : (upToSend (s.chain.tokenTxs request.tokenType)).length < SEND_ARITY)
    (hmerged : s.merged = none) {fee : ℤ} {signature : ConfirmedSignatureInfo} {s' : Client}
    (hland : s.land (storeTx.landed fee signature) = some s') :
    Kept (seedWrapper.commitmentScheme poseidon hasCommitment) s' := by
  obtain ⟨hbuilt, htells, hdescribed⟩ :=
    buildTopup_landed hasCommitment hbuild fee signature
  obtain ⟨chain, hgrow, rfl⟩ := Option.map_eq_some_iff.mp hland
  have htoken : (storeTx.landed fee signature).tokenType = request.tokenType := hbuilt.tokenType_eq
  have hnonce' : (storeTx.landed fee signature).nonce = s.chain.length := by
    have heq := hbuilt.nonce_eq
    rw [hnonce] at heq
    exact heq
  refine hs.extend hnonce' htells hdescribed nofun (fun _ => ?_) (fun fields hfields => ?_) hgrow
    (List.Subset.refl _) (fun send hsend => Or.inl hsend) nofun fun m hm => ?_
  · rw [htoken]
    exact hroom
  · obtain rfl := TxBody.store.inj hfields
    show storeTx.parsedPrivateBalance = storeTx.amount + s.chain.balanceBelow storeTx.tokenType _
    rw [hbuilt.parsedPrivateBalance_eq, hbuilt.tokenType_eq, ← hbalance]
    ring
  · rw [hmerged] at hm
    nomatch hm

/-- What a built send is once it has landed. -/
lemma Kept.send_landed (hs : Kept (seedWrapper.commitmentScheme poseidon hasCommitment) s)
    {request : SendRequest} {params : FetchedParams}
    (hfresh : params.Fresh s.chain request.tokenType) {send : SendTx × Fee}
    (hsend : buildSend circuits serialization seedWrapper request params = .ok send)
    {data : FinalizeData} {tx : ElusivTransaction}
    (hlanded : landedSend serialization seedWrapper send data = .ok tx)
    {chain : History} (hgrow : s.chain.grow (.land tx 0) = some chain)
    {merged : Option MergedTopup} (hready : ∀ m, merged = some m → m.Ready chain) :
    Kept (seedWrapper.commitmentScheme poseidon hasCommitment)
      ⟨chain, s.manager, merged, (send.1, tx) :: s.sends⟩ := by
  obtain ⟨hbuilt, hlandedAs, -, hcomm, htells, hdescribed⟩ :=
    landedSend_eq_ok hasCommitment hsend hlanded
  have hnonce : tx.nonce = s.chain.length := by
    rw [hlandedAs.nonce_eq, hbuilt.nonce_eq, hfresh.lastNonce_eq]
    omega
  have htoken : tx.tokenType = request.tokenType := hlandedAs.tokenType_eq.trans hbuilt.tokenType_eq
  -- the commitment that is rebuilt is the one that was built
  have hrebuilt : (seedWrapper.commitmentScheme poseidon hasCommitment).buildCommitmentForPartialSend tx
      (s.chain.balanceBelow tx.tokenType s.chain.length) = send.1.commitment := by
    rw [hbuilt.commitment_eq, hfresh.sumBalance_eq, ← htoken, CommitmentScheme.buildCommitmentForPartialSend,
      hlandedAs.amount_eq, hlandedAs.fee_eq, hlandedAs.merkleStartIndex_eq, ← hlandedAs.nonce_eq,
      ← hlandedAs.tokenType_eq]
    rfl
  refine hs.extend hnonce htells hdescribed (fun _ => ?_) (fun htype => ?_) (fun fields hfields => ?_)
    hgrow (List.subset_cons_self _ _) (fun send' hmem => ?_)
    (fun _ => ⟨send.1, List.mem_cons_self⟩) hready
  · rw [hcomm, ← hrebuilt, ElusivTransaction.value, hlandedAs.txType_eq]
    show _ - tx.amount - tx.fee = -(tx.amount + tx.fee) + _
    ring
  · rw [hlandedAs.txType_eq] at htype
    cases htype
  · have htype := hlandedAs.txType_eq
    rw [ElusivTransaction.txType, hfields] at htype
    cases htype
  · rcases List.mem_cons.mp hmem with rfl | hold
    · right
      refine ⟨rfl, hrebuilt, ?_⟩
      rw [hlandedAs.commitmentHash_eq]
      exact hbuilt.commitmentHash_eq.symm
    · exact Or.inl hold

/-- A merge leaves room, and the balance that the topup counts on. -/
lemma Kept.merge_ready (hs : Kept (seedWrapper.commitmentScheme poseidon hasCommitment) s)
    {request : TopupRequest} {params : FetchedParams}
    (hfresh : params.Fresh s.chain request.tokenType) {send : SendTx × Fee}
    (hsend : buildSend circuits serialization seedWrapper
      (mergeRequest accs request.tokenType owner request.warden none) params = .ok send)
    {data : FinalizeData} {tx : ElusivTransaction}
    (hlanded : landedSend serialization seedWrapper send data = .ok tx)
    {chain : History} (hgrow : s.chain.grow (.land tx 0) = some chain) :
    (MergedTopup.mk request params (getTotalFeeAmount send.2)).Ready chain := by
  obtain ⟨hbuilt, hlandedAs, -, hcomm, htells, hdescribed⟩ :=
    landedSend_eq_ok hasCommitment hsend hlanded
  obtain ⟨hamount, hfee⟩ := merge_spec hsend
  have hkept : Kept (seedWrapper.commitmentScheme poseidon hasCommitment)
      ⟨chain, s.manager, none, (send.1, tx) :: s.sends⟩ :=
    hs.send_landed hfresh hsend hlanded hgrow fun _ hmerged => nomatch hmerged
  have hnonce : tx.nonce = s.chain.length := by
    rw [hlandedAs.nonce_eq, hbuilt.nonce_eq, hfresh.lastNonce_eq]
    omega
  have htoken : tx.tokenType = request.tokenType := hlandedAs.tokenType_eq.trans hbuilt.tokenType_eq
  rw [History.grow] at hgrow
  split_ifs at hgrow with hstatus
  obtain rfl := Option.some.inj hgrow
  have hlength : (s.chain.land tx 0 hstatus).length = s.chain.length + 1 :=
    History.length_land hnonce
  refine ⟨?_, ?_, ?_⟩
  · show params.lastNonce + 2 = ((s.chain.land tx 0 hstatus).length : ℤ)
    rw [hlength, hfresh.lastNonce_eq]
    omega
  · show sumBalance params.activeCommitments - getTotalFeeAmount send.2
      = (s.chain.land tx 0 hstatus).balanceBelow request.tokenType (s.chain.land tx 0 hstatus).length
    rw [hlength, History.balanceBelow_land hnonce, if_pos htoken, hfresh.sumBalance_eq,
      ElusivTransaction.value, hlandedAs.txType_eq, hfee]
    show _ = -(tx.amount + tx.fee) + _
    rw [hlandedAs.amount_eq, hlandedAs.fee_eq, hamount]
    ring
  · show (upToSend ((s.chain.land tx 0 hstatus).tokenTxs request.tokenType)).length < SEND_ARITY
    rw [History.tokenTxs_land hs.chain.distinctHashes hkept.chain.distinctHashes hnonce, if_pos htoken,
      upToSend, hlandedAs.txType_eq]
    exact show 1 < SEND_ARITY by decide

/-! ### One step -/

lemma landSend_cases {send : SendTx × Fee} {data : FinalizeData} {merged : Option MergedTopup}
    {s' : Client} (h : s.landSend serialization seedWrapper send data merged = some s') :
    s' = s ∨ ∃ tx chain, landedSend serialization seedWrapper send data = .ok tx ∧
      s.chain.grow (.land tx 0) = some chain ∧
      s' = ⟨chain, s.manager, merged, (send.1, tx) :: s.sends⟩ := by
  rw [landSend] at h
  cases hlanded : landedSend serialization seedWrapper send data with
  | error e =>
      rw [hlanded] at h
      exact Or.inl (Option.some.inj h).symm
  | ok tx =>
      rw [hlanded] at h
      obtain ⟨s₁, hland, rfl⟩ := Option.map_eq_some_iff.mp h
      obtain ⟨chain, hgrow, rfl⟩ := Option.map_eq_some_iff.mp hland
      exact Or.inr ⟨tx, chain, rfl, hgrow, rfl⟩

/-- A step leaves the chain, or one transaction lands. -/
lemma step_chain {e : ClientEvent} {s' : Client}
    (h : step circuits serialization seedWrapper accs owner s e = some s') :
    s'.chain = s.chain ∨ ∃ tx, s.chain.grow (.land tx 0) = some s'.chain := by
  have hland : ∀ {s₁ : Client} {tx : ElusivTransaction}, s₁.land tx = some s' → s₁.chain = s.chain →
      ∃ tx, s.chain.grow (.land tx 0) = some s'.chain := by
    intro s₁ tx hland hchain
    obtain ⟨chain, hgrow, rfl⟩ := Option.map_eq_some_iff.mp hland
    exact ⟨tx, hchain ▸ hgrow⟩
  have hsend : ∀ {m : TxManager} {send : SendTx × Fee} {data : FinalizeData}
      {merged : Option MergedTopup},
      landSend serialization seedWrapper { s with manager := m } send data merged = some s' →
      s'.chain = s.chain ∨ ∃ tx, s.chain.grow (.land tx 0) = some s'.chain := by
    intro m send data merged hsend
    rcases landSend_cases hsend with rfl | ⟨tx, chain, -, hgrow, rfl⟩
    · exact Or.inl rfl
    · exact Or.inr ⟨tx, hgrow⟩
  cases e with
  | query q => exact Or.inl (Option.some.inj h ▸ rfl)
  | giveUp => exact Or.inl (Option.some.inj h ▸ rfl)
  | topup manualMerge request answers fee signature data =>
      rw [step] at h
      split_ifs at h
      split at h
      · exact Or.inl (Option.some.inj h ▸ rfl)
      · exact Or.inr (hland h rfl)
      · exact hsend h
  | topupMerged fee signature =>
      rw [step] at h
      split at h
      · nomatch h
      · split at h
        · exact Or.inl (Option.some.inj h ▸ rfl)
        · exact Or.inr (hland h rfl)
  | send request answers data =>
      rw [step] at h
      split_ifs at h
      split at h
      · exact Or.inl (Option.some.inj h ▸ rfl)
      · exact hsend h

lemma length_le_step {e : ClientEvent} {s' : Client}
    (h : step circuits serialization seedWrapper accs owner s e = some s') :
    s.chain.length ≤ s'.chain.length := by
  rcases step_chain h with hchain | ⟨tx, hgrow⟩
  · exact Nat.le_of_eq (congrArg _ hchain.symm)
  · rw [(History.grow_spec hgrow).1]
    exact Nat.le_max_left _ _

/-- What a call of `buildTopUpTx` does to a client: it throws or the JSON of its merge cannot be written, or
there is room and its topup lands, or all places are taken and its merge lands. -/
lemma Kept.topup_cases (hs : Kept (seedWrapper.commitmentScheme poseidon hasCommitment) s)
    (hsep : (seedWrapper.commitmentScheme poseidon hasCommitment).Separates)
    (hlen : s.chain.length ≤ MAX_UINT32) {manualMerge : Bool} {request : TopupRequest} {answers : Answers}
    {fee : ℤ} {signature : ConfirmedSignatureInfo} {data : FinalizeData} {s' : Client}
    (h : step circuits serialization seedWrapper accs owner s
      (.topup manualMerge request answers fee signature data) = some s') :
    s.merged = none ∧ ∃ m, Coherent s.chain m ∧ (s' = { s with manager := m } ∨
      ∃ params : FetchedParams, params.Fresh s.chain request.tokenType ∧
        ((∃ storeTx, params.activeCommitments.length < SEND_ARITY ∧
            buildTopup serialization seedWrapper accs poseidon request params none = .ok storeTx ∧
            land { s with manager := m } (storeTx.landed fee signature) = some s') ∨
          ∃ send tx chain, params.activeCommitments.length = SEND_ARITY ∧
            buildSend circuits serialization seedWrapper
              (mergeRequest accs request.tokenType owner request.warden none) params = .ok send ∧
            landedSend serialization seedWrapper send data = .ok tx ∧
            s.chain.grow (.land tx 0) = some chain ∧
            s' = ⟨chain, m, some ⟨request, params, getTotalFeeAmount send.2⟩, (send.1, tx) :: s.sends⟩)) := by
  have hspec := buildTopUpTx_spec circuits serialization accs owner hs.chain hsep hlen hs.coherent
    manualMerge request answers
  rw [Client.step] at h
  split_ifs at h with hmerged
  refine ⟨Option.not_isSome_iff_eq_none.mp hmerged, ?_⟩
  split at h
  · rename_i e m hexec
    exact ⟨m, hspec.of_error rfl hexec, .inl (Option.some.inj h).symm⟩
  · rename_i storeTx params m hexec
    obtain ⟨⟨hfresh, hbuilt⟩, hm⟩ := hspec.of_ok rfl hexec
    obtain ⟨hroom, hbuild⟩ := buildTopupOrMerge_topup hbuilt
    exact ⟨m, hm, .inr ⟨params, hfresh, .inl ⟨storeTx, hroom, hbuild, h⟩⟩⟩
  · rename_i send params m hexec
    obtain ⟨⟨hfresh, hbuilt⟩, hm⟩ := hspec.of_ok rfl hexec
    refine ⟨m, hm, ?_⟩
    rcases landSend_cases h with rfl | ⟨tx, chain, hlanded, hgrow, rfl⟩
    · exact .inl rfl
    · exact .inr ⟨params, hfresh, .inr ⟨send, tx, chain, length_of_buildTopupOrMerge_merge hbuilt,
        buildTopupOrMerge_merge hbuilt, hlanded, hgrow, rfl⟩⟩

/-- What the rest of a call does after its merge. -/
lemma topupMerged_cases {fee : ℤ} {signature : ConfirmedSignatureInfo} {s' : Client}
    (h : step circuits serialization seedWrapper accs owner s (.topupMerged fee signature) = some s') :
    ∃ merged, s.merged = some merged ∧ (s' = { s with merged := none } ∨
      ∃ storeTx, buildTopup serialization seedWrapper accs poseidon merged.request merged.params
          (some merged.mergeFee) = .ok storeTx ∧
        land { s with merged := none } (storeTx.landed fee signature) = some s') := by
  rw [Client.step] at h
  split at h
  · nomatch h
  · rename_i merged hmerged
    refine ⟨merged, hmerged, ?_⟩
    split at h
    · exact .inl (Option.some.inj h).symm
    · rename_i storeTx hbuild
      exact .inr ⟨storeTx, hbuild, h⟩

/-- **Every step keeps it.** -/
theorem Kept.step (hs : Kept (seedWrapper.commitmentScheme poseidon hasCommitment) s)
    (hsep : (seedWrapper.commitmentScheme poseidon hasCommitment).Separates)
    (hlen : s.chain.length ≤ MAX_UINT32) {e : ClientEvent} {s' : Client}
    (h : step circuits serialization seedWrapper accs owner s e = some s') :
    Kept (seedWrapper.commitmentScheme poseidon hasCommitment) s' := by
  cases e with
  | query q =>
      obtain rfl := Option.some.inj h
      exact hs.withManager ((q.alone_spec hs.coherent (hs.chain.gapless.gapsBelow (by decide))
        (Nat.le_refl _)).store (fun _ _ hm => hm.2) (fun _ _ hm => hm.elim) rfl)
  | giveUp =>
      obtain rfl := Option.some.inj h
      exact hs.withoutMerged
  | topup manualMerge request answers fee signature data =>
      obtain ⟨hmerged, m, hm, rfl | ⟨params, hfresh, ⟨storeTx, hroom, hbuild, hland⟩ |
        ⟨send, tx, chain, -, hsend, hlanded, hgrow, rfl⟩⟩⟩ := hs.topup_cases hsep hlen h
      · exact hs.withManager hm
      · refine (hs.withManager hm).topup hbuild ?_ ?_ ?_ hmerged hland
        · show params.lastNonce + 1 = _
          rw [hfresh.lastNonce_eq]
          exact sub_add_cancel _ _
        · show _ - 0 = _
          rw [sub_zero, hfresh.sumBalance_eq]
        · exact hfresh.length_eq ▸ hroom
      · have hs' := hs.withManager hm
        refine hs'.send_landed hfresh hsend hlanded hgrow fun merged hmerged => ?_
        obtain rfl := Option.some.inj hmerged
        exact hs'.merge_ready hfresh hsend hlanded hgrow
  | topupMerged fee signature =>
      obtain ⟨merged, hmerged, rfl | ⟨storeTx, hbuild, hland⟩⟩ := topupMerged_cases h
      · exact hs.withoutMerged
      · have hready := hs.ready merged hmerged
        refine hs.withoutMerged.topup hbuild ?_ hready.balance_eq hready.room rfl hland
        show merged.params.lastNonce + 1 + 1 = _
        rw [add_assoc]
        exact hready.lastNonce_eq
  | send request answers data =>
      have hspec := buildFetchedSend_spec circuits serialization hs.chain hsep hlen hs.coherent request
        answers
      rw [Client.step] at h
      split_ifs at h with hmerged
      split at h
      · rename_i e m hexec
        obtain rfl := Option.some.inj h
        exact hs.withManager (hspec.of_error rfl hexec)
      · rename_i send m hexec
        obtain ⟨⟨params, hfresh, hsend⟩, hm⟩ := hspec.of_ok rfl hexec
        have hs' := hs.withManager hm
        rcases landSend_cases h with rfl | ⟨tx, chain, hlanded, hgrow, rfl⟩
        · exact hs'
        · exact hs'.send_landed hfresh hsend hlanded hgrow fun _ hmerged => nomatch hmerged

/-- **What a client keeps holds after every run.**  The chain only grows, so it was short enough at every
step. -/
theorem kept_of_run
    (hsep : (seedWrapper.commitmentScheme poseidon hasCommitment).Separates) {events : List ClientEvent}
    (hrun : run (step circuits serialization seedWrapper accs owner) start events = some s)
    (hlen : s.chain.length ≤ MAX_UINT32) :
    Kept (seedWrapper.commitmentScheme poseidon hasCommitment) s := by
  revert hlen
  refine run_invariant (I := fun s => s.chain.length ≤ MAX_UINT32 → Kept _ s) ?_
    (fun _ => kept_start) (allowed_true start events) hrun
  intro s e s' hs _ hstep hlen'
  have hlen := Nat.le_trans (length_le_step hstep) hlen'
  exact (hs hlen).step hsep hlen hstep

end Steps

end Client

end ElusivSdk
