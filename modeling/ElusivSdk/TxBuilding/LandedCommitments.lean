import ElusivSdk.TxBuilding.SequentialChain
import ElusivSdk.TxBuilding.TransactionBuilding

/-!
# From a build to the chain and back

A transaction is built from what was fetched, it lands, and the next build fetches it.

* `SeedWrapper.commitmentScheme` — the commitments of the wallet.
* `fetchTxRemoteParams` — the parameters of a topup or a send, as far as they come from the wallet's own
  transactions.
* `buildTopup`, `landedSend` — a topup with its instructions, and a send as it lands.
* **`buildTopup_landed`**, **`landedSend_eq_ok`** — on chain both tell the commitment they were built with.
-/

namespace ElusivSdk

open Descending InstructionBuilding Program TransactionBuilding

/-- The commitments of the wallet, and the tree as it is at some moment. -/
def SeedWrapper.commitmentScheme (seedWrapper : SeedWrapper) (poseidon : Poseidon)
    (hasCommitment : Bytes → ℕ → Bool) : CommitmentScheme :=
  { generateNullifier := seedWrapper.generateNullifier
    getCommitmentHash := poseidon.getCommitmentHash
    hasCommitment := hasCommitment }

/-- What the transactions tell does not depend on the tree. -/
lemma CommitmentScheme.Tells.of_tree {seedWrapper : SeedWrapper} {poseidon : Poseidon}
    {hasCommitment hasCommitment' : Bytes → ℕ → Bool} {tx : ElusivTransaction}
    (h : (seedWrapper.commitmentScheme poseidon hasCommitment).Tells tx) :
    (seedWrapper.commitmentScheme poseidon hasCommitment').Tells tx :=
  ⟨h.metadata, h.hash_eq⟩

/-- No loop of a call takes more rounds. -/
def History.enoughFuel (h : History) : ℕ := h.length + DEFAULT_FETCH_BATCH_SIZE + 3

/-- What others answer during a fetch: fees, price, rent and start index, and what is in the tree.  The
commitments and the nonce in `params` are not looked at. -/
structure Answers where
  params : FetchedParams
  hasCommitment : Bytes → ℕ → Bool

/-- The topup that a merge was made for, and what it is built from. -/
structure MergedTopup where
  request : TopupRequest
  params : FetchedParams
  mergeFee : ℤ

/-- What the first part of `buildTopUpTx` makes. -/
inductive BuiltTopup
  | topup (storeTx : StoreTx)
  | merge (send : SendTx × Fee)

section Building

variable {poseidon : Poseidon} (circuits : Circuits poseidon) (serialization : Serialization)
  (seedWrapper : SeedWrapper) (accs : ProgramAccounts)

/-- `fetchTopupRemoteParams`, and `fetchSendRemoteParams`. -/
def fetchTxRemoteParams (poseidon : Poseidon)
    (getTxsFromNonces : List (ℕ × Bool) → Except Failure (List ElusivTransaction)) (fuel : ℕ)
    (answers : Answers) (tokenType : TokenType) : ManagerM FetchedParams := do
  let scheme := seedWrapper.commitmentScheme poseidon answers.hasCommitment
  let activeCommitments ← scheme.getActiveCommitments getTxsFromNonces fuel tokenType none
  let lastNonce ← scheme.getMostRecentNonce getTxsFromNonces fuel
  pure { answers.params with activeCommitments := activeCommitments, lastNonce := lastNonce }

/-- `buildTopUpTxData`, with the topup that it makes. -/
def buildTopup (poseidon : Poseidon) (request : TopupRequest) (params : FetchedParams)
    (mergeFee : Option ℤ) : Except Failure StoreTx := do
  let store ← topupStore serialization seedWrapper poseidon request params mergeFee
  let _ ← topupTxData seedWrapper accs poseidon store params mergeFee
  pure store.1

/-- `buildTopUpTx` after the fetch, up to the topup or to the merge. -/
def buildTopupOrMerge (owner : PublicKey) (manualMerge : Bool) (request : TopupRequest)
    (params : FetchedParams) : Except Failure BuiltTopup := do
  if ← needMerge params.activeCommitments then
    if manualMerge then .error MERGE_NEEDED
    else do
      let merge ← buildSend circuits serialization seedWrapper
        (mergeRequest accs request.tokenType owner request.warden none) params
      pure (.merge merge)
  else do
    let storeTx ← buildTopup serialization seedWrapper accs poseidon request params none
    pure (.topup storeTx)

/-- A send as the owner reads it from the chain, after the warden got its JSON. -/
def landedSend (send : SendTx × Fee) (data : FinalizeData) : Except Failure ElusivTransaction := do
  let json ← serialization.serializeJoinSplit send.1.proof.publicInputs send.2
  send.1.landed json seedWrapper.getRootViewingKeyWrapper data

variable {circuits serialization seedWrapper accs}

/-- Without a merge there is room for the topup. -/
lemma buildTopupOrMerge_topup {owner : PublicKey} {manualMerge : Bool} {request : TopupRequest}
    {params : FetchedParams} {storeTx : StoreTx}
    (h : buildTopupOrMerge circuits serialization seedWrapper accs owner manualMerge request params
      = .ok (.topup storeTx)) :
    params.activeCommitments.length < SEND_ARITY ∧
      buildTopup serialization seedWrapper accs poseidon request params none = .ok storeTx := by
  obtain ⟨needed, hneeded, h⟩ := bind_eq_ok.mp h
  cases needed with
  | true =>
      cases manualMerge with
      | true => nomatch h
      | false =>
          obtain ⟨merge, -, h⟩ := bind_eq_ok.mp h
          nomatch Except.ok.inj h
  | false =>
      obtain ⟨storeTx', hstore, h⟩ := bind_eq_ok.mp h
      obtain rfl := BuiltTopup.topup.inj (Except.ok.inj h)
      refine ⟨?_, hstore⟩
      rw [needMerge] at hneeded
      split_ifs at hneeded with hlarge
      have hne := beq_eq_false_iff_ne.mp (Except.ok.inj hneeded)
      omega

/-- There is a merge when all places are taken. -/
lemma length_of_buildTopupOrMerge_merge {owner : PublicKey} {manualMerge : Bool} {request : TopupRequest}
    {params : FetchedParams} {send : SendTx × Fee}
    (h : buildTopupOrMerge circuits serialization seedWrapper accs owner manualMerge request params
      = .ok (.merge send)) : params.activeCommitments.length = SEND_ARITY := by
  obtain ⟨needed, hneeded, h⟩ := bind_eq_ok.mp h
  cases needed with
  | true =>
      rw [needMerge] at hneeded
      split_ifs at hneeded
      exact beq_iff_eq.mp (Except.ok.inj hneeded)
  | false =>
      obtain ⟨storeTx', -, h⟩ := bind_eq_ok.mp h
      nomatch Except.ok.inj h

lemma buildTopupOrMerge_merge {owner : PublicKey} {manualMerge : Bool} {request : TopupRequest}
    {params : FetchedParams} {send : SendTx × Fee}
    (h : buildTopupOrMerge circuits serialization seedWrapper accs owner manualMerge request params
      = .ok (.merge send)) :
    buildSend circuits serialization seedWrapper
      (mergeRequest accs request.tokenType owner request.warden none) params = .ok send := by
  obtain ⟨needed, -, h⟩ := bind_eq_ok.mp h
  cases needed with
  | true =>
      cases manualMerge with
      | true => nomatch h
      | false =>
          obtain ⟨merge, hmerge, h⟩ := bind_eq_ok.mp h
          obtain rfl := BuiltTopup.merge.inj (Except.ok.inj h)
          exact hmerge
  | false =>
      obtain ⟨storeTx', -, h⟩ := bind_eq_ok.mp h
      nomatch Except.ok.inj h

variable (hasCommitment : Bytes → ℕ → Bool)

/-- **A topup on chain tells the commitment it was built with.** -/
theorem buildTopup_landed {request : TopupRequest} {params : FetchedParams} {mergeFee : Option ℤ}
    {storeTx : StoreTx}
    (h : buildTopup serialization seedWrapper accs poseidon request params mergeFee = .ok storeTx)
    (fee : ℤ) (signature : ConfirmedSignatureInfo) :
    storeTx.BuiltFrom poseidon seedWrapper request params mergeFee ∧
      (seedWrapper.commitmentScheme poseidon hasCommitment).Tells (storeTx.landed fee signature) ∧
      ∃ metadata, (seedWrapper.commitmentScheme poseidon hasCommitment).Describes metadata
        (storeTx.landed fee signature) := by
  obtain ⟨store, hstore, h⟩ := bind_eq_ok.mp h
  obtain ⟨txData, hdata, h⟩ := bind_eq_ok.mp h
  obtain rfl := Except.ok.inj h
  have hbuilt := topupStore_spec hstore
  have hcomm : (seedWrapper.commitmentScheme poseidon hasCommitment).commitmentOf
      (store.1.landed fee signature) = store.1.commitment := hbuilt.commitment_eq.symm
  obtain ⟨ixs, hixs, -⟩ := bind_eq_ok.mp hdata
  obtain ⟨variableIxs, hvariable, -⟩ := bind_eq_ok.mp hixs
  obtain ⟨metadata, hmetadata, -⟩ := bind_eq_ok.mp hvariable
  obtain ⟨hnonce, htoken, hindex, hbalance⟩ := CommitmentMetadata.of_fromCommitment hmetadata
  refine ⟨hbuilt, ⟨nofun, ?_⟩, metadata, hnonce, ?_⟩
  · rw [hcomm]
    exact hbuilt.commitmentHash_eq.symm
  · rw [hcomm, CommitmentScheme.commFromMetadata, hnonce, htoken, hindex, hbalance,
      hbuilt.commitment_eq]
    rfl

/-- **A send on chain tells the commitment it was built with**, and keeps amount and nonce. -/
theorem landedSend_eq_ok {request : SendRequest} {params : FetchedParams} {send : SendTx × Fee}
    (hsend : buildSend circuits serialization seedWrapper request params = .ok send)
    {data : FinalizeData} {tx : ElusivTransaction}
    (h : landedSend serialization seedWrapper send data = .ok tx) :
    send.1.BuiltFrom send.2 poseidon seedWrapper request params ∧ send.1.LandedAs send.2 tx ∧
      tx.signature = some data.signature ∧
      (seedWrapper.commitmentScheme poseidon hasCommitment).commitmentOf tx = send.1.commitment ∧
      (seedWrapper.commitmentScheme poseidon hasCommitment).Tells tx ∧
      ∃ metadata, (seedWrapper.commitmentScheme poseidon hasCommitment).Describes metadata tx := by
  obtain ⟨json, hjson, h⟩ := bind_eq_ok.mp h
  have hbuilt := buildSend_spec hsend
  obtain ⟨tx', htx', hsignature, hlanded⟩ := hbuilt.landed hjson data
  obtain rfl := Except.ok.inj (htx'.symm.trans h)
  obtain ⟨metadata, hmetadata, hnonce, htoken, hindex, hbalance⟩ := hlanded.metadata
  have hcomm : (seedWrapper.commitmentScheme poseidon hasCommitment).commitmentOf tx'
      = send.1.commitment := by
    rw [CommitmentScheme.commitmentOf, hmetadata]
    show (seedWrapper.commitmentScheme poseidon hasCommitment).commFromMetadata metadata = _
    rw [CommitmentScheme.commFromMetadata, hnonce, htoken, hindex, hbalance, hbuilt.commitment_eq]
    rfl
  refine ⟨hbuilt, hlanded, hsignature, hcomm, ⟨fun _ => ?_, ?_⟩, metadata, ?_, ?_⟩
  · rw [hmetadata]
    rfl
  · rw [hcomm, hlanded.commitmentHash_eq]
    exact hbuilt.commitmentHash_eq.symm
  · rw [hnonce, hlanded.nonce_eq]
  · rw [CommitmentScheme.commitmentOf, hmetadata]

end Building

section Fetching

attribute [local irreducible] Triple

variable {poseidon : Poseidon} {seedWrapper : SeedWrapper} {hasCommitment : Bytes → ℕ → Bool}
  {h : History} {m₀ : TxManager}

/-- **A fetch returns the commitments of the active transactions and the newest nonce**, or it throws. -/
theorem fetchTxRemoteParams_spec (hc : Coherent h m₀) (hg : h.Gapless) (hlen : h.length ≤ MAX_UINT32)
    (htells : ∀ n, ∀ tx ∈ h.txsAt n, (seedWrapper.commitmentScheme poseidon hasCommitment).Tells tx)
    {tokenType : TokenType}
    (hnodup : ((h.activeTxs tokenType).map ElusivTransaction.commitmentHash).Nodup)
    (answers : Answers) :
    Triple (fun m => m = m₀)
      (fetchTxRemoteParams seedWrapper poseidon h.fetcher h.enoughFuel answers tokenType)
      (fun params m => params.activeCommitments = (sendsLast (h.activeTxs tokenType)).map
        (seedWrapper.commitmentScheme poseidon hasCommitment).commitmentOf ∧
        params.lastNonce = (h.length : ℤ) - 1 ∧ Coherent h m) (fun _ m => Coherent h m) := by
  have htells' : ∀ n, ∀ tx ∈ h.txsAt n,
      (seedWrapper.commitmentScheme poseidon answers.hasCommitment).Tells tx :=
    fun n tx htx => (htells n tx htx).of_tree
  have hactive : ∀ tx ∈ h.activeTxs tokenType,
      (seedWrapper.commitmentScheme poseidon answers.hasCommitment).Tells tx :=
    fun tx htx => htells' _ tx (hg.mem_activeTxs hlen htx).1
  have hfuel : h.length + DEFAULT_FETCH_BATCH_SIZE + 3 ≤ h.enoughFuel := Nat.le_refl _
  have hcomms := CommitmentScheme.getActiveCommitments_spec hc hg hfuel hactive hnodup
  refine Triple.bind hcomms fun comms => Triple.of_forall ?_
  rintro m ⟨hcomms, hm⟩
  have hnonce := CommitmentScheme.getMostRecentNonce_spec hm hg hfuel htells'
  refine Triple.bind hnonce fun nonce => Triple.ret ?_
  rintro m' ⟨hnonce, hm'⟩
  exact ⟨hcomms, hnonce, hm'⟩

end Fetching

end ElusivSdk
