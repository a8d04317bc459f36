import ElusivSdk.TxBuilding.SequentialRuns

/-!
# Conservation of value

Four places add or subtract fees: the build of a send, the JSON of the warden, the parser, and the rebuild
of a commitment.  In every state of every run of a client they agree.

* `Conserved` — the commitments of the active transactions, the private balance and the sums of topups and
  sends agree; topups tell the balance after them, and sends are rebuilt as they were built.
* `Client.Kept.conserved` — what a client keeps is enough for it.
* **`Client.conserves`** — it holds after every run.
-/

namespace ElusivSdk

open Format Program Transition

/-- No value is lost or made: what the calls of a wallet return on a chain, whatever part of it their
manager has cached. -/
structure Conserved (scheme : CommitmentScheme) (s : Client) : Prop where
  coherent : Coherent s.chain s.manager
  /-- The commitments of the active transactions hold what was topped up and not sent. -/
  balance : ∀ m, Coherent s.chain m → ∀ fuel, s.chain.enoughFuel ≤ fuel → ∀ tokenType,
    ∃ txs comms m₁ m₂,
      exec (getActiveTxs s.chain.fetcher fuel tokenType none) m = (.ok txs, m₁) ∧
      exec (scheme.getIncompleteCommitmentsForTxs s.chain.fetcher fuel txs) m₁ = (.ok comms, m₂) ∧
      (exec (getPrivateBalance s.chain.fetcher fuel tokenType none) m₂).1 = .ok (sumBalance comms.1) ∧
      sumBalance comms.1
        = s.chain.topupSum tokenType s.chain.length - s.chain.sendSum tokenType s.chain.length ∧
      0 ≤ sumBalance comms.1
  /-- Nonces are used in turn: the chain up to a nonce is the chain right after its transaction landed. -/
  parsed : ∀ n, ∀ tx ∈ s.chain.txsAt n, ∀ fields, tx.body = .store fields →
    fields.parsedPrivateBalance
      = s.chain.topupSum tx.tokenType (n + 1) - s.chain.sendSum tx.tokenType (n + 1)
  single : ∀ n, (s.chain.txsAt n).length ≤ 1
  /-- The slow path rebuilds the commitment that a send was built with. -/
  rebuilt : ∀ send ∈ s.sends, ∀ m, Coherent s.chain m → ∀ fuel, s.chain.enoughFuel ≤ fuel →
    (exec (scheme.getCommitmentForPartialSendSlow s.chain.fetcher fuel send.2) m).1
      = .ok send.1.commitment
  logged : ∀ n, ∀ tx ∈ s.chain.txsAt n, tx.txType = .SEND → ∃ sendTx, (sendTx, tx) ∈ s.sends

namespace Client

variable {scheme : CommitmentScheme} {s : Client}

/-- The calls read what the client keeps. -/
theorem Kept.conserved (hs : Kept scheme s) (hsep : scheme.Separates)
    (hlen : s.chain.length ≤ MAX_UINT32) : Conserved scheme s := by
  have hg := hs.chain.gapless
  have hd := hs.chain.distinctHashes
  have hbatch : 0 < DEFAULT_FETCH_BATCH_SIZE := by decide
  have hgaps : s.chain.GapsBelow DEFAULT_FETCH_BATCH_SIZE := hg.gapsBelow hbatch
  refine ⟨hs.coherent, ?_, ?_, hs.chain.single, ?_, hs.logged⟩
  · intro m hm fuel hfuel tokenType
    obtain ⟨txs, m₁, htxs, rfl, hm₁⟩ := (getActiveTxs_spec hm hgaps hfuel tokenType none).run rfl
    have hm₁ := FetchedAndAllMarked.coherent hm₁
    have hactive := hs.chain.activeTxs_eq hlen tokenType
    have htells : ∀ tx ∈ s.chain.activeTxs tokenType, scheme.Tells tx := by
      intro tx htx
      rw [hactive] at htx
      exact hs.chain.tells _ tx (History.mem_tokenTxs hd ((upToSend_sublist _).subset htx)).1
    have hnodup : ((s.chain.activeTxs tokenType).map ElusivTransaction.commitmentHash).Nodup := by
      rw [hactive]
      exact (hs.chain.nodup_hashes hsep tokenType).sublist ((upToSend_sublist _).map _)
    obtain ⟨balance, m₂, hbalance, rfl, -⟩ :=
      (getPrivateBalanceFromMetadata_spec tokenType hg hlen hd
        (History.oneSendPerNonce_of_single hs.chain.single) hs.chain.metadataBalances hm₁ hbatch hfuel
        none).run rfl
    have hsum := hs.chain.sumBalance_active hlen tokenType
    have htop : s.chain.top none = s.chain.length := Nat.min_self _
    refine ⟨_, _, m₁, m₁, htxs, CommitmentScheme.exec_getIncompleteCommitmentsForTxs htells hnodup m₁,
      ?_, ?_, ?_⟩
    · rw [hsum, getPrivateBalance, hbalance, htop]
    · rw [hsum, s.chain.balanceBelow_eq_sub]
    · rw [hsum]
      exact hs.chain.balanceBelow_nonneg tokenType _
  · intro n tx htx fields hfields
    rw [hs.parsed n tx htx fields hfields, s.chain.balanceBelow_eq_sub]
  · intro send hsend m hm fuel hfuel
    obtain ⟨hin, hcomm, hhash⟩ := hs.rebuilt send hsend
    have hlt : send.2.nonce < s.chain.length := by
      by_contra hge
      rw [s.chain.eq_nil_of_length_le _ (Nat.le_of_not_lt hge)] at hin
      exact List.not_mem_nil hin
    obtain ⟨balance, m₁, hbalance, rfl, -⟩ :=
      (getPrivateBalanceFromTxHistory_spec send.2.tokenType hg hlen hd hm hbatch hfuel
        (some (send.2.nonce : ℤ))).run rfl
    have htop : s.chain.top (some (send.2.nonce : ℤ)) = send.2.nonce := by
      show min s.chain.length (send.2.nonce : ℤ).toNat = _
      omega
    rw [htop] at hbalance
    rw [CommitmentScheme.getCommitmentForPartialSendSlow, exec_bind, hbalance]
    show (exec (if scheme.getCommitmentHash (scheme.buildCommitmentForPartialSend send.2 _)
      = send.2.commitmentHash then pure _ else _) m₁).1 = _
    rw [hcomm, if_pos hhash]
    rfl

/-- **Value is conserved in every run of one client.**  Nonces have 32 bits, and the hash of the wallet's
commitments has no collision. -/
theorem conserves {poseidon : Poseidon} (circuits : Circuits poseidon) (serialization : Serialization)
    (seedWrapper : SeedWrapper) (accs : ProgramAccounts) (owner : PublicKey)
    (hasCommitment : Bytes → ℕ → Bool)
    (hsep : (seedWrapper.commitmentScheme poseidon hasCommitment).Separates) {events : List ClientEvent}
    (hrun : run (step circuits serialization seedWrapper accs owner) start events = some s)
    (hlen : s.chain.length ≤ MAX_UINT32) :
    Conserved (seedWrapper.commitmentScheme poseidon hasCommitment) s :=
  (kept_of_run hsep hrun hlen).conserved hsep hlen

/-! ### A run with a merge -/

lemma length_zeroHashCore : ∀ _ : IncompleteCommitment, (leBytes 32 0).length = 32 :=
  fun _ => length_leBytes 32 0

/-- A hash that shows the metadata of a commitment; the salt of a plain nullifier starts at byte 9. -/
def openPoseidon : Poseidon where
  getCommitmentHash comm := ((comm.nullifier.drop 9).take 4
    ++ leBytes 2 (getNumberFromTokenType comm.tokenType) ++ leBytes 3 comm.assocCommIndex
    ++ leBytes 8 comm.balance.toNat ++ List.replicate 32 0).take 32
  getCommitmentHashCore _ := leBytes 32 0
  length_getCommitmentHash _ := by
    rw [List.length_take, List.length_append, List.length_replicate]
    omega
  length_getCommitmentHashCore := length_zeroHashCore

def openCircuits : Circuits openPoseidon where
  nHashes comms := comms.map fun comm => comm.balance.toNat + 1
  roots comms := comms.map fun _ => 1
  generateSendQuadraProof inputs nextCommitment serializedMetadata :=
    .ok ⟨inputs.complete openPoseidon nextCommitment serializedMetadata⟩
  publicInputs_eq h := by
    obtain rfl := Except.ok.inj h
    rfl

def openScheme : CommitmentScheme := plainSeed.commitmentScheme openPoseidon fun _ _ => true

/-- The salt of a plain nullifier. -/
lemma salt_plainNullifier (nonce : ℕ) :
    ((plainSeed.generateNullifier nonce).drop 9).take 4 = leBytes 4 nonce := by
  have hinfo : "Nullifier".toUTF8.toList = [78, 117, 108, 108, 105, 102, 105, 101, 114] := by
    decide +kernel
  show (((("Nullifier".toUTF8.toList ++ leBytes 4 nonce ++ plainSeed.seed ++ List.replicate 31 0).take
    31 ++ [0]).drop 9).take 4 = _)
  rw [hinfo]
  rfl

lemma separates_openScheme : openScheme.Separates := by
  have hhash : ∀ metadata : CommitmentMetadata,
      (openScheme.getCommitmentHash (openScheme.commFromMetadata metadata)).take 17
        = metadata.toBytes := by
    intro metadata
    show ((((plainSeed.generateNullifier metadata.nonce).drop 9).take 4 ++ _ ++ _ ++ _ ++ _).take
      32).take 17 = _
    rw [salt_plainNullifier, List.take_take]
    show (metadata.toBytes ++ List.replicate 32 0).take 17 = _
    exact List.take_left' metadata.length_toBytes
  intro metadata metadata' heq
  have hbytes : metadata.toBytes = metadata'.toBytes := by
    rw [← hhash, ← hhash]
    exact congrArg (List.take 17) heq
  have hok := CommitmentMetadata.fromBytes_toBytes metadata
  rw [hbytes, CommitmentMetadata.fromBytes_toBytes] at hok
  exact (Except.ok.inj hok).symm

/-- Four topups, a fifth one after a merge, and a send. -/
def mergeRun : List ClientEvent :=
  let answers : Answers := ⟨plainParams 0 [], fun _ _ => true⟩
  let data : FinalizeData :=
    { recipient := ElusivTransaction.bareKey 14, refKey := ElusivTransaction.bareKey 0
      owner := ElusivTransaction.bareKey 12
      encryptedOwner := { cipherText := [], iv := [] }, signature := ⟨"finalize", none, none⟩ }
  let topup (amount : ℚ) : ClientEvent :=
    .topup false (plainTopupRequest amount) answers 0 ⟨"store", none, none⟩ data
  [topup 1000000, topup 2000000, topup 3000000, topup 4000000, topup 5000000,
    .topupMerged 0 ⟨"store", none, none⟩, .send (plainSendRequest 700000) answers data]

def openStep : Client → ClientEvent → Option Client :=
  step openCircuits plainSerialization plainSeed plainAccounts (ElusivTransaction.bareKey 12)

/-- The merge and the send cost 260000 each. -/
theorem conserves_mergeRun : ∃ s, run openStep start mergeRun = some s ∧ s.chain.length = 7 ∧
    s.chain.balanceBelow .LAMPORTS 7 = 15000000 - 700000 - 2 * 260000 ∧ Conserved openScheme s := by
  have hsome : ((run openStep start mergeRun).map fun s =>
      (s.chain.length, s.chain.balanceBelow .LAMPORTS 7)) = some (7, 13780000) := by
    decide +kernel
  obtain ⟨s, hrun, hs⟩ := Option.map_eq_some_iff.mp hsome
  obtain ⟨hlength, hbalance⟩ := Prod.mk.inj hs
  refine ⟨s, hrun, hlength, hbalance, ?_⟩
  refine conserves openCircuits plainSerialization plainSeed plainAccounts
    (ElusivTransaction.bareKey 12) (fun _ _ => true) separates_openScheme hrun ?_
  rw [hlength]
  decide

end Client

end ElusivSdk
