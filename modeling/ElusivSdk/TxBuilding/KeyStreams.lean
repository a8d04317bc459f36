import ElusivSdk.TxBuilding.TransactionBuilding
import Mathlib.Data.Set.Function

/-!
# Key streams of the transactions of one seed

A topup encrypts its private balance and a send encrypts its owner, with key and iv of the nonce.  Both
encrypt the metadata of their commitment, with key and iv of the commitment hash.

* `BuiltTx.ctrCalls` — the uses of counter mode that a build makes.
* `IsBuilt` — the transaction was built with the seed, from whatever parameters.
* `CollisionFree` — key derivation and commitment hash are injective where they were used.
* **`sameKeyStream_iff`** — no key stream meets two plaintexts exactly when transactions on one nonce
  encrypt the same under it: two topups with one private balance, or two sends with one owner.
* `keyStream_reused` — a topup and a send that are built from the same parameters.
-/

namespace ElusivSdk

open Format Program InstructionBuilding TransactionBuilding

/-- A built transaction; a send with the owner that it encrypts. -/
inductive BuiltTx
  | topup (storeTx : StoreTx)
  | send (sendTx : SendTx) (owner : PublicKey)
deriving DecidableEq

namespace BuiltTx

def nonce : BuiltTx → ℕ
  | topup storeTx => storeTx.nonce
  | send sendTx _ => sendTx.nonce

def commitment : BuiltTx → IncompleteCommitment
  | topup storeTx => storeTx.commitment
  | send sendTx _ => sendTx.commitment

/-- What is encrypted with key and iv of the nonce. -/
def payload : BuiltTx → Bytes
  | topup storeTx => computeHashIxEncryptedPayloadBorsh.encode (computeInstruction storeTx).encryptedPayload
  | send _ owner => owner.bytes

/-- Do the two encrypt the same with key and iv of the nonce? -/
def SamePayload : BuiltTx → BuiltTx → Prop
  | topup storeTx, topup storeTx' => storeTx.parsedPrivateBalance = storeTx'.parsedPrivateBalance ∧
      storeTx.isRecipient = storeTx'.isRecipient
  | send _ owner, send _ owner' => owner = owner'
  | _, _ => False

lemma samePayload_refl (tx : BuiltTx) : tx.SamePayload tx := by
  cases tx with
  | topup storeTx => exact ⟨rfl, rfl⟩
  | send sendTx owner => exact rfl

/-- The uses of counter mode: for the payload, and for the metadata of the commitment. -/
def ctrCalls (poseidon : Poseidon) (rvk : RVKWrapper) (tx : BuiltTx) : List CtrCall :=
  rvk.seededSaltedCall tx.payload tx.nonce ::
    (CommitmentMetadata.fromCommitment tx.nonce tx.commitment).toOption.toList.map fun metadata =>
      rvk.metadataCall metadata.toBytes (poseidon.getCommitmentHash tx.commitment)

/-- The inputs from which the two keys are derived. -/
def keyInputs (poseidon : Poseidon) (rvk : RVKWrapper) (tx : BuiltTx) : List (Bytes × Bytes × String) :=
  [(rvk.rvk, leBytes 4 tx.nonce, "AES256 Key"),
    (rvk.rvk, poseidon.getCommitmentHash tx.commitment, "Metadata Key")]

def nullifierInput (seedWrapper : SeedWrapper) (tx : BuiltTx) : Bytes × Bytes × String :=
  (seedWrapper.seed, leBytes 4 tx.nonce, "Nullifier")

end BuiltTx

/-- The transaction was built with the seed.  The private balance of a topup is written as a number of
eight bytes. -/
inductive IsBuilt (poseidon : Poseidon) (seedWrapper : SeedWrapper) : BuiltTx → Prop
  | topup {serialization : Serialization} {accs : ProgramAccounts} {request : TopupRequest}
      {params : FetchedParams} {mergeFee : Option ℤ} {storeTx : StoreTx} {fee : Fee}
      {txData : TopupTxData}
      (hstore : topupStore serialization seedWrapper poseidon request params mergeFee
        = .ok (storeTx, fee))
      (hdata : topupTxData seedWrapper accs poseidon (storeTx, fee) params mergeFee = .ok txData)
      (hlow : 0 ≤ storeTx.parsedPrivateBalance) (hhigh : storeTx.parsedPrivateBalance ≤ MAX_UINT64) :
      IsBuilt poseidon seedWrapper (.topup storeTx)
  | send {circuits : Circuits poseidon} {serialization : Serialization} {request : SendRequest}
      {params : FetchedParams} {sendTx : SendTx} {fee : Fee}
      (hsend : buildSend circuits serialization seedWrapper request params = .ok (sendTx, fee)) :
      IsBuilt poseidon seedWrapper (.send sendTx request.owner)

/-- Derivation and commitment hash have no collision among what the transactions use. -/
structure CollisionFree (poseidon : Poseidon) (seedWrapper : SeedWrapper) (txs : Set BuiltTx) :
    Prop where
  keys : Set.InjOn (fun x : Bytes × Bytes × String =>
      seedWrapper.primitives.hkdf x.1 x.2.1 x.2.2 32)
    {x | ∃ tx ∈ txs, x ∈ tx.keyInputs poseidon seedWrapper.getRootViewingKeyWrapper}
  nullifiers : Set.InjOn (fun x : Bytes × Bytes × String =>
      seedWrapper.primitives.hkdf x.1 x.2.1 x.2.2 31)
    {x | ∃ tx ∈ txs, x = tx.nullifierInput seedWrapper}
  hashes : Set.InjOn poseidon.getCommitmentHash {comm | ∃ tx ∈ txs, comm = tx.commitment}

namespace IsBuilt

variable {poseidon : Poseidon} {seedWrapper : SeedWrapper} {tx tx' : BuiltTx}

/-- The metadata of the commitment is in range. -/
lemma metadata (h : IsBuilt poseidon seedWrapper tx) :
    ∃ metadata, CommitmentMetadata.fromCommitment tx.nonce tx.commitment = .ok metadata := by
  cases h with
  | topup hstore hdata _ _ =>
      obtain ⟨ixs, hixs, -⟩ := bind_eq_ok.mp hdata
      obtain ⟨variableIxs, hvariable, -⟩ := bind_eq_ok.mp hixs
      obtain ⟨metadata, hmetadata, -⟩ := bind_eq_ok.mp hvariable
      exact ⟨metadata, hmetadata⟩
  | send hsend =>
      have hbuilt := buildSend_spec hsend
      rcases hbuilt.metadata with ⟨metadata, hnonce, htoken, hindex, hbalance, -⟩
      refine ⟨metadata, CommitmentMetadata.fromCommitment_of_eq hnonce ?_ ?_ hbalance⟩
      · rw [htoken, BuiltTx.commitment, hbuilt.commitment_eq, buildCommitmentForSend]
      · rw [hindex, BuiltTx.commitment, hbuilt.commitment_eq, buildCommitmentForSend]

lemma nonce_lt (h : IsBuilt poseidon seedWrapper tx) : tx.nonce < 256 ^ 4 := by
  rcases h.metadata with ⟨metadata, hmetadata⟩
  have hnonce := (CommitmentMetadata.of_fromCommitment hmetadata).1
  have hle := metadata.nonce_le
  have hmax : MAX_UINT32 < 256 ^ 4 := by decide
  omega

lemma nullifier (h : IsBuilt poseidon seedWrapper tx) :
    tx.commitment.nullifier = seedWrapper.generateNullifier tx.nonce := by
  cases h with
  | topup hstore _ _ _ => rw [BuiltTx.commitment, (topupStore_spec hstore).commitment_eq]; rfl
  | send hsend => rw [BuiltTx.commitment, (buildSend_spec hsend).commitment_eq]; rfl

lemma range {storeTx : StoreTx} (h : IsBuilt poseidon seedWrapper (.topup storeTx)) :
    0 ≤ storeTx.parsedPrivateBalance ∧ storeTx.parsedPrivateBalance ≤ MAX_UINT64 := by
  cases h with
  | topup _ _ hlow hhigh => exact ⟨hlow, hhigh⟩

/-- The payload of a topup is shorter than a key. -/
lemma payload_topup_ne (storeTx : StoreTx) (owner : PublicKey) :
    (BuiltTx.topup storeTx).payload ≠ owner.bytes := by
  intro heq
  have hlen := congrArg List.length heq
  rw [owner.length_eq] at hlen
  exact absurd hlen (by decide : 15 ≠ 32)

/-- Equal payloads are payloads of the same kind and with the same contents. -/
lemma payload_eq_iff (h : IsBuilt poseidon seedWrapper tx) (h' : IsBuilt poseidon seedWrapper tx') :
    tx.payload = tx'.payload ↔ tx.SamePayload tx' := by
  cases tx with
  | topup storeTx =>
      cases tx' with
      | topup storeTx' =>
          rcases h.range with ⟨hlow, hhigh⟩
          rcases h'.range with ⟨hlow', hhigh'⟩
          constructor
          · intro heq
            -- both payloads are read back from the same bytes
            have hparse := computeHashIxEncryptedPayloadBorsh.parse_encode
              (ComputeHashInstruction.encryptedPayload_fits (computeInstruction storeTx) hhigh)
            have hparse' := computeHashIxEncryptedPayloadBorsh.parse_encode
              (ComputeHashInstruction.encryptedPayload_fits (computeInstruction storeTx') hhigh')
            rw [← BuiltTx.payload, heq, BuiltTx.payload, hparse'] at hparse
            have hpayload := Option.some.inj hparse
            have hbalance : storeTx'.parsedPrivateBalance.toNat = storeTx.parsedPrivateBalance.toNat :=
              congrArg ComputeHashIxEncryptedPayloadBorsh.curr_priv_balance hpayload
            refine ⟨?_, (congrArg ComputeHashIxEncryptedPayloadBorsh.is_recipient hpayload).symm⟩
            rw [← Int.toNat_of_nonneg hlow, ← hbalance, Int.toNat_of_nonneg hlow']
          · rintro ⟨hbalance, hrecipient⟩
            rw [BuiltTx.payload, BuiltTx.payload, ComputeHashInstruction.encryptedPayload,
              ComputeHashInstruction.encryptedPayload, computeInstruction, computeInstruction]
            dsimp only
            rw [hbalance, hrecipient]
      | send _ owner => exact ⟨fun heq => payload_topup_ne storeTx owner heq, False.elim⟩
  | send _ owner =>
      cases tx' with
      | topup storeTx => exact ⟨fun heq => payload_topup_ne storeTx owner heq.symm, False.elim⟩
      | send _ owner' =>
          refine ⟨fun heq => ?_, fun heq => congrArg PublicKey.bytes heq⟩
          cases owner
          cases owner'
          obtain rfl := heq
          rfl

end IsBuilt

/-! ## The uses of counter mode -/

/-- A topup sends out what its two uses make. -/
lemma StoreTx.encrypts (poseidon : Poseidon) (rvk : RVKWrapper) (storeTx : StoreTx)
    (feeVersionData : FeeVersionData) (metadata : CommitmentMetadata) :
    (computeInstruction storeTx).compileEncryptedData rvk
        = rvk.primitives.encryptAES256CTRWithKey
          (rvk.seededSaltedCall (BuiltTx.topup storeTx).payload storeTx.nonce) ∧
      (storeInstruction poseidon rvk storeTx feeVersionData metadata).serializedMetadata
        = (rvk.primitives.encryptAES256CTRWithKey (rvk.metadataCall metadata.toBytes
          (poseidon.getCommitmentHash storeTx.commitment))).cipherText := by
  constructor
  · rw [ComputeHashInstruction.compileEncryptedData, RVKWrapper.encryptSeededSaltedAES256,
      BuiltTx.payload]
    rfl
  · rw [storeInstruction, CommitmentMetadata.serializeAndEncrypt, RVKWrapper.encryptMetadata]

/-- So does a send. -/
lemma SendTx.BuiltFrom.encrypts {sendTx : SendTx} {fee : Fee} {poseidon : Poseidon}
    {seedWrapper : SeedWrapper} {request : SendRequest} {params : FetchedParams}
    (h : sendTx.BuiltFrom fee poseidon seedWrapper request params) :
    sendTx.encryptedOwner
        = seedWrapper.getRootViewingKeyWrapper.primitives.encryptAES256CTRWithKey
          (seedWrapper.getRootViewingKeyWrapper.seededSaltedCall request.owner.bytes sendTx.nonce) ∧
      ∃ metadata : CommitmentMetadata, sendTx.proof.publicInputs.serializedMetadata
        = ofLeBytes (seedWrapper.getRootViewingKeyWrapper.primitives.encryptAES256CTRWithKey
          (seedWrapper.getRootViewingKeyWrapper.metadataCall metadata.toBytes
            sendTx.commitmentHash)).cipherText := by
  rcases h.metadata with ⟨metadata, -, -, -, -, hserialized⟩
  have howner := h.encryptedOwner_eq
  rw [RVKWrapper.encryptSeededSaltedAES256] at howner
  rw [CommitmentMetadata.serializeAndEncrypt, RVKWrapper.encryptMetadata] at hserialized
  exact ⟨howner, metadata, hserialized⟩

namespace BuiltTx

variable {poseidon : Poseidon} {rvk : RVKWrapper} {tx : BuiltTx}

lemma mem_ctrCalls {call : CtrCall} : call ∈ tx.ctrCalls poseidon rvk ↔
    call = rvk.seededSaltedCall tx.payload tx.nonce ∨
    ∃ metadata, CommitmentMetadata.fromCommitment tx.nonce tx.commitment = .ok metadata ∧
      call = rvk.metadataCall metadata.toBytes (poseidon.getCommitmentHash tx.commitment) := by
  rw [ctrCalls, List.mem_cons]
  refine or_congr Iff.rfl ?_
  cases CommitmentMetadata.fromCommitment tx.nonce tx.commitment with
  | error e => exact ⟨fun h => absurd h List.not_mem_nil, fun ⟨_, h, _⟩ => nomatch h⟩
  | ok metadata =>
      refine List.mem_singleton.trans ⟨fun h => ⟨metadata, rfl, h⟩, ?_⟩
      rintro ⟨_, hmetadata, h⟩
      obtain rfl := Except.ok.inj hmetadata
      exact h

end BuiltTx

namespace CollisionFree

variable {poseidon : Poseidon} {seedWrapper : SeedWrapper} {txs : Set BuiltTx}
  (hfree : CollisionFree poseidon seedWrapper txs)
  (hbuilt : ∀ tx ∈ txs, IsBuilt poseidon seedWrapper tx) {tx tx' : BuiltTx} (htx : tx ∈ txs)
  (htx' : tx' ∈ txs)
include hfree htx htx'

/-- The derived keys of the two kinds differ by their info string. -/
lemma key_ne : seedWrapper.getRootViewingKeyWrapper.generateDecryptionKey tx.nonce
    ≠ seedWrapper.primitives.generateCommMetadataKey seedWrapper.getRootViewingKeyWrapper.rvk
      (poseidon.getCommitmentHash tx'.commitment) := by
  intro heq
  have hinputs := hfree.keys ⟨tx, htx, List.mem_cons_self⟩
    ⟨tx', htx', List.mem_cons_of_mem _ (List.mem_singleton_self _)⟩ heq
  have hinfo : "AES256 Key" = "Metadata Key" := congrArg (fun x => x.2.2) hinputs
  exact absurd hinfo (by decide)

/-- One metadata key belongs to one commitment. -/
lemma commitment_eq (heq : seedWrapper.primitives.generateCommMetadataKey
      seedWrapper.getRootViewingKeyWrapper.rvk (poseidon.getCommitmentHash tx.commitment)
    = seedWrapper.primitives.generateCommMetadataKey
      seedWrapper.getRootViewingKeyWrapper.rvk (poseidon.getCommitmentHash tx'.commitment)) :
    tx.commitment = tx'.commitment := by
  have hinputs := hfree.keys ⟨tx, htx, List.mem_cons_of_mem _ (List.mem_singleton_self _)⟩
    ⟨tx', htx', List.mem_cons_of_mem _ (List.mem_singleton_self _)⟩ heq
  exact hfree.hashes ⟨tx, htx, rfl⟩ ⟨tx', htx', rfl⟩ (congrArg (fun x => x.2.1) hinputs)

include hbuilt

/-- One key of the nonce belongs to one nonce. -/
lemma nonce_eq (heq : seedWrapper.getRootViewingKeyWrapper.generateDecryptionKey tx.nonce
    = seedWrapper.getRootViewingKeyWrapper.generateDecryptionKey tx'.nonce) : tx.nonce = tx'.nonce := by
  have hinputs := hfree.keys ⟨tx, htx, List.mem_cons_self⟩ ⟨tx', htx', List.mem_cons_self⟩ heq
  have hbytes : leBytes 4 tx.nonce = leBytes 4 tx'.nonce := congrArg (fun x => x.2.1) hinputs
  rw [← ofLeBytes_leBytes (hbuilt tx htx).nonce_lt, hbytes,
    ofLeBytes_leBytes (hbuilt tx' htx').nonce_lt]

/-- One nullifier belongs to one nonce. -/
lemma nonce_eq_of_commitment (heq : tx.commitment = tx'.commitment) : tx.nonce = tx'.nonce := by
  have hnullifier : seedWrapper.generateNullifier tx.nonce = seedWrapper.generateNullifier tx'.nonce := by
    rw [← (hbuilt tx htx).nullifier, heq, (hbuilt tx' htx').nullifier]
  have hinputs := hfree.nullifiers ⟨tx, htx, rfl⟩ ⟨tx', htx', rfl⟩
    (List.append_cancel_right hnullifier)
  have hbytes : leBytes 4 tx.nonce = leBytes 4 tx'.nonce := congrArg (fun x => x.2.1) hinputs
  rw [← ofLeBytes_leBytes (hbuilt tx htx).nonce_lt, hbytes,
    ofLeBytes_leBytes (hbuilt tx' htx').nonce_lt]

end CollisionFree

/-- **No key stream meets two plaintexts** exactly when transactions on one nonce encrypt the same with
its key: both are topups with one private balance and recipient flag, or both are sends of one owner. -/
theorem sameKeyStream_iff {poseidon : Poseidon} {seedWrapper : SeedWrapper} {txs : Set BuiltTx}
    (hbuilt : ∀ tx ∈ txs, IsBuilt poseidon seedWrapper tx)
    (hfree : CollisionFree poseidon seedWrapper txs) :
    (∀ tx ∈ txs, ∀ tx' ∈ txs,
      ∀ call ∈ tx.ctrCalls poseidon seedWrapper.getRootViewingKeyWrapper,
      ∀ call' ∈ tx'.ctrCalls poseidon seedWrapper.getRootViewingKeyWrapper,
        call.key = call'.key → call.iv = call'.iv → call.toEncrypt = call'.toEncrypt) ↔
    ∀ tx ∈ txs, ∀ tx' ∈ txs, tx.nonce = tx'.nonce → tx.SamePayload tx' := by
  constructor
  · intro hsame tx htx tx' htx' hnonce
    refine ((hbuilt tx htx).payload_eq_iff (hbuilt tx' htx')).mp ?_
    refine hsame tx htx tx' htx' _ (BuiltTx.mem_ctrCalls.mpr (Or.inl rfl)) _
      (BuiltTx.mem_ctrCalls.mpr (Or.inl rfl)) ?_ ?_
    · rw [hnonce]
      rfl
    · rw [hnonce]
      rfl
  · intro hpayload tx htx tx' htx' call hcall call' hcall' hkey _
    rcases BuiltTx.mem_ctrCalls.mp hcall with rfl | ⟨metadata, hmetadata, rfl⟩
    · rcases BuiltTx.mem_ctrCalls.mp hcall' with rfl | ⟨metadata', hmetadata', rfl⟩
      · have hnonce := hfree.nonce_eq hbuilt htx htx' hkey
        exact ((hbuilt tx htx).payload_eq_iff (hbuilt tx' htx')).mpr (hpayload tx htx tx' htx' hnonce)
      · exact absurd hkey (hfree.key_ne htx htx')
    · rcases BuiltTx.mem_ctrCalls.mp hcall' with rfl | ⟨metadata', hmetadata', rfl⟩
      · exact absurd hkey.symm (hfree.key_ne htx' htx)
      · have hcommitment := hfree.commitment_eq htx htx' hkey
        have hnonce := hfree.nonce_eq_of_commitment hbuilt htx htx' hcommitment
        rw [hcommitment, hnonce, hmetadata'] at hmetadata
        exact congrArg CommitmentMetadata.toBytes (Except.ok.inj hmetadata).symm

/-! ### A topup and a send -/

/-- A topup of `amount` lamports, from parameters with one active commitment. -/
def plainTopup (amount : ℚ) : Except Failure (StoreTx × Fee) :=
  topupStore plainSerialization plainSeed plainPoseidon (plainTopupRequest amount)
    (plainParams 0 [buildTopupCommitment 0 1000000 .LAMPORTS 7 plainSeed]) none

/-- A send of 500000 lamports that spends the commitment of the nonce 0; `lastNonce` is the newest nonce
in use. -/
def plainSend (lastNonce : ℤ) : Except Failure (SendTx × Fee) :=
  buildSend plainCircuits plainSerialization plainSeed (plainSendRequest 500000)
    (plainParams lastNonce [buildTopupCommitment 0 1000000 .LAMPORTS 7 plainSeed])

def plainTopupTx : BuiltTx := .topup (value (plainTopup 600000) (by decide +kernel)).1

def plainSendTx (lastNonce : ℤ) (h : (plainSend lastNonce).isOk = true) : BuiltTx :=
  .send (value (plainSend lastNonce) h).1 (plainSendRequest 500000).owner

lemma isBuilt_plainTopupTx : IsBuilt plainPoseidon plainSeed plainTopupTx := by
  have hdata : (topupTxData plainSeed plainAccounts plainPoseidon
      (value (plainTopup 600000) (by decide +kernel)) (plainParams 0 []) none).isOk = true := by
    decide +kernel
  refine IsBuilt.topup (eq_ok_value (by decide +kernel)) (eq_ok_value hdata) ?_ ?_
  · decide +kernel
  · decide +kernel

lemma isBuilt_plainSendTx {lastNonce : ℤ} (h : (plainSend lastNonce).isOk = true) :
    IsBuilt plainPoseidon plainSeed (plainSendTx lastNonce h) := IsBuilt.send (eq_ok_value h)

/-- Freedom from collisions can be tested on two transactions. -/
def checkCollisionFree (poseidon : Poseidon) (seedWrapper : SeedWrapper) (txs : List BuiltTx) : Bool :=
  let keys := txs.flatMap fun tx => tx.keyInputs poseidon seedWrapper.getRootViewingKeyWrapper
  let nullifiers := txs.map fun tx => tx.nullifierInput seedWrapper
  let comms := txs.map BuiltTx.commitment
  let derive (x : Bytes × Bytes × String) (length : ℕ) : Bytes :=
    seedWrapper.primitives.hkdf x.1 x.2.1 x.2.2 length
  (keys.all fun x => keys.all fun y => derive x 32 != derive y 32 || x == y) &&
    (nullifiers.all fun x => nullifiers.all fun y => derive x 31 != derive y 31 || x == y) &&
    comms.all fun x => comms.all fun y =>
      poseidon.getCommitmentHash x != poseidon.getCommitmentHash y || x == y

lemma collisionFree_of_check {poseidon : Poseidon} {seedWrapper : SeedWrapper} {txs : List BuiltTx}
    (h : checkCollisionFree poseidon seedWrapper txs = true) :
    CollisionFree poseidon seedWrapper {tx | tx ∈ txs} := by
  have hinj {α : Type} [BEq α] [LawfulBEq α] {f : α → Bytes} {l : List α} {s : Set α} (hs : ∀ x ∈ s, x ∈ l)
      (hall : (l.all fun x => l.all fun y => f x != f y || x == y) = true) : Set.InjOn f s := by
    intro x hx y hy heq
    have hxy := List.all_eq_true.mp (List.all_eq_true.mp hall x (hs x hx)) y (hs y hy)
    rw [heq, bne_self_eq_false, Bool.false_or] at hxy
    exact eq_of_beq hxy
  rw [checkCollisionFree, Bool.and_eq_true, Bool.and_eq_true] at h
  refine ⟨hinj ?_ h.1.1, hinj ?_ h.1.2, hinj ?_ h.2⟩
  · rintro x ⟨tx, htx, hx⟩
    exact List.mem_flatMap.mpr ⟨tx, htx, hx⟩
  · rintro x ⟨tx, htx, rfl⟩
    exact List.mem_map_of_mem htx
  · rintro x ⟨tx, htx, rfl⟩
    exact List.mem_map_of_mem htx

/-- The topup is built on the nonce 1, and the send on the nonce 2. -/
theorem sameKeyStream_iff_nextNonce :
    plainTopupTx.nonce ≠ (plainSendTx 1 (by decide +kernel)).nonce ∧
    ∀ tx ∈ ({tx | tx ∈ [plainTopupTx, plainSendTx 1 (by decide +kernel)]} : Set BuiltTx),
    ∀ tx' ∈ ({tx | tx ∈ [plainTopupTx, plainSendTx 1 (by decide +kernel)]} : Set BuiltTx),
      ∀ call ∈ tx.ctrCalls plainPoseidon plainSeed.getRootViewingKeyWrapper,
      ∀ call' ∈ tx'.ctrCalls plainPoseidon plainSeed.getRootViewingKeyWrapper,
        call.key = call'.key → call.iv = call'.iv → call.toEncrypt = call'.toEncrypt := by
  have hnonce : plainTopupTx.nonce ≠ (plainSendTx 1 (by decide +kernel)).nonce := by decide +kernel
  refine ⟨hnonce, (sameKeyStream_iff ?_ (collisionFree_of_check (by decide +kernel))).mpr ?_⟩
  · rintro tx (_ | ⟨_, _ | ⟨_, htx⟩⟩)
    · exact isBuilt_plainTopupTx
    · exact isBuilt_plainSendTx _
    · cases htx
  · rintro tx (_ | ⟨_, _ | ⟨_, htx⟩⟩) tx' (_ | ⟨_, _ | ⟨_, htx'⟩⟩) heq
    · exact plainTopupTx.samePayload_refl
    · exact absurd heq hnonce
    · cases htx'
    · exact absurd heq.symm hnonce
    · exact BuiltTx.samePayload_refl _
    · cases htx'
    · cases htx
    · cases htx
    · cases htx

/-- **A topup and a send from the same parameters** share the key stream of their nonce, although keys,
nullifiers and hashes do not collide. -/
theorem keyStream_reused :
    ∃ tx tx', IsBuilt plainPoseidon plainSeed tx ∧ IsBuilt plainPoseidon plainSeed tx' ∧
      CollisionFree plainPoseidon plainSeed {x | x ∈ [tx, tx']} ∧
      ∃ call ∈ tx.ctrCalls plainPoseidon plainSeed.getRootViewingKeyWrapper,
      ∃ call' ∈ tx'.ctrCalls plainPoseidon plainSeed.getRootViewingKeyWrapper,
        call.key = call'.key ∧ call.iv = call'.iv ∧ call.toEncrypt ≠ call'.toEncrypt :=
  ⟨plainTopupTx, plainSendTx 0 (by decide +kernel), isBuilt_plainTopupTx, isBuilt_plainSendTx _,
    collisionFree_of_check (by decide +kernel), _, List.mem_cons_self, _, List.mem_cons_self,
    by decide +kernel, by decide +kernel, by decide +kernel⟩

end ElusivSdk
