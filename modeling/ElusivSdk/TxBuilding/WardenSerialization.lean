import ElusivSdk.ParamManagers.Fee.FeeUtils
import ElusivSdk.TxBuilding.Circuits

/-!
# From the proof of a send to the warden

What is public about the proof of a send goes to a warden as JSON.  The warden writes the join split into
the init instruction of the send.

* `serializeJoinSplit` — the JSON; the fee is taken off the amount again.
* **`CommitmentMetadata.codec`** — the metadata through its bytes, its ciphertext and the number in the
  JSON.
* `WrittenAs` — the join split of an instruction says what the JSON says.
-/

namespace ElusivSdk

open Format Program

/-! ## The JSON -/

structure InputCommitmentSerializedJSON where
  root : Option Bytes
  nullifier_hash : Bytes
deriving DecidableEq

structure OptionalFeeSerializedJSON where
  collector : Bytes
  amount : ℤ
deriving DecidableEq

structure JoinSplitSerializedJSON where
  input_commitments : List InputCommitmentSerializedJSON
  output_commitment : Bytes
  recent_commitment_index : ℤ
  fee_version : ℤ
  amount : ℤ
  fee : ℤ
  token_id : ℤ
  optional_fee : OptionalFeeSerializedJSON
  metadata : Bytes
deriving DecidableEq

namespace Serialization

variable (serialization : Serialization)

/-- `serializeU256Bytes` of the bytes of the number. -/
def serializeU256BigInt (b : ℕ) : Except Failure Bytes :=
  let bytes := serialization.bigIntToUint8ArrLE b
  if bytes.length > 32 then .error (.error (TOO_LARGE_SIZE "b" bytes.length 32))
  else .ok (padLE bytes 32)

/-- Empty hashes are left out; they have to come last. -/
def serializeNHashes (nHashes : List ℕ) : Except Failure (List Bytes) :=
  let filtered := nHashes.filter fun n => n != 0
  if filtered ≠ nHashes.take filtered.length then
    .error (.error "Empty nHashes must be at the end")
  else filtered.mapM serialization.serializeU256BigInt

/-- The first root in full, a later one only when it is another one. -/
def serializeRoots : List ℕ → Except Failure (List (Option Bytes))
  | [] => .ok []
  | firstRoot :: rest => do
      let first ← serialization.serializeU256BigInt firstRoot
      let others ← rest.mapM fun root =>
        if root = 0 ∨ root = firstRoot then pure none
        else some <$> serialization.serializeU256BigInt root
      pure (some first :: others)

/-- One entry for each hash; a root that is missing is not written. -/
def serializeInputCommitments (rawRoots rawNHashes : List ℕ) :
    Except Failure (List InputCommitmentSerializedJSON) := do
  let serializedNHashes ← serialization.serializeNHashes rawNHashes
  let serializedRoots ← serialization.serializeRoots rawRoots
  pure <| serializedNHashes.mapIdx fun i nHash =>
    { root := serializedRoots[i]?.join, nullifier_hash := nHash }

def serializeOptionalFee (amount : ℤ) (collector : ℕ) : Except Failure OptionalFeeSerializedJSON := do
  let collector ← serialization.serializeU256BigInt collector
  let amount ← serialization.bigIntToNumber amount
  pure { collector := collector, amount := amount }

def serializeJoinSplit (publicInputs : SendQuadraPublicInputs) (fee : Fee) :
    Except Failure JoinSplitSerializedJSON := do
  let inputCommitments ←
    serialization.serializeInputCommitments publicInputs.roots publicInputs.nullifierHashes
  let outputCommitment ← serialization.serializeU256BigInt publicInputs.nextCommitment
  let recentCommitmentIndex ← serialization.bigIntToNumber publicInputs.nextAssocCommIndex
  let feeVersion ← serialization.bigIntToNumber publicInputs.feeVersion
  let amount ← serialization.bigIntToNumber publicInputs.amount
  let tokenId ← serialization.bigIntToNumber publicInputs.tokenId
  let optionalFee ← serialization.serializeOptionalFee
    publicInputs.extraDataHashInputs.optionalFeeAmount
    publicInputs.extraDataHashInputs.optionalFeeCollector
  let metadata ←
    serialization.serializeUintLE publicInputs.serializedMetadata COMMITMENT_METADATA_LENGTH
  pure
    { input_commitments := inputCommitments
      output_commitment := outputCommitment
      recent_commitment_index := recentCommitmentIndex
      fee_version := feeVersion
      amount := amount - getComputationFeeTotal fee.toBasicFee
      fee := getComputationFeeTotal fee.toBasicFee
      token_id := tokenId
      optional_fee := optionalFee
      metadata := metadata }

lemma serializeU256BigInt_eq {b : ℕ} {bytes : Bytes}
    (h : serialization.serializeU256BigInt b = .ok bytes) : bytes = leBytes 32 b := by
  rw [serializeU256BigInt] at h
  split_ifs at h with hlen
  obtain rfl := Except.ok.inj h
  have hlength : (padLE (serialization.bigIntToUint8ArrLE b) 32).length = 32 := by
    rw [padLE, List.length_append, List.length_replicate]
    omega
  have hvalue : ofLeBytes (padLE (serialization.bigIntToUint8ArrLE b) 32) = b := by
    rw [padLE, ofLeBytes_append_zeros, serialization.ofLeBytes_bigIntToUint8ArrLE]
  have hbytes := leBytes_ofLeBytes (padLE (serialization.bigIntToUint8ArrLE b) 32)
  rw [hlength, hvalue] at hbytes
  exact hbytes.symm

/-- **What the JSON says about a proof**: amount and fee add up to the public amount, hash and metadata are
the bytes of the public inputs. -/
theorem serializeJoinSplit_spec {publicInputs : SendQuadraPublicInputs} {fee : Fee}
    {json : JoinSplitSerializedJSON} (h : serialization.serializeJoinSplit publicInputs fee = .ok json) :
    json.fee = getComputationFeeTotal fee.toBasicFee ∧
      json.amount + json.fee = publicInputs.amount ∧
      json.output_commitment = leBytes 32 publicInputs.nextCommitment ∧
      json.metadata = leBytes COMMITMENT_METADATA_LENGTH publicInputs.serializedMetadata := by
  obtain ⟨inputs, -, h⟩ := bind_eq_ok.mp h
  obtain ⟨output, houtput, h⟩ := bind_eq_ok.mp h
  obtain ⟨index, -, h⟩ := bind_eq_ok.mp h
  obtain ⟨version, -, h⟩ := bind_eq_ok.mp h
  obtain ⟨amount, hamount, h⟩ := bind_eq_ok.mp h
  obtain ⟨token, -, h⟩ := bind_eq_ok.mp h
  obtain ⟨optionalFee, -, h⟩ := bind_eq_ok.mp h
  obtain ⟨metadata, hmetadata, h⟩ := bind_eq_ok.mp h
  obtain rfl := Except.ok.inj h
  refine ⟨rfl, ?_, serialization.serializeU256BigInt_eq houtput,
    serialization.serializeUintLE_exact hmetadata⟩
  rw [← serialization.bigIntToNumber_exact hamount]
  exact sub_add_cancel _ _

/-- The package writes every number that fits. -/
def WritesFitting : Prop :=
  ∀ n length : ℕ, n < 256 ^ length → ∃ bytes, serialization.serializeUintLE n length = .ok bytes

/-- Bytes that were read as a number are written again. -/
lemma WritesFitting.serializeUintLE_ofLeBytes {serialization : Serialization}
    (hw : serialization.WritesFitting) {bs : Bytes} {length : ℕ} (hlen : bs.length = length) :
    serialization.serializeUintLE (ofLeBytes bs) length = .ok bs := by
  obtain ⟨bytes, hok⟩ := hw (ofLeBytes bs) length (hlen ▸ ofLeBytes_lt bs)
  rw [hok, serialization.serializeUintLE_exact hok, leBytes_ofLeBytes_of_length hlen]

end Serialization

/-! ## The metadata on its way -/

/-- **The codec of the metadata**: it is read back from its bytes, accepted bytes are written back, what
is accepted is known exactly, encryption is undone, and the ciphertext is the same after its way through a
number into the JSON. -/
theorem CommitmentMetadata.codec :
    (∀ m : CommitmentMetadata, fromBytes m.toBytes = .ok m) ∧
    (∀ (b : Bytes) (m : CommitmentMetadata), fromBytes b = .ok m → m.toBytes = b) ∧
    (∀ b : Bytes, (∃ m, fromBytes b = .ok m) ↔
      b.length = 17 ∧ ofLeBytes ((b.take 6).drop 4) < TokenTypeArr.length ∧
        ofLeBytes ((b.take 9).drop 6) < 2 ^ 20) ∧
    (∀ (m : CommitmentMetadata) (rvk : RVKWrapper) (commHash : Bytes),
      deserializeAndDecrypt (m.serializeAndEncrypt rvk commHash).cipherText rvk commHash = .ok m) ∧
    ∀ serialization : Serialization, serialization.WritesFitting →
      ∀ (m : CommitmentMetadata) (rvk : RVKWrapper) (commHash : Bytes),
        (m.serializeAndEncrypt rvk commHash).cipherText.length = 17 ∧
        serialization.serializeUintLE (ofLeBytes (m.serializeAndEncrypt rvk commHash).cipherText)
            COMMITMENT_METADATA_LENGTH = .ok (m.serializeAndEncrypt rvk commHash).cipherText ∧
        ∀ (publicInputs : SendQuadraPublicInputs) (fee : Fee) (json : JoinSplitSerializedJSON),
          publicInputs.serializedMetadata = ofLeBytes (m.serializeAndEncrypt rvk commHash).cipherText →
          serialization.serializeJoinSplit publicInputs fee = .ok json →
          json.metadata = (m.serializeAndEncrypt rvk commHash).cipherText := by
  refine ⟨fromBytes_toBytes, fun _ _ h => toBytes_of_fromBytes h, fun _ => exists_fromBytes_iff,
    deserializeAndDecrypt_serializeAndEncrypt, fun serialization hw m rvk commHash => ?_⟩
  have hlen : (m.serializeAndEncrypt rvk commHash).cipherText.length = 17 := by
    rw [serializeAndEncrypt, RVKWrapper.length_cipherText_encryptMetadata, m.length_toBytes]
    rfl
  refine ⟨hlen, hw.serializeUintLE_ofLeBytes hlen, fun publicInputs fee json hmetadata hjson => ?_⟩
  rw [(serialization.serializeJoinSplit_spec hjson).2.2.2, hmetadata]
  exact leBytes_ofLeBytes_of_length hlen

lemma plainSerialization_writesFitting : plainSerialization.WritesFitting :=
  fun _ _ h => ⟨_, if_pos h⟩

/-- The metadata of an empty commitment, with the keys of `plainSeed`. -/
theorem CommitmentMetadata.codec_empty :
    ∃ m : CommitmentMetadata, CommitmentMetadata.new 0 .LAMPORTS 0 0 = .ok m ∧
      ∃ cipherText, (m.serializeAndEncrypt plainSeed.getRootViewingKeyWrapper
          (List.replicate 32 0)).cipherText = cipherText ∧
        plainSerialization.serializeUintLE (ofLeBytes cipherText) COMMITMENT_METADATA_LENGTH
          = .ok cipherText :=
  ⟨_, CommitmentMetadata.new_eq_ok (by decide) (by decide) (by decide) (by decide), _, rfl,
    (CommitmentMetadata.codec.2.2.2.2 plainSerialization plainSerialization_writesFitting _ _ _).2.1⟩

/-! ## What reaches the parser -/

/-- The join split of an instruction says what the JSON says, as far as the parser reads it. -/
structure JoinSplitBorsh.WrittenAs (joinSplit : JoinSplitBorsh) (json : JoinSplitSerializedJSON) :
    Prop where
  amount_eq : joinSplit.amount = json.amount
  fee_eq : joinSplit.fee = json.fee
  output_commitment_eq : leBytes 32 joinSplit.output_commitment = json.output_commitment
  metadata_eq : joinSplit.metadata = json.metadata

end ElusivSdk
