import ElusivSdk.Library.Program
import ElusivSdk.TxBuilding.InstructionBuilding

/-!
# Proofs of sends

A send is proved with the circuits package, which is not part of this repository, and numbers are written
with the serialization package.

* `IncompleteSendQuadraProofInputs` — what is known of a send before its fee is.
* `SendQuadraPublicInputs` — what the proof says in public.
* `Circuits`, `Serialization` — the two packages; `plainCircuits`, `plainSerialization` for examples.
-/

namespace ElusivSdk

open Format

def TOO_LARGE_SIZE (inputName : String) (size expectedSize : ℕ) : String :=
  "Input: " ++ inputName ++ " has size " ++ toString size ++ ", maximum size is " ++
    toString expectedSize

/-! ## Proofs -/

/-- The inputs that enter the proof as one hash. -/
structure ExtraDataHashInputs where
  recipient : ℕ
  identifier : ℕ
  iv : ℕ
  encryptedOwner : ℕ
  solanaPayId : ℕ
  isAssociatedTokenAccount : Bool
  optionalFeeCollector : ℕ
  optionalFeeAmount : ℤ
  memo : Option Bytes
deriving DecidableEq

/-- What is known of a send before its fee is. -/
structure IncompleteSendQuadraProofInputs where
  inputCommitments : List IncompleteCommitment
  nHashes : List ℕ
  roots : List ℕ
  feeVersion : ℕ
  tokenId : ℕ
  hashedData : ExtraDataHashInputs
deriving DecidableEq

structure SendQuadraPublicInputs where
  roots : List ℕ
  nullifierHashes : List ℕ
  nextCommitment : ℕ
  nextAssocCommIndex : ℕ
  feeVersion : ℕ
  amount : ℤ
  tokenId : ℕ
  extraDataHashInputs : ExtraDataHashInputs
  serializedMetadata : ℕ
deriving DecidableEq

/-- The points of the proof are left out. -/
structure SendQuadraProof where
  publicInputs : SendQuadraPublicInputs
deriving DecidableEq

/-- The private balance of a set of commitments. -/
def sumBalance (comms : List IncompleteCommitment) : ℤ := (comms.map IncompleteCommitment.balance).sum

/-- What a proof says in public: the amount is what the input commitments hold and the next commitment
does not. -/
def IncompleteSendQuadraProofInputs.complete (inputs : IncompleteSendQuadraProofInputs)
    (poseidon : Poseidon) (nextCommitment : IncompleteCommitment) (serializedMetadata : ℕ) :
    SendQuadraPublicInputs :=
  { roots := inputs.roots
    nullifierHashes := inputs.nHashes
    nextCommitment := ofLeBytes (poseidon.getCommitmentHash nextCommitment)
    nextAssocCommIndex := nextCommitment.assocCommIndex
    feeVersion := inputs.feeVersion
    amount := sumBalance inputs.inputCommitments - nextCommitment.balance
    tokenId := inputs.tokenId
    extraDataHashInputs := inputs.hashedData
    serializedMetadata := serializedMetadata }

/-- The circuits package. -/
structure Circuits (poseidon : Poseidon) where
  nHashes : List IncompleteCommitment → List ℕ
  roots : List IncompleteCommitment → List ℕ
  generateSendQuadraProof : IncompleteSendQuadraProofInputs → IncompleteCommitment → ℕ →
    Except Failure SendQuadraProof
  publicInputs_eq : ∀ {inputs nextCommitment serializedMetadata proof},
    generateSendQuadraProof inputs nextCommitment serializedMetadata = .ok proof →
    proof.publicInputs = inputs.complete poseidon nextCommitment serializedMetadata

/-- The serialization package: what its functions return is exact. -/
structure Serialization where
  bigIntToNumber : ℤ → Except Failure ℤ
  bigIntToUint8ArrLE : ℕ → Bytes
  serializeUintLE : ℕ → ℕ → Except Failure Bytes
  bigIntToNumber_exact : ∀ {b n}, bigIntToNumber b = .ok n → n = b
  ofLeBytes_bigIntToUint8ArrLE : ∀ b, ofLeBytes (bigIntToUint8ArrLE b) = b
  serializeUintLE_exact : ∀ {n length bytes}, serializeUintLE n length = .ok bytes →
    bytes = leBytes length n

/-! ### Packages without cryptography -/

def plainCircuits : Circuits plainPoseidon where
  nHashes comms := comms.map fun comm => comm.balance.toNat + 1
  roots comms := comms.map fun _ => 1
  generateSendQuadraProof inputs nextCommitment serializedMetadata :=
    .ok ⟨inputs.complete plainPoseidon nextCommitment serializedMetadata⟩
  publicInputs_eq h := by
    obtain rfl := Except.ok.inj h
    rfl

def plainSerialization : Serialization where
  bigIntToNumber b :=
    if b ≤ MAX_SAFE_INTEGER then .ok b else .error (.error "Value too large for number type")
  bigIntToUint8ArrLE b := if b < 256 ^ 32 then leBytes 32 b else leBytes b b
  serializeUintLE n length :=
    if n < 256 ^ length then .ok (leBytes length n) else .error (.error "Value too large")
  bigIntToNumber_exact {b n} h := by
    split_ifs at h
    exact (Except.ok.inj h).symm
  ofLeBytes_bigIntToUint8ArrLE b := by
    split_ifs with hb
    · exact ofLeBytes_leBytes hb
    · exact ofLeBytes_leBytes (Nat.lt_pow_self (by decide))
  serializeUintLE_exact {n length bytes} h := by
    split_ifs at h
    exact (Except.ok.inj h).symm

end ElusivSdk
