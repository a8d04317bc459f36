import ElusivSdk.ClientCrypto.CommitmentMetadata
import ElusivSdk.Transactions.RawTransaction

/-!
# The store instruction

It pays an amount into the pool and requests a commitment for it.  The request names amount, token and
index in the clear; the new format adds the commitment metadata.  Old transactions lack the metadata.

* `storeBaseCommitmentBorsh`, `storeBaseCommitmentBorshLegacy` — the two wire formats.
* `StoreInstruction.compileInstruction`, `StoreInstruction.parseInstruction` — the translated methods.
* **`StoreInstruction.parseInstruction_compile`** — the round trip.
-/

namespace ElusivSdk

open Format

def STORE_BASE_COMM_IX_CODE : ℕ := 0
def BASE_COMMITMENT_BUFFER_ACC_SEED : String := "BaseCommitmentBuffer"
def BASE_COMMITMENT_HASH_ACC_SEED : String := "BaseCommitmentHashing"
def POOL_ACC_SEED : String := "Pool"
def GOVERNOR_ACC_SEED : String := "Governor"
def STORAGE_ACC_SEED : String := "Storage"
def FEE_COLLECTOR_SEED : String := "FeeCollector"

/-! ## Wire formats -/

structure BaseCommitmentHashRequestBorsh where
  base_commitment : ℕ
  commitment_index : ℕ
  amount : ℕ
  token_id : ℕ
  commitment : ℕ
  fee_version : ℕ
  min_batching_rate : ℕ
deriving DecidableEq

structure StoreBaseCommitmentBorsh where
  instruction_index : ℕ
  hash_account_index : ℕ
  hash_account_bump : ℕ
  request : BaseCommitmentHashRequestBorsh
  metadata : Bytes
deriving DecidableEq

structure StoreBaseCommitmentBorshLegacy where
  instruction_index : ℕ
  hash_account_index : ℕ
  hash_account_bump : ℕ
  request : BaseCommitmentHashRequestBorsh
deriving DecidableEq

def baseCommitmentHashRequestBorsh : Format BaseCommitmentHashRequestBorsh :=
  ((uint 32).pair <| (uint 4).pair <| (uint 8).pair <| (uint 2).pair <| (uint 32).pair <|
    (uint 4).pair (uint 4)).iso
  { toFun := fun (a, b, c, d, e, f, g) => ⟨a, b, c, d, e, f, g⟩
    invFun := fun r => (r.base_commitment, r.commitment_index, r.amount, r.token_id, r.commitment,
      r.fee_version, r.min_batching_rate)
    left_inv := fun _ => rfl
    right_inv := fun _ => rfl }

def storeBaseCommitmentBorsh : Format StoreBaseCommitmentBorsh :=
  (((uint 1).check (· == STORE_BASE_COMM_IX_CODE)).pair <| (uint 4).pair <| (uint 1).pair <|
    baseCommitmentHashRequestBorsh.pair (bytes COMMITMENT_METADATA_LENGTH)).iso
  { toFun := fun (a, b, c, d, e) => ⟨a, b, c, d, e⟩
    invFun := fun s => (s.instruction_index, s.hash_account_index, s.hash_account_bump, s.request,
      s.metadata)
    left_inv := fun _ => rfl
    right_inv := fun _ => rfl }

def storeBaseCommitmentBorshLegacy : Format StoreBaseCommitmentBorshLegacy :=
  (((uint 1).check (· == STORE_BASE_COMM_IX_CODE)).pair <| (uint 4).pair <| (uint 1).pair
    baseCommitmentHashRequestBorsh).iso
  { toFun := fun (a, b, c, d) => ⟨a, b, c, d⟩
    invFun := fun s => (s.instruction_index, s.hash_account_index, s.hash_account_bump, s.request)
    left_inv := fun _ => rfl
    right_inv := fun _ => rfl }

/-! ## The instruction -/

structure StoreInstructionBase where
  hashAccIndex : ℕ
  coreCommitmentHash : Bytes
  commitmentHash : Bytes
  feeVersion : ℕ
  minBatchingRate : ℕ
deriving DecidableEq

structure StoreInstruction extends StoreInstructionBase where
  metadata : CommitmentMetadata
  serializedMetadata : Bytes
deriving DecidableEq

structure StoreInstructionLegacy extends StoreInstructionBase where
  amount : ℤ
  tokenType : TokenType
  assocCommIndex : ℕ
deriving DecidableEq

/-- The accounts of both formats. -/
def storeAccounts (accs : ProgramAccounts) (rvk : RVKWrapper) (nonce : ℕ) (hashingAcc : PublicKey)
    (tokenType : TokenType) (sender warden : PublicKey) : List AccountMeta :=
  let poolAcc := (accs.generateElusivPDAFrom [POOL_ACC_SEED] none).1
  let feeCollectorAcc := (accs.generateElusivPDAFrom [FEE_COLLECTOR_SEED] none).1
  let baseCommBufferAcc := (accs.generateElusivPDAFrom [BASE_COMMITMENT_BUFFER_ACC_SEED] none).1
  let isLamports := tokenType == .LAMPORTS
  let tokenAcc := fun acc => if isLamports then acc else accs.getAssociatedTokenAcc acc tokenType
  let priceAcc := fun t => if isLamports then accs.systemProgramId else accs.getPythPriceAccount t
  let tokenProgram := if isLamports then accs.systemProgramId else accs.tokenProgramId
  [⟨sender, true, false⟩,
    ⟨tokenAcc sender, false, true⟩,
    ⟨warden, true, true⟩,
    ⟨tokenAcc warden, false, true⟩,
    ⟨poolAcc, false, true⟩,
    ⟨tokenAcc poolAcc, false, true⟩,
    ⟨feeCollectorAcc, false, true⟩,
    ⟨tokenAcc feeCollectorAcc, false, true⟩,
    ⟨priceAcc .LAMPORTS, false, false⟩,
    ⟨priceAcc tokenType, false, false⟩,
    ⟨(accs.generateElusivPDAFrom [GOVERNOR_ACC_SEED] none).1, false, false⟩,
    ⟨(accs.generateElusivPDAFrom [STORAGE_ACC_SEED] none).1, false, false⟩,
    ⟨hashingAcc, false, true⟩,
    ⟨baseCommBufferAcc, false, true⟩,
    ⟨tokenProgram, false, false⟩,
    ⟨accs.systemProgramId, false, false⟩,
    ⟨rvk.getIdentifierKey nonce, false, false⟩]

namespace StoreInstructionBase

def getSenderAcc (ix : PartiallyDecodedInstruction) : Option PublicKey := ix.accounts[0]?

def getWardenAcc (ix : PartiallyDecodedInstruction) : Option PublicKey := ix.accounts[2]?

def getIdentifierAcc (ix : PartiallyDecodedInstruction) : Option PublicKey := ix.accounts[16]?

end StoreInstructionBase

namespace StoreInstruction

def parseInstruction (rvk : RVKWrapper) (ix : PartiallyDecodedInstruction) :
    Except Failure (Option StoreInstruction) :=
  match storeBaseCommitmentBorsh.parse (bs58ToBytes ix.data) with
  | none => .ok none
  | some parsed => do
      let commitmentHash := leBytes 32 parsed.request.commitment
      let metadata ← CommitmentMetadata.deserializeAndDecrypt parsed.metadata rvk commitmentHash
      pure <| some
        { hashAccIndex := parsed.hash_account_index
          coreCommitmentHash := leBytes 32 parsed.request.base_commitment
          commitmentHash := commitmentHash
          feeVersion := parsed.request.fee_version
          minBatchingRate := parsed.request.min_batching_rate
          metadata := metadata
          serializedMetadata := parsed.metadata }

/-- What is not of the format is not read. -/
lemma parseInstruction_of_parse_eq_none {ix : PartiallyDecodedInstruction}
    (h : storeBaseCommitmentBorsh.parse (bs58ToBytes ix.data) = none) (rvk : RVKWrapper) :
    parseInstruction rvk ix = .ok none := by
  unfold parseInstruction
  rw [h]

/-- What the instruction looks like on the wire. -/
def payload (ix : StoreInstruction) (bump : UInt8) : StoreBaseCommitmentBorsh :=
  { instruction_index := STORE_BASE_COMM_IX_CODE
    hash_account_index := ix.hashAccIndex
    hash_account_bump := bump.toNat
    request :=
      { base_commitment := ofLeBytes ix.coreCommitmentHash
        commitment_index := ix.metadata.assocCommIndex
        amount := ix.metadata.balance.toNat
        token_id := getNumberFromTokenType ix.metadata.tokenType
        commitment := ofLeBytes ix.commitmentHash
        fee_version := ix.feeVersion
        min_batching_rate := ix.minBatchingRate }
    metadata := ix.serializedMetadata }

def compileInstruction (ix : StoreInstruction) (accs : ProgramAccounts) (rvk : RVKWrapper)
    (nonce : ℕ) (sender warden : PublicKey) : TransactionInstruction :=
  let hashingPDA :=
    accs.generateElusivPDAFrom [BASE_COMMITMENT_HASH_ACC_SEED] (some ix.hashAccIndex)
  { keys := storeAccounts accs rvk nonce hashingPDA.1 ix.metadata.tokenType sender warden
    programId := accs.elusivProgramId
    data := storeBaseCommitmentBorsh.encode (ix.payload hashingPDA.2) }

def getTokenType (ix : StoreInstruction) : TokenType := ix.metadata.tokenType
def getAmount (ix : StoreInstruction) : ℤ := ix.metadata.balance
def getAssocCommIndex (ix : StoreInstruction) : ℕ := ix.metadata.assocCommIndex

/-- Every field is in the range of its wire field, and the metadata is the encrypted one. -/
structure WellFormed (ix : StoreInstruction) (rvk : RVKWrapper) : Prop where
  hashAccIndex_le : ix.hashAccIndex ≤ MAX_UINT32
  length_core : ix.coreCommitmentHash.length = 32
  length_hash : ix.commitmentHash.length = 32
  feeVersion_le : ix.feeVersion ≤ MAX_UINT32
  minBatchingRate_le : ix.minBatchingRate ≤ MAX_UINT32
  serialized : ix.serializedMetadata
    = (ix.metadata.serializeAndEncrypt rvk ix.commitmentHash).cipherText

lemma WellFormed.fits {ix : StoreInstruction} {rvk : RVKWrapper} (h : ix.WellFormed rvk)
    (bump : UInt8) : storeBaseCommitmentBorsh.Fits (ix.payload bump) := by
  have hmax : MAX_UINT32 < 256 ^ 4 := by decide
  have hindex : ix.metadata.assocCommIndex < 256 ^ 4 :=
    lt_of_le_of_lt ix.metadata.assocCommIndex_le (by decide)
  have htoken : getNumberFromTokenType ix.metadata.tokenType < 256 ^ 2 :=
    lt_trans (getNumberFromTokenType_lt _) (by decide)
  have hbalance : ix.metadata.balance.toNat < 256 ^ 8 := by
    have hlow := ix.metadata.balance_nonneg
    have hhigh := ix.metadata.balance_le
    have : MAX_UINT64 + 1 = 256 ^ 8 := by decide
    omega
  have hcore := ofLeBytes_lt ix.coreCommitmentHash
  have hhash := ofLeBytes_lt ix.commitmentHash
  rw [h.length_core] at hcore
  rw [h.length_hash] at hhash
  have hmeta : ix.serializedMetadata.length = COMMITMENT_METADATA_LENGTH := by
    rw [h.serialized, CommitmentMetadata.serializeAndEncrypt,
      RVKWrapper.length_cipherText_encryptMetadata, CommitmentMetadata.length_toBytes]
  have hcode : ((uint 1).check (· == STORE_BASE_COMM_IX_CODE)).Fits STORE_BASE_COMM_IX_CODE := by
    refine ⟨?_, rfl⟩
    show STORE_BASE_COMM_IX_CODE < 256 ^ 1
    decide
  exact ⟨hcode, lt_of_le_of_lt h.hashAccIndex_le hmax, bump.toNat_lt,
    ⟨hcore, hindex, hbalance, htoken, hhash, lt_of_le_of_lt h.feeVersion_le hmax,
      lt_of_le_of_lt h.minBatchingRate_le hmax⟩, hmeta⟩

/-- **The instruction is read back from what is compiled from it.** -/
theorem parseInstruction_compile {ix : StoreInstruction} {rvk : RVKWrapper}
    (h : ix.WellFormed rvk) (accs : ProgramAccounts) (nonce : ℕ) (sender warden : PublicKey) :
    parseInstruction rvk (ix.compileInstruction accs rvk nonce sender warden).reported
      = .ok (some ix) := by
  have hcore := leBytes_ofLeBytes_of_length h.length_core
  have hhash := leBytes_ofLeBytes_of_length h.length_hash
  have hdata : storeBaseCommitmentBorsh.parse
      (bs58ToBytes (ix.compileInstruction accs rvk nonce sender warden).reported.data)
      = some (ix.payload
        (accs.generateElusivPDAFrom [BASE_COMMITMENT_HASH_ACC_SEED] (some ix.hashAccIndex)).2) := by
    rw [TransactionInstruction.bs58ToBytes_reported]
    exact storeBaseCommitmentBorsh.parse_encode (h.fits _)
  have hmeta : CommitmentMetadata.deserializeAndDecrypt ix.serializedMetadata rvk ix.commitmentHash
      = .ok ix.metadata := by
    rw [h.serialized]
    exact ix.metadata.deserializeAndDecrypt_serializeAndEncrypt rvk ix.commitmentHash
  unfold parseInstruction
  simp only [hdata, payload, hhash, hmeta, hcore]
  rfl

end StoreInstruction

namespace StoreInstructionLegacy

def parseInstruction (ix : PartiallyDecodedInstruction) :
    Except Failure (Option StoreInstructionLegacy) :=
  match storeBaseCommitmentBorshLegacy.parse (bs58ToBytes ix.data) with
  | none => .ok none
  | some parsed => do
      let tokenType ← getTokenTypeFromNumber parsed.request.token_id
      pure <| some
        { tokenType := tokenType
          hashAccIndex := parsed.hash_account_index
          amount := parsed.request.amount
          coreCommitmentHash := leBytes 32 parsed.request.base_commitment
          commitmentHash := leBytes 32 parsed.request.commitment
          assocCommIndex := parsed.request.commitment_index
          feeVersion := parsed.request.fee_version
          minBatchingRate := parsed.request.min_batching_rate }

/-- What the instruction looks like on the wire. -/
def payload (ix : StoreInstructionLegacy) (bump : UInt8) : StoreBaseCommitmentBorshLegacy :=
  { instruction_index := STORE_BASE_COMM_IX_CODE
    hash_account_index := ix.hashAccIndex
    hash_account_bump := bump.toNat
    request :=
      { base_commitment := ofLeBytes ix.coreCommitmentHash
        commitment_index := ix.assocCommIndex
        amount := ix.amount.toNat
        token_id := getNumberFromTokenType ix.tokenType
        commitment := ofLeBytes ix.commitmentHash
        fee_version := ix.feeVersion
        min_batching_rate := ix.minBatchingRate } }

def compileInstruction (ix : StoreInstructionLegacy) (accs : ProgramAccounts) (rvk : RVKWrapper)
    (nonce : ℕ) (sender warden : PublicKey) : TransactionInstruction :=
  let hashingPDA :=
    accs.generateElusivPDAFrom [BASE_COMMITMENT_HASH_ACC_SEED] (some ix.hashAccIndex)
  { keys := storeAccounts accs rvk nonce hashingPDA.1 ix.tokenType sender warden
    programId := accs.elusivProgramId
    data := storeBaseCommitmentBorshLegacy.encode (ix.payload hashingPDA.2) }

/-- Every field is in the range of its wire field. -/
structure InRange (ix : StoreInstructionLegacy) : Prop where
  hashAccIndex_le : ix.hashAccIndex ≤ MAX_UINT32
  length_core : ix.coreCommitmentHash.length = 32
  length_hash : ix.commitmentHash.length = 32
  feeVersion_le : ix.feeVersion ≤ MAX_UINT32
  minBatchingRate_le : ix.minBatchingRate ≤ MAX_UINT32
  amount_nonneg : 0 ≤ ix.amount
  amount_le : ix.amount ≤ MAX_UINT64
  assocCommIndex_le : ix.assocCommIndex ≤ MAX_UINT32

variable {ix : StoreInstructionLegacy}

lemma InRange.fits (h : ix.InRange) (bump : UInt8) :
    storeBaseCommitmentBorshLegacy.Fits (ix.payload bump) := by
  have hmax : MAX_UINT32 < 256 ^ 4 := by decide
  have htoken : getNumberFromTokenType ix.tokenType < 256 ^ 2 :=
    lt_trans (getNumberFromTokenType_lt _) (by decide)
  have hamount : ix.amount.toNat < 256 ^ 8 := by
    have hlow := h.amount_nonneg
    have hhigh := h.amount_le
    have : MAX_UINT64 + 1 = 256 ^ 8 := by decide
    omega
  have hcore := ofLeBytes_lt ix.coreCommitmentHash
  have hhash := ofLeBytes_lt ix.commitmentHash
  rw [h.length_core] at hcore
  rw [h.length_hash] at hhash
  have hcode : ((uint 1).check (· == STORE_BASE_COMM_IX_CODE)).Fits STORE_BASE_COMM_IX_CODE :=
    ⟨show STORE_BASE_COMM_IX_CODE < 256 ^ 1 by decide, rfl⟩
  exact ⟨hcode, lt_of_le_of_lt h.hashAccIndex_le hmax, bump.toNat_lt,
    hcore, lt_of_le_of_lt h.assocCommIndex_le hmax, hamount, htoken, hhash,
    lt_of_le_of_lt h.feeVersion_le hmax, lt_of_le_of_lt h.minBatchingRate_le hmax⟩

/-- **The instruction is read back from what is compiled from it.** -/
theorem parseInstruction_compile (h : ix.InRange) (accs : ProgramAccounts) (rvk : RVKWrapper)
    (nonce : ℕ) (sender warden : PublicKey) :
    parseInstruction (ix.compileInstruction accs rvk nonce sender warden).reported
      = .ok (some ix) := by
  have hcore := leBytes_ofLeBytes_of_length h.length_core
  have hhash := leBytes_ofLeBytes_of_length h.length_hash
  have hdata : storeBaseCommitmentBorshLegacy.parse
      (bs58ToBytes (ix.compileInstruction accs rvk nonce sender warden).reported.data)
      = some (ix.payload
        (accs.generateElusivPDAFrom [BASE_COMMITMENT_HASH_ACC_SEED] (some ix.hashAccIndex)).2) := by
    rw [TransactionInstruction.bs58ToBytes_reported]
    exact storeBaseCommitmentBorshLegacy.parse_encode (h.fits _)
  unfold parseInstruction
  simp only [hdata, payload, hhash, hcore, getTokenTypeFromNumber_getNumber,
    Int.toNat_of_nonneg h.amount_nonneg]
  rfl

/-- **The reader of the new format runs past the end of what is compiled from a legacy instruction**: the
metadata is missing. -/
theorem decode_compile (h : ix.InRange) (accs : ProgramAccounts) (rvk : RVKWrapper)
    (nonce : ℕ) (sender warden : PublicKey) : storeBaseCommitmentBorsh.decode
      (ix.compileInstruction accs rvk nonce sender warden).data = none := by
  have hfits := h.fits (accs.generateElusivPDAFrom [BASE_COMMITMENT_HASH_ACC_SEED]
    (some ix.hashAccIndex)).2
  have hmetadata : (bytes COMMITMENT_METADATA_LENGTH).decode [] = none :=
    bytes_decode_eq_none (by decide)
  refine iso_decode_eq_none (pair_decode_eq_none_right hfits.1 (pair_decode_eq_none_right hfits.2.1
    (pair_decode_eq_none_right hfits.2.2.1 ?_))) _
  have hrequest := pair_decode_eq_none_right hfits.2.2.2 hmetadata
  rwa [List.append_nil] at hrequest

end StoreInstructionLegacy

end ElusivSdk
