import ElusivSdk.Transactions.Instructions.StoreInstruction

/-!
# The compute instruction

The second instruction of a topup starts the hashing of the commitment.  The program reads an account
index and a nonce of its own from it; the wallet appends what it wants to read back later, encrypted
with key and iv of its nonce: the private balance, the recipient flag and a checksum.

* `computeBaseCommitmentHashBorsh`, `computeHashIxEncryptedPayloadBorsh` — the two wire formats.
* **`ComputeHashInstruction.parseInstruction_compile`** — the round trip.
-/

namespace ElusivSdk

open Format

def COMPUTE_COMM_HASH_IX_CODE : ℕ := 1

/-! ## Wire formats -/

structure ComputeBaseCommitmentHashBorsh where
  hash_account_index : ℕ
  nonce : ℕ
  iv : Bytes
  cipher_text : Bytes
deriving DecidableEq

structure ComputeHashIxEncryptedPayloadBorsh where
  curr_priv_balance : ℕ
  is_recipient : Bool
  checksum : Bytes
deriving DecidableEq

def computeBaseCommitmentHashBorsh : Format ComputeBaseCommitmentHashBorsh :=
  variant (UInt8.ofNat COMPUTE_COMM_HASH_IX_CODE) <|
    ((uint 4).pair <| (uint 4).pair <| (bytes 16).pair (bytes 15)).iso
  { toFun := fun (a, b, c, d) => ⟨a, b, c, d⟩
    invFun := fun s => (s.hash_account_index, s.nonce, s.iv, s.cipher_text)
    left_inv := fun _ => rfl
    right_inv := fun _ => rfl }

lemma computeBaseCommitmentHashBorsh_fits {s : ComputeBaseCommitmentHashBorsh} :
    computeBaseCommitmentHashBorsh.Fits s ↔ s.hash_account_index < 256 ^ 4 ∧ s.nonce < 256 ^ 4 ∧
      s.iv.length = 16 ∧ s.cipher_text.length = 15 :=
  Iff.rfl

def computeHashIxEncryptedPayloadBorsh : Format ComputeHashIxEncryptedPayloadBorsh :=
  ((uint 8).pair <| bool.pair (bytes 6)).iso
  { toFun := fun (a, b, c) => ⟨a, b, c⟩
    invFun := fun s => (s.curr_priv_balance, s.is_recipient, s.checksum)
    left_inv := fun _ => rfl
    right_inv := fun _ => rfl }

/-! ## The instruction -/

structure ComputeHashInstruction where
  nonce : ℕ
  hashAccIndex : ℕ
  currPrivateBalance : ℤ
  isRecipient : Bool
  programNonce : ℕ
deriving DecidableEq

namespace ComputeHashInstruction

/-- `elusiv` in UTF-8. -/
def CHECKSUM : Bytes := [101, 108, 117, 115, 105, 118]

/-- `none` for any failure: not the format, not our key, another checksum. -/
def parseEncryptedData (rvk : RVKWrapper) (nonce : ℕ) (encryptedData : EncryptedValue) :
    Option ComputeHashIxEncryptedPayloadBorsh := do
  let parsed ← computeHashIxEncryptedPayloadBorsh.parse
    (rvk.decryptSeededSaltedAES256 encryptedData nonce)
  if parsed.checksum = CHECKSUM then some parsed else none

def parseInstruction (ix : PartiallyDecodedInstruction) (rvk : RVKWrapper) (nonce : ℕ) :
    Option ComputeHashInstruction := do
  let parsed ← computeBaseCommitmentHashBorsh.parse (bs58ToBytes ix.data)
  let decryptedData ← parseEncryptedData rvk nonce { cipherText := parsed.cipher_text, iv := parsed.iv }
  some
    { nonce := nonce
      hashAccIndex := parsed.hash_account_index
      currPrivateBalance := decryptedData.curr_priv_balance
      isRecipient := decryptedData.is_recipient
      programNonce := parsed.nonce }

def encryptedPayload (ix : ComputeHashInstruction) : ComputeHashIxEncryptedPayloadBorsh :=
  { curr_priv_balance := ix.currPrivateBalance.toNat
    is_recipient := ix.isRecipient
    checksum := CHECKSUM }

def compileEncryptedData (ix : ComputeHashInstruction) (rvk : RVKWrapper) : EncryptedValue :=
  rvk.encryptSeededSaltedAES256 (computeHashIxEncryptedPayloadBorsh.encode ix.encryptedPayload) ix.nonce

def getAccounts (ix : ComputeHashInstruction) (accs : ProgramAccounts) : List AccountMeta :=
  [⟨(accs.generateElusivPDAFrom [BASE_COMMITMENT_HASH_ACC_SEED] (some ix.hashAccIndex)).1, false, true⟩]

/-- What the instruction looks like on the wire. -/
def payload (ix : ComputeHashInstruction) (rvk : RVKWrapper) : ComputeBaseCommitmentHashBorsh :=
  { hash_account_index := ix.hashAccIndex
    nonce := ix.programNonce
    iv := (ix.compileEncryptedData rvk).iv
    cipher_text := (ix.compileEncryptedData rvk).cipherText }

def compileInstruction (ix : ComputeHashInstruction) (rvk : RVKWrapper) (accs : ProgramAccounts) :
    TransactionInstruction :=
  { keys := ix.getAccounts accs
    programId := accs.elusivProgramId
    data := computeBaseCommitmentHashBorsh.encode (ix.payload rvk) }

/-! ## The round trip -/

/-- Every field is in the range of its wire field. -/
structure WellFormed (ix : ComputeHashInstruction) : Prop where
  hashAccIndex_le : ix.hashAccIndex ≤ MAX_UINT32
  programNonce_le : ix.programNonce ≤ MAX_UINT32
  currPrivateBalance_nonneg : 0 ≤ ix.currPrivateBalance
  currPrivateBalance_le : ix.currPrivateBalance ≤ MAX_UINT64

/-- The encrypted payload fits when the private balance does. -/
lemma encryptedPayload_fits (ix : ComputeHashInstruction)
    (hhigh : ix.currPrivateBalance ≤ MAX_UINT64) :
    computeHashIxEncryptedPayloadBorsh.Fits ix.encryptedPayload := by
  have hbalance : ix.currPrivateBalance.toNat < 256 ^ 8 := by
    have hmax : MAX_UINT64 + 1 = 256 ^ 8 := by decide
    omega
  exact ⟨hbalance, trivial, rfl⟩

namespace WellFormed

variable {ix : ComputeHashInstruction} (h : ix.WellFormed)
include h

lemma payload_fits (rvk : RVKWrapper) : computeBaseCommitmentHashBorsh.Fits (ix.payload rvk) := by
  have hmax : MAX_UINT32 < 256 ^ 4 := by decide
  have hcipher : (ix.payload rvk).cipher_text.length = 15 := by
    simp only [payload, compileEncryptedData, rvk.length_cipherText_encryptSeededSaltedAES256]
    rfl
  have hiv : (ix.payload rvk).iv.length = 16 := by
    simp only [payload, compileEncryptedData, rvk.length_iv_encryptSeededSaltedAES256]
  exact computeBaseCommitmentHashBorsh_fits.mpr ⟨lt_of_le_of_lt h.hashAccIndex_le hmax,
    lt_of_le_of_lt h.programNonce_le hmax, hiv, hcipher⟩

lemma parseEncryptedData_compile (rvk : RVKWrapper) :
    parseEncryptedData rvk ix.nonce (ix.compileEncryptedData rvk) = some ix.encryptedPayload := by
  rw [parseEncryptedData, compileEncryptedData, rvk.decryptSeededSaltedAES256_encrypt,
    computeHashIxEncryptedPayloadBorsh.parse_encode
      (encryptedPayload_fits ix h.currPrivateBalance_le)]
  rfl

end WellFormed

/-- **The instruction is read back from what is compiled from it.** -/
theorem parseInstruction_compile {ix : ComputeHashInstruction} (h : ix.WellFormed)
    (rvk : RVKWrapper) (accs : ProgramAccounts) :
    parseInstruction (ix.compileInstruction rvk accs).reported rvk ix.nonce = some ix := by
  have hdata : computeBaseCommitmentHashBorsh.parse
      (bs58ToBytes (ix.compileInstruction rvk accs).reported.data) = some (ix.payload rvk) := by
    show computeBaseCommitmentHashBorsh.parse (bs58ToBytes (bytesToBs58 _)) = _
    rw [bs58ToBytes_bytesToBs58]
    exact computeBaseCommitmentHashBorsh.parse_encode (h.payload_fits rvk)
  have hbalance : ((ix.encryptedPayload.curr_priv_balance : ℕ) : ℤ) = ix.currPrivateBalance :=
    Int.toNat_of_nonneg h.currPrivateBalance_nonneg
  have hdecrypted : parseEncryptedData rvk ix.nonce
      { cipherText := (ix.payload rvk).cipher_text, iv := (ix.payload rvk).iv }
      = some ix.encryptedPayload := by
    have hcompiled := h.parseEncryptedData_compile rvk
    simp only [payload]
    -- nothing more is known of the ciphertext than that it is read back
    generalize ix.compileEncryptedData rvk = encrypted at hcompiled ⊢
    exact hcompiled
  rw [parseInstruction, hdata]
  simp only [Option.bind_eq_bind, Option.bind_some, hdecrypted, hbalance]
  rfl

end ComputeHashInstruction

end ElusivSdk
