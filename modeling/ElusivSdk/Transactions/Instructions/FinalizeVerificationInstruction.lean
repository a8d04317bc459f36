import ElusivSdk.ClientCrypto.Encryption
import ElusivSdk.Library.Program
import ElusivSdk.Transactions.RawTransaction

/-!
# The finalize verification instruction

It ends a send whose proof has been verified, and carries the owner of the wallet, encrypted with key and
iv of the nonce.  The iv takes 32 bytes on the wire; the second half of them is zero.

* `finalizeVerificationBorsh` — the wire format.
* `FinalizeVerificationInstruction.parseInstructionFromViewingKey`,
  `FinalizeVerificationInstruction.compile` — the translated parser and writer.
* **`FinalizeVerificationInstruction.parse_compile`** — the round trip.
-/

namespace ElusivSdk

open Format

def FINALIZE_VERIFICATION_IX_CODE : ℕ := 11

/-! ## Wire format -/

structure FinalizeSendDataBorsh where
  total_amount : ℕ
  token_id : ℕ
  mt_index : ℕ
  commitment_index : ℕ
  iv : ℕ
  encrypted_owner : ℕ
deriving DecidableEq

structure FinalizeVerificationBorsh where
  verification_account_index : ℕ
  data : FinalizeSendDataBorsh
  uses_memo : Bool
deriving DecidableEq

def finalizeSendDataBorsh : Format FinalizeSendDataBorsh :=
  ((uint 8).pair <| (uint 2).pair <| (uint 4).pair <| (uint 4).pair <| (uint 32).pair (uint 32)).iso
  { toFun := fun (a, b, c, d, e, f) => ⟨a, b, c, d, e, f⟩
    invFun := fun s => (s.total_amount, s.token_id, s.mt_index, s.commitment_index, s.iv,
      s.encrypted_owner)
    left_inv := fun _ => rfl
    right_inv := fun _ => rfl }

def finalizeVerificationBorsh : Format FinalizeVerificationBorsh :=
  variant (UInt8.ofNat FINALIZE_VERIFICATION_IX_CODE) <|
    ((uint 1).pair <| finalizeSendDataBorsh.pair bool).iso
  { toFun := fun (a, b, c) => ⟨a, b, c⟩
    invFun := fun s => (s.verification_account_index, s.data, s.uses_memo)
    left_inv := fun _ => rfl
    right_inv := fun _ => rfl }

/-! ## The instruction -/

structure FinalizeVerificationInstruction where
  amount : ℤ
  tokenId : TokenType
  mtIndex : ℕ
  encryptedOwner : EncryptedValue
  verificationAccountIndex : ℕ
  owner : PublicKey
deriving DecidableEq

namespace FinalizeVerificationInstruction

def getRecipientAcc (ix : PartiallyDecodedInstruction) : Option PublicKey := ix.accounts[0]?

def getIdentifierAcc (ix : PartiallyDecodedInstruction) : Option PublicKey := ix.accounts[1]?

def getReferenceKeyAcc (ix : PartiallyDecodedInstruction) : Option PublicKey := ix.accounts[2]?

def getVerificationAcc (ix : PartiallyDecodedInstruction) : Option PublicKey := ix.accounts[5]?

/-- Decryption keeps the length, so that what comes out is a key. -/
def decryptOwner (p : Primitives) (encryptedOwner : ℕ) (iv key : Bytes) : PublicKey where
  bytes := p.decryptAES256CTRWithKey { cipherText := leBytes 32 encryptedOwner, iv := iv } key
  length_eq := by
    rw [Primitives.decryptAES256CTRWithKey, p.length_addKeyStream, length_leBytes]

def parseInstructionFromViewingKey (p : Primitives) (ix : PartiallyDecodedInstruction) (key : Bytes) :
    Except Failure (Option FinalizeVerificationInstruction) :=
  match finalizeVerificationBorsh.parse (bs58ToBytes ix.data) with
  | none => .ok none
  | some parsed =>
      let rawIV := leBytes 32 parsed.data.iv
      let iv := rawIV.take 16
      let ivPadding := rawIV.drop 16
      if ivPadding.all (· == 0) then do
        let tokenId ← getTokenTypeFromNumber parsed.data.token_id
        pure <| some
          { amount := parsed.data.total_amount
            tokenId := tokenId
            mtIndex := parsed.data.mt_index
            encryptedOwner := { cipherText := leBytes 32 parsed.data.encrypted_owner, iv := iv }
            verificationAccountIndex := parsed.verification_account_index
            owner := decryptOwner p parsed.data.encrypted_owner iv key }
      else .ok none

/-- What the instruction looks like on the wire. -/
def payload (ix : FinalizeVerificationInstruction) (usesMemo : Bool) (commIndex : ℕ) :
    FinalizeVerificationBorsh :=
  { verification_account_index := ix.verificationAccountIndex
    data :=
      { total_amount := ix.amount.toNat
        token_id := getNumberFromTokenType ix.tokenId
        mt_index := ix.mtIndex
        commitment_index := commIndex
        iv := ofLeBytes (padLE ix.encryptedOwner.iv 32)
        encrypted_owner := ofLeBytes ix.encryptedOwner.cipherText }
    uses_memo := usesMemo }

def compile (ix : FinalizeVerificationInstruction) (usesMemo : Bool) (commIndex : ℕ) : Bytes :=
  finalizeVerificationBorsh.encode (ix.payload usesMemo commIndex)

/-- Every field is in the range of its wire field. -/
structure InRange (ix : FinalizeVerificationInstruction) : Prop where
  amount_nonneg : 0 ≤ ix.amount
  amount_le : ix.amount ≤ MAX_UINT64
  mtIndex_le : ix.mtIndex ≤ MAX_UINT32
  length_iv : ix.encryptedOwner.iv.length = 16
  length_cipherText : ix.encryptedOwner.cipherText.length = 32
  verificationAccountIndex_lt : ix.verificationAccountIndex < 256

variable {ix : FinalizeVerificationInstruction}

/-- The iv on the wire: its bytes, and zeros. -/
lemma InRange.wireIV_eq (h : ix.InRange) : leBytes 32 (ofLeBytes (padLE ix.encryptedOwner.iv 32))
    = ix.encryptedOwner.iv ++ List.replicate 16 0 := by
  have hpad : padLE ix.encryptedOwner.iv 32 = ix.encryptedOwner.iv ++ List.replicate 16 0 := by
    rw [padLE, h.length_iv]
  have hlen : (ix.encryptedOwner.iv ++ List.replicate 16 (0 : UInt8)).length = 32 := by
    rw [List.length_append, h.length_iv, List.length_replicate]
  have hbytes := leBytes_ofLeBytes_of_length hlen
  rw [hpad, hbytes]

lemma InRange.fits (h : ix.InRange) (usesMemo : Bool) {commIndex : ℕ}
    (hcomm : commIndex ≤ MAX_UINT32) :
    finalizeVerificationBorsh.Fits (ix.payload usesMemo commIndex) := by
  have hmax : MAX_UINT32 < 256 ^ 4 := by decide
  have hamount : ix.amount.toNat < 256 ^ 8 := by
    have hlow := h.amount_nonneg
    have hhigh := h.amount_le
    have : MAX_UINT64 + 1 = 256 ^ 8 := by decide
    omega
  have htoken : getNumberFromTokenType ix.tokenId < 256 ^ 2 :=
    lt_trans (getNumberFromTokenType_lt _) (by decide)
  have hiv : ofLeBytes (padLE ix.encryptedOwner.iv 32) < 256 ^ 32 := by
    have hlt := ofLeBytes_lt (padLE ix.encryptedOwner.iv 32)
    have hlen : (padLE ix.encryptedOwner.iv 32).length = 32 := by
      rw [padLE, List.length_append, List.length_replicate, h.length_iv]
    rwa [hlen] at hlt
  have hcipher := ofLeBytes_lt ix.encryptedOwner.cipherText
  rw [h.length_cipherText] at hcipher
  exact ⟨h.verificationAccountIndex_lt, ⟨hamount, htoken, lt_of_le_of_lt h.mtIndex_le hmax,
    lt_of_le_of_lt hcomm hmax, hiv, hcipher⟩, trivial⟩

/-- The owner comes out with the key that went in. -/
lemma decryptOwner_eq (p : Primitives) {encryptedOwner : EncryptedValue} {owner : PublicKey}
    {key iv : Bytes} (hlen : encryptedOwner.cipherText.length = 32)
    (howner : encryptedOwner = p.encryptAES256CTRWithKey ⟨key, iv, owner.bytes⟩) :
    decryptOwner p (ofLeBytes encryptedOwner.cipherText) encryptedOwner.iv key = owner := by
  have hcipher := leBytes_ofLeBytes_of_length hlen
  have hplain : p.decryptAES256CTRWithKey encryptedOwner key = owner.bytes := by
    rw [howner]
    exact p.decryptAES256CTRWithKey_encrypt ⟨key, iv, owner.bytes⟩
  refine PublicKey.eq_of_bytes_eq ?_
  dsimp only [decryptOwner]
  rw [hcipher]
  exact hplain

/-- **The instruction is read back from what is compiled from it**, by whoever has the key that its owner
was encrypted with. -/
theorem parse_compile (p : Primitives) (h : ix.InRange) {key iv : Bytes}
    (howner : ix.encryptedOwner = p.encryptAES256CTRWithKey ⟨key, iv, ix.owner.bytes⟩)
    (usesMemo : Bool) {commIndex : ℕ} (hcomm : commIndex ≤ MAX_UINT32)
    {raw : PartiallyDecodedInstruction} (hraw : raw.data = bytesToBs58 (ix.compile usesMemo commIndex)) :
    parseInstructionFromViewingKey p raw key = .ok (some ix) := by
  have hcipher := leBytes_ofLeBytes_of_length h.length_cipherText
  have hparse : finalizeVerificationBorsh.parse (bs58ToBytes raw.data)
      = some (ix.payload usesMemo commIndex) := by
    rw [hraw, bs58ToBytes_bytesToBs58]
    exact finalizeVerificationBorsh.parse_encode (h.fits usesMemo hcomm)
  have hdecrypt := decryptOwner_eq p h.length_cipherText howner
  have htake : (ix.encryptedOwner.iv ++ List.replicate 16 0).take 16 = ix.encryptedOwner.iv :=
    List.take_left' h.length_iv
  have hdrop : (ix.encryptedOwner.iv ++ List.replicate 16 0).drop 16 = List.replicate 16 (0 : UInt8) :=
    List.drop_left' h.length_iv
  have hzeros : (List.replicate 16 (0 : UInt8)).all (· == 0) = true := by decide
  rw [parseInstructionFromViewingKey, hparse]
  simp only [payload, h.wireIV_eq, htake, hdrop, hzeros, if_true, hdecrypt, hcipher,
    getTokenTypeFromNumber_getNumber, Int.toNat_of_nonneg h.amount_nonneg]
  rfl

lemma decryptOwner_eq_iff (p : Primitives) {encryptedOwner : ℕ} {iv key : Bytes} {owner : PublicKey} :
    decryptOwner p encryptedOwner iv key = owner ↔ p.decryptAES256CTRWithKey
      { cipherText := leBytes 32 encryptedOwner, iv := iv } key = owner.bytes := by
  constructor
  · rintro rfl
    rw [decryptOwner]
  · intro h
    refine PublicKey.eq_of_bytes_eq ?_
    dsimp only [decryptOwner]
    exact h

/-- The owner that is read is decrypted from the bytes of the encrypted owner. -/
lemma owner_of_parse {p : Primitives} {raw : PartiallyDecodedInstruction} {key : Bytes}
    (h : parseInstructionFromViewingKey p raw key = .ok (some ix)) :
    ∃ encryptedOwner, ix.encryptedOwner.cipherText = leBytes 32 encryptedOwner ∧
      ix.owner = decryptOwner p encryptedOwner ix.encryptedOwner.iv key := by
  rw [parseInstructionFromViewingKey] at h
  cases hparse : finalizeVerificationBorsh.parse (bs58ToBytes raw.data) with
  | none =>
      rw [hparse] at h
      cases Except.ok.inj h
  | some data =>
      rw [hparse] at h
      dsimp only at h
      generalize leBytes 32 data.data.iv = rawIV at h
      generalize hcipher : leBytes 32 data.data.encrypted_owner = cipherText at h
      split_ifs at h
      · obtain ⟨tokenId, -, h⟩ := Program.bind_eq_ok.mp h
        obtain rfl := Option.some.inj (Except.ok.inj h)
        exact ⟨data.data.encrypted_owner, hcipher.symm, rfl⟩
      · cases Except.ok.inj h

/-- **The owner that is read is the one that was encrypted** with the key. -/
lemma owner_eq_iff {p : Primitives} {raw : PartiallyDecodedInstruction} {key : Bytes}
    (h : parseInstructionFromViewingKey p raw key = .ok (some ix)) {owner : PublicKey} :
    ix.owner = owner ↔
      ix.encryptedOwner = p.encryptAES256CTRWithKey ⟨key, ix.encryptedOwner.iv, owner.bytes⟩ := by
  obtain ⟨encryptedOwner, hcipher, howner⟩ := owner_of_parse h
  rw [howner, decryptOwner_eq_iff, ← hcipher]
  exact p.decryptAES256CTRWithKey_eq_iff

end FinalizeVerificationInstruction

end ElusivSdk
