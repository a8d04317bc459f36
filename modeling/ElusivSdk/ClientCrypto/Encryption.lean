import ElusivSdk.Library.Format
import ElusivSdk.Types

/-!
# Key derivation and encryption

Every secret of the wallet is derived from its seed with `hkdf`, from a salt and an info string: the root
viewing key from the seed, everything else but the nullifiers from the root viewing key.

* `Primitives` — the hash based derivation function and the key stream of AES in counter mode.
* `CtrCall` — one use of AES in counter mode: the key, the iv and the bytes that are encrypted.
* `RVKWrapper`, `SeedWrapper` — what the rest of the SDK sees of the root viewing key and of the seed.
* **`decryptSeededSaltedAES256_encrypt`**, **`decryptMetadata_encrypt`** — decryption undoes encryption.
-/

namespace ElusivSdk

open Format

/-- `hkdf` makes 255 blocks of its hash at most. -/
def HKDF_MAX_LENGTH : ℕ := 255 * 32

/-- The cryptographic primitives.  `keyStream key iv` are the encrypted counter blocks, byte by byte. -/
structure Primitives where
  /-- `hkdf(sha256, ikm, salt, info, length)`, for lengths that it does not refuse. -/
  hkdf : Bytes → Bytes → String → ℕ → Bytes
  hkdf_length : ∀ ikm salt info length, length ≤ HKDF_MAX_LENGTH →
    (hkdf ikm salt info length).length = length
  keyStream : Bytes → Bytes → ℕ → UInt8

/-! ## AES in counter mode -/

/-- One use of AES in counter mode. -/
structure CtrCall where
  key : Bytes
  iv : Bytes
  toEncrypt : Bytes
deriving DecidableEq

namespace Primitives

variable (p : Primitives)

/-- Counter mode adds the key stream; encryption and decryption are the same. -/
def addKeyStream (key iv bytes : Bytes) : Bytes :=
  bytes.mapIdx fun i b => b ^^^ p.keyStream key iv i

@[simp]
lemma length_addKeyStream (key iv bytes : Bytes) :
    (p.addKeyStream key iv bytes).length = bytes.length := List.length_mapIdx

@[simp]
lemma addKeyStream_addKeyStream (key iv bytes : Bytes) :
    p.addKeyStream key iv (p.addKeyStream key iv bytes) = bytes := by
  refine List.ext_getElem (by simp) fun i hi hi' => ?_
  simp only [addKeyStream, List.getElem_mapIdx, UInt8.xor_assoc, UInt8.xor_self, UInt8.xor_zero]

def encryptAES256CTRWithKey (call : CtrCall) : EncryptedValue :=
  { cipherText := p.addKeyStream call.key call.iv call.toEncrypt, iv := call.iv }

def decryptAES256CTRWithKey (toDecrypt : EncryptedValue) (key : Bytes) : Bytes :=
  p.addKeyStream key toDecrypt.iv toDecrypt.cipherText

@[simp]
lemma decryptAES256CTRWithKey_encrypt (call : CtrCall) :
    p.decryptAES256CTRWithKey (p.encryptAES256CTRWithKey call) call.key = call.toEncrypt :=
  p.addKeyStream_addKeyStream call.key call.iv call.toEncrypt

/-- What is decrypted is what was encrypted. -/
lemma decryptAES256CTRWithKey_eq_iff {encrypted : EncryptedValue} {key plain : Bytes} :
    p.decryptAES256CTRWithKey encrypted key = plain ↔
      encrypted = p.encryptAES256CTRWithKey ⟨key, encrypted.iv, plain⟩ := by
  constructor
  · rintro rfl
    exact congrArg₂ EncryptedValue.mk (p.addKeyStream_addKeyStream _ _ _).symm rfl
  · intro h
    rw [h]
    exact p.decryptAES256CTRWithKey_encrypt ⟨key, encrypted.iv, plain⟩

/-! ## Key derivation -/

/-- The salt is a number, written in four bytes. -/
def hkdfWrapper (ikm : Bytes) (salt : ℕ) (info : String) (length : ℕ) : Bytes :=
  p.hkdf ikm (leBytes 4 salt) info length

def generateRootViewingKey (seed : Bytes) : Bytes := p.hkdfWrapper seed 0 "Root Viewing Key" 32

def generateCommMetadataKey (ikm commHash : Bytes) : Bytes := p.hkdf ikm commHash "Metadata Key" 32

/-- `padLE(bytes, 32)` for 31 bytes. -/
def padKey (bytes : Bytes) : Bytes := bytes ++ [0]

def generateId (rootViewingKey : Bytes) (salt : ℕ) : PublicKey where
  bytes := padKey (p.hkdfWrapper rootViewingKey salt "Identifier Key" 31)
  length_eq := by rw [padKey, List.length_append, hkdfWrapper, p.hkdf_length _ _ _ _ (by decide)]; rfl

def generateSeededSaltedAES256Key (ikm : Bytes) (salt : ℕ) : Bytes :=
  p.hkdfWrapper ikm salt "AES256 Key" 32

def generateSeededSaltedIV (seed : Bytes) (salt : ℕ) : Bytes :=
  p.hkdfWrapper seed salt "AES256 IV" 16

def generateSeededSaltedNullifier (seed : Bytes) (salt : ℕ) : Bytes :=
  padKey (p.hkdfWrapper seed salt "Nullifier" 31)

end Primitives

/-! ## The wrappers -/

structure RVKWrapper where
  primitives : Primitives
  rvk : Bytes

namespace RVKWrapper

variable (w : RVKWrapper)

def getIdentifierKey (nonce : ℕ) : PublicKey := w.primitives.generateId w.rvk nonce

def generateDecryptionKey (nonce : ℕ) : Bytes :=
  w.primitives.generateSeededSaltedAES256Key w.rvk nonce

/-- Key and iv come from the nonce. -/
def seededSaltedCall (payload : Bytes) (nonce : ℕ) : CtrCall :=
  { key := w.primitives.generateSeededSaltedAES256Key w.rvk nonce
    iv := w.primitives.generateSeededSaltedIV w.rvk nonce
    toEncrypt := payload }

/-- Key and iv come from the commitment hash. -/
def metadataCall (metadata commHash : Bytes) : CtrCall :=
  { key := w.primitives.generateCommMetadataKey w.rvk commHash
    iv := commHash.take 16
    toEncrypt := metadata }

def encryptSeededSaltedAES256 (payload : Bytes) (nonce : ℕ) : EncryptedValue :=
  w.primitives.encryptAES256CTRWithKey (w.seededSaltedCall payload nonce)

def decryptSeededSaltedAES256 (cipherText : EncryptedValue) (nonce : ℕ) : Bytes :=
  w.primitives.decryptAES256CTRWithKey cipherText
    (w.primitives.generateSeededSaltedAES256Key w.rvk nonce)

def encryptMetadata (metadata commHash : Bytes) : EncryptedValue :=
  w.primitives.encryptAES256CTRWithKey (w.metadataCall metadata commHash)

def decryptMetadata (metadata commHash : Bytes) : Bytes :=
  w.primitives.decryptAES256CTRWithKey { cipherText := metadata, iv := commHash.take 16 }
    (w.primitives.generateCommMetadataKey w.rvk commHash)

@[simp]
lemma decryptSeededSaltedAES256_encrypt (payload : Bytes) (nonce : ℕ) :
    w.decryptSeededSaltedAES256 (w.encryptSeededSaltedAES256 payload nonce) nonce = payload :=
  w.primitives.decryptAES256CTRWithKey_encrypt (w.seededSaltedCall payload nonce)

@[simp]
lemma decryptMetadata_encrypt (metadata commHash : Bytes) :
    w.decryptMetadata (w.encryptMetadata metadata commHash).cipherText commHash = metadata :=
  w.primitives.decryptAES256CTRWithKey_encrypt (w.metadataCall metadata commHash)

lemma length_cipherText_encryptSeededSaltedAES256 (payload : Bytes) (nonce : ℕ) :
    (w.encryptSeededSaltedAES256 payload nonce).cipherText.length = payload.length :=
  w.primitives.length_addKeyStream _ _ _

lemma length_iv_encryptSeededSaltedAES256 (payload : Bytes) (nonce : ℕ) :
    (w.encryptSeededSaltedAES256 payload nonce).iv.length = 16 :=
  w.primitives.hkdf_length _ _ _ _ (by decide)

lemma length_cipherText_encryptMetadata (metadata commHash : Bytes) :
    (w.encryptMetadata metadata commHash).cipherText.length = metadata.length :=
  w.primitives.length_addKeyStream _ _ _

end RVKWrapper

structure SeedWrapper where
  primitives : Primitives
  seed : Bytes

namespace SeedWrapper

variable (w : SeedWrapper)

def getRootViewingKeyWrapper : RVKWrapper :=
  { primitives := w.primitives, rvk := w.primitives.generateRootViewingKey w.seed }

def generateNullifier (nonce : ℕ) : Bytes :=
  w.primitives.generateSeededSaltedNullifier w.seed nonce

end SeedWrapper

end ElusivSdk
