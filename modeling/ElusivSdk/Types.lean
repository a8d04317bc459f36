import Mathlib.Data.Nat.Basic
import Mathlib.Tactic.Common

/-!
# Transactions and the constants of the SDK

The record that every part of the SDK passes around is an `ElusivTransaction`: what the parser reads
back from the chain for one topup or one send.  Its common fields come first, and the fields that
only a topup or only a send has are in its `body`; `txType` is read off the body.

* `nonce` — the number of the identifier key the transaction was found under.  Nonces count up with
  every transaction a wallet builds, but **one nonce can hold several transactions**.
* `commitmentHash` — the hash of the commitment that the transaction inserts into the tree.
* `transactionStatus` — the status at parse time.  The field is the only one that is written after
  parsing; `TxManager` keeps what was written to it.
-/

namespace ElusivSdk

/-! ## Constants -/

def DEFAULT_FETCH_BATCH_SIZE : ℕ := 10
def SEND_ARITY : ℕ := 4
def MERKLE_TREE_HEIGHT : ℕ := 20
def MAX_UINT32 : ℕ := 4294967295
def MAX_UINT20 : ℕ := 1048575
def MAX_UINT64 : ℕ := 18446744073709551615
/-- The largest integer a JavaScript number counts to exactly. -/
def MAX_SAFE_INTEGER : ℕ := 9007199254740991

/-! ## Small types -/

abbrev Bytes := List UInt8

/-- A Solana public key, 32 bytes long. -/
structure PublicKey where
  bytes : Bytes
  length_eq : bytes.length = 32
deriving DecidableEq, Repr

/-- The supported tokens, in the order of `TokenTypeArr`. -/
inductive TokenType
  | LAMPORTS
  | USDC
  | USDT
  | mSOL
  | BONK
  | SAMO
deriving DecidableEq, Repr

def TokenTypeArr : List TokenType := [.LAMPORTS, .USDC, .USDT, .mSOL, .BONK, .SAMO]

inductive TxTypes
  | TOPUP
  | SEND
deriving DecidableEq, Repr

/-- `CONFIRMED`: the commitment that finalises the transaction has been inserted in the tree. -/
inductive TransactionStatus
  | PENDING
  | PROCESSED
  | CONFIRMED
deriving DecidableEq, Repr

/-- What the RPC node says about one signature.  `err` is `none` for a successful transaction. -/
structure ConfirmedSignatureInfo where
  signature : String
  err : Option String
  memo : Option String
deriving DecidableEq, Repr

structure EncryptedValue where
  cipherText : Bytes
  iv : Bytes
deriving DecidableEq, Repr

/-- An extra fee, paid to a third party collector. -/
structure OptionalFee where
  collector : PublicKey
  amount : ℤ
deriving DecidableEq, Repr

/-- The data about its own commitment that a send carries in encrypted form.  The constructor of the
class refuses values outside these ranges. -/
structure CommitmentMetadata where
  nonce : ℕ
  tokenType : TokenType
  assocCommIndex : ℕ
  balance : ℤ
  nonce_le : nonce ≤ MAX_UINT32
  assocCommIndex_le : assocCommIndex ≤ MAX_UINT20
  balance_nonneg : 0 ≤ balance
  balance_le : balance ≤ MAX_UINT64
deriving DecidableEq, Repr

/-- How a call can fail.  `outOfFuel` is the model's own failure: a loop of the source was still
running when the fuel was used up. -/
inductive Failure
  | outOfFuel
  /-- A property of `undefined` was read. -/
  | typeError
  /-- `throw new Error(message)`. -/
  | error (message : String)
deriving DecidableEq, Repr

def INVALID_SIZE (inputName : String) (size expectedSize : ℕ) : String :=
  "Input: " ++ inputName ++ " has size " ++ toString size ++ ", expected size " ++
    toString expectedSize

def COULD_NOT_FIND_COMMITMENT : Failure := .error "Could not find commitment in merkle tree"

def getNumberFromTokenType (t : TokenType) : ℕ := TokenTypeArr.idxOf t

def getTokenTypeFromNumber (t : ℕ) : Except Failure TokenType :=
  match TokenTypeArr[t]? with
  | some tokenType => .ok tokenType
  | none => .error (.error "Invalid token type")

@[simp]
lemma getTokenTypeFromNumber_getNumber (t : TokenType) :
    getTokenTypeFromNumber (getNumberFromTokenType t) = .ok t := by
  cases t <;> rfl

lemma getTokenTypeFromNumber_eq_ok_iff {n : ℕ} {t : TokenType} :
    getTokenTypeFromNumber n = .ok t ↔ n = getNumberFromTokenType t := by
  refine ⟨fun h => ?_, fun h => h ▸ getTokenTypeFromNumber_getNumber t⟩
  rw [getTokenTypeFromNumber] at h
  cases hget : TokenTypeArr[n]? with
  | none =>
      rw [hget] at h
      contradiction
  | some t' =>
      rw [hget] at h
      obtain rfl := Except.ok.inj h
      obtain ⟨hn, rfl⟩ := List.getElem?_eq_some_iff.mp hget
      have hnodup : TokenTypeArr.Nodup := by decide
      exact (hnodup.idxOf_getElem n hn).symm

/-- The numbers of the known tokens are the positions in the list of tokens. -/
lemma exists_getTokenTypeFromNumber_iff {n : ℕ} :
    (∃ t, getTokenTypeFromNumber n = .ok t) ↔ n < TokenTypeArr.length := by
  rw [getTokenTypeFromNumber]
  cases hget : TokenTypeArr[n]? with
  | none => simpa using List.getElem?_eq_none_iff.mp hget
  | some t =>
      obtain ⟨hn, -⟩ := List.getElem?_eq_some_iff.mp hget
      simpa using hn

lemma getNumberFromTokenType_lt (t : TokenType) : getNumberFromTokenType t < 6 := by
  cases t <;> decide

/-- A commitment before it has a place in the tree. -/
structure IncompleteCommitment where
  nullifier : Bytes
  balance : ℤ
  tokenType : TokenType
  assocCommIndex : ℕ
deriving DecidableEq

/-! ## Transactions -/

/-- The fields of a `PartialStoreTx` that other transactions do not have. -/
structure StoreFields where
  /-- Absent when the instruction lacks the account. -/
  sender : Option PublicKey
  parsedPrivateBalance : ℤ
  hashAccIndex : ℕ
  isRecipient : Bool
deriving DecidableEq, Repr

/-- The fields of a `PartialSendTx` that other transactions do not have. -/
structure SendFields where
  isAssociatedTokenAcc : Bool
  isSolanaPayTransfer : Bool
  /-- Absent from legacy transactions. -/
  metadata : Option CommitmentMetadata
  recipient : Option PublicKey
  encryptedOwner : Option EncryptedValue
  owner : Option PublicKey
  refKey : Option PublicKey
  memo : Option String
  extraFee : OptionalFee
deriving DecidableEq, Repr

inductive TxBody
  | store (fields : StoreFields)
  | send (fields : SendFields)
deriving DecidableEq, Repr

structure ElusivTransaction where
  nonce : ℕ
  tokenType : TokenType
  /-- Absent when the instruction lacks the account, as is `warden`. -/
  identifier : Option PublicKey
  amount : ℤ
  fee : ℤ
  commitmentHash : Bytes
  merkleStartIndex : ℕ
  warden : Option PublicKey
  transactionStatus : Option TransactionStatus
  signature : Option ConfirmedSignatureInfo
  body : TxBody
deriving DecidableEq, Repr

namespace ElusivTransaction

def txType (tx : ElusivTransaction) : TxTypes :=
  match tx.body with
  | .store _ => .TOPUP
  | .send _ => .SEND

/-- The metadata of a send; `none` for a legacy send and for a topup. -/
def metadata (tx : ElusivTransaction) : Option CommitmentMetadata :=
  match tx.body with
  | .store _ => none
  | .send fields => fields.metadata

/-- Does the transaction match the token filter of a query? -/
def hasToken (tokenType : Option TokenType) (tx : ElusivTransaction) : Bool :=
  match tokenType with
  | none => true
  | some t => tx.tokenType == t

/-- What the transaction adds to the private balance of its token. -/
def value (tx : ElusivTransaction) : ℤ :=
  match tx.txType with
  | .TOPUP => tx.amount
  | .SEND => -(tx.amount + tx.fee)

/-- The identity of a transaction object in the cache: no two cached objects share it. -/
def key (tx : ElusivTransaction) : ℕ × Bytes := (tx.nonce, tx.commitmentHash)

/-! ### Bare transactions

Transactions that carry what the managers look at, for the concrete histories of this development. -/

/-- A key of 32 equal bytes. -/
def bareKey (b : UInt8) : PublicKey := ⟨List.replicate 32 b, List.length_replicate⟩

def bareTopup (nonce : ℕ) (tokenType : TokenType) (amount : ℤ) (hash : UInt8) : ElusivTransaction :=
  { nonce := nonce, tokenType := tokenType, identifier := some (bareKey 0), amount := amount, fee := 0,
    commitmentHash := [hash], merkleStartIndex := 0, warden := some (bareKey 0),
    transactionStatus := some .PROCESSED, signature := some ⟨toString hash, none, none⟩,
    body := .store ⟨some (bareKey 0), 0, 0, false⟩ }

def bareSend (nonce : ℕ) (tokenType : TokenType) (amount fee : ℤ) (hash : UInt8)
    (metadata : Option CommitmentMetadata) : ElusivTransaction :=
  { nonce := nonce, tokenType := tokenType, identifier := some (bareKey 0), amount := amount, fee := fee,
    commitmentHash := [hash], merkleStartIndex := 0, warden := some (bareKey 0),
    transactionStatus := some .PROCESSED, signature := some ⟨toString hash, none, none⟩,
    body := .send ⟨false, false, metadata, none, none, none, none, none, ⟨bareKey 0, 0⟩⟩ }

end ElusivTransaction

end ElusivSdk
