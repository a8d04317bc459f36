import ElusivSdk.TxBuilding.Circuits
import ElusivSdk.TxManagers.IdentifierTxFetcher
import ElusivSdk.Utils.PubKeyUtils

/-!
# Viewing keys

The owner gives the keys of one nonce to a third party, who finds the send of that nonce and decrypts its
owner.  All transactions on the identifier key are looked at together, failed ones too.

* `getViewingKey` — the keys of a nonce, as hex.
* `getSendTxWithViewingKey` — the send and its owner, for a third party.
* `showSend` — how a parsed send is shown, with the owner of the account that received it.
-/

namespace ElusivSdk

open Program TransactionParsing

def VIEWING_KEY_VERSION : ℕ := 1

structure ViewingKey where
  version : String
  idKey : String
  decryptionKey : String
deriving DecidableEq

/-- The hex functions of the serialization package. -/
structure HexCodec where
  uint8ArrayToHex : Bytes → String
  hexToUint8Array : String → Except Failure Bytes
  hexToUint8Array_uint8ArrayToHex : ∀ bytes, hexToUint8Array (uint8ArrayToHex bytes) = .ok bytes

namespace HexCodec

def digits : List Char := "0123456789abcdef".toList

def encodeByte (b : UInt8) : List Char :=
  [digits.getD (b.toNat / 16) '0', digits.getD (b.toNat % 16) '0']

/-- Two digits make a byte. -/
def decodePairs : List Char → Option Bytes
  | [] => some []
  | [_] => none
  | high :: low :: rest => do
      let h ← digits.idxOf? high
      let l ← digits.idxOf? low
      let bytes ← decodePairs rest
      some (UInt8.ofNat (16 * h + l) :: bytes)

lemma decodePairs_encode (bytes : Bytes) : decodePairs (bytes.flatMap encodeByte) = some bytes := by
  have hdigit : ∀ d < 16, digits.idxOf? (digits.getD d '0') = some d := by decide
  induction bytes with
  | nil => rfl
  | cons b bytes ih =>
      have hlt := b.toNat_lt
      have hbyte : UInt8.ofNat (16 * (b.toNat / 16) + b.toNat % 16) = b := by
        rw [Nat.div_add_mod, UInt8.ofNat_toNat]
      show decodePairs (digits.getD (b.toNat / 16) '0' :: digits.getD (b.toNat % 16) '0'
        :: bytes.flatMap encodeByte) = _
      rw [decodePairs, hdigit _ (by omega), hdigit _ (by omega), ih]
      show some (_ :: bytes) = _
      rw [hbyte]

end HexCodec

/-- Two digits for a byte, with a leading 0x. -/
def plainHex : HexCodec where
  uint8ArrayToHex bytes := String.ofList ('0' :: 'x' :: bytes.flatMap HexCodec.encodeByte)
  hexToUint8Array text :=
    match HexCodec.decodePairs (text.toList.drop 2) with
    | some bytes => .ok bytes
    | none => .error (.error "Invalid hex string")
  hexToUint8Array_uint8ArrayToHex bytes := by
    rw [String.toList_ofList, List.drop_succ_cons, List.drop_succ_cons, List.drop_zero,
      HexCodec.decodePairs_encode]

/-- What a third party asks a node. -/
structure ViewingConnection extends RPCConnection, TokenConnection where
  getSignaturesForAddress : PublicKey → List ConfirmedSignatureInfo

/-- What is told about a send. -/
structure SendTxWrapper where
  amount : ℤ
  sig : ConfirmedSignatureInfo
  tokenType : TokenType
  fee : ℤ
  extraFee : ℤ
  recipient : Option PublicKey
  isSolanaPayTransfer : Bool
  transactionStatus : Option TransactionStatus
  nonce : ℤ
  warden : Option PublicKey
  reference : Option PublicKey
  memo : Option String
deriving DecidableEq

/-- `new PublicKey(bytes)`: what is too short is filled up in front. -/
def PublicKey.ofBytes (bytes : Bytes) : Except Failure PublicKey :=
  if h : bytes.length ≤ 32 then
    .ok ⟨List.replicate (32 - bytes.length) 0 ++ bytes, by
      rw [List.length_append, List.length_replicate, Nat.sub_add_cancel h]⟩
  else .error (.error "Invalid public key input")

lemma PublicKey.ofBytes_bytes (key : PublicKey) : PublicKey.ofBytes key.bytes = .ok key := by
  rw [PublicKey.ofBytes, dif_pos key.length_eq.le]
  refine congrArg Except.ok (PublicKey.eq_of_bytes_eq ?_)
  show List.replicate (32 - key.bytes.length) 0 ++ key.bytes = key.bytes
  rw [key.length_eq]
  rfl

def generateViewingKey (rvk : RVKWrapper) (nonce : ℕ) : Bytes := rvk.generateDecryptionKey nonce

/-- The version is a list of zeros, as many as the version says. -/
def getViewingKey (hex : HexCodec) (rvk : RVKWrapper) (txType : TxTypes) (nonce : ℕ) :
    Except Failure ViewingKey :=
  if txType ≠ .SEND then .error (.error "Cannot generate viewing key for non-send tx")
  else .ok
    { version := hex.uint8ArrayToHex (List.replicate VIEWING_KEY_VERSION 0)
      idKey := hex.uint8ArrayToHex (rvk.getIdentifierKey nonce).bytes
      decryptionKey := hex.uint8ArrayToHex (generateViewingKey rvk nonce) }

section

variable (serialization : Serialization) (accs : ProgramAccounts) (conn : ViewingConnection)

/-! ## Showing a send -/

/-- A third party does not know the nonce, which is why it is given. -/
def toWrapperSend (nonce : ℤ) (tx : ElusivTransaction) (fields : SendFields) :
    Except Failure SendTxWrapper :=
  match tx.signature with
  | none => .error (.error "Missing signature, should never happen")
  | some sig => do
      let amount ← serialization.bigIntToNumber (tx.amount - fields.extraFee.amount)
      let fee ← serialization.bigIntToNumber tx.fee
      let extraFee ← serialization.bigIntToNumber fields.extraFee.amount
      pure
        { amount := amount
          sig := sig
          tokenType := tx.tokenType
          fee := fee
          extraFee := extraFee
          recipient := fields.recipient
          isSolanaPayTransfer := fields.isSolanaPayTransfer
          transactionStatus := tx.transactionStatus
          nonce := nonce
          warden := tx.warden
          reference := fields.refKey.filter fun refKey => refKey ≠ accs.systemProgramId
          memo := fields.memo }

/-- Only lamports can be without a recipient. -/
def getOwnerOfRecipient : Option PublicKey → TokenType → Except Failure (Option PublicKey)
  | some acc, tokenType => do
      let taOwner ← getOwnerFromAcc accs conn.toTokenConnection acc tokenType
      pure (some taOwner)
  | none, .LAMPORTS => pure none
  | none, _ => .error .typeError

/-- A parsed send, as it is shown with its owner. -/
def showSend (nonce : ℤ) (parsed : ElusivTransaction) : Except Failure (SendTxWrapper × PublicKey) :=
  match parsed.body with
  | .store _ => .error .typeError
  | .send fields => do
      let sendTx ← toWrapperSend serialization accs nonce parsed fields
      match fields.owner with
      | none => .error (.error "Failed to decrypt send tx")
      | some sendOwner =>
          let taOwner ← getOwnerOfRecipient accs conn sendTx.recipient sendTx.tokenType
          pure ({ sendTx with recipient := taOwner }, sendOwner)

/-! ## Viewing -/

/-- The nonce is not known: 0 stands for it while the send is parsed, and it is shown as -1. -/
def getSendTxWithViewingKeyInner (p : Primitives) (idKey : PublicKey) (viewingKey : Bytes) :
    Except Failure (SendTxWrapper × PublicKey) :=
  let sigs := conn.getSignaturesForAddress idKey
  let finalizeTxResponses := conn.getParsedTransactions (sigs.map ConfirmedSignatureInfo.signature)
  let finalizeFiltered := finalizeTxResponses.filterMap id
  if finalizeFiltered.length ≠ finalizeTxResponses.length then
    .error (.error "Failed to parse send instruction")
  else do
    let parsed ← tryParseRawSendFromDecryptionKey accs p (finalizeFiltered.map fun r => r.message) sigs
      viewingKey idKey none 0
    showSend serialization accs conn (-1) parsed

/-- The check of the version lets everything of one byte pass, and everything that starts with it. -/
def getSendTxWithViewingKey (hex : HexCodec) (p : Primitives) (sendTx : ViewingKey) :
    Except Failure (SendTxWrapper × PublicKey) := do
  let versionByte ← hex.hexToUint8Array sendTx.version
  if versionByte.length ≠ 1 ∧ versionByte[0]? ≠ some (UInt8.ofNat VIEWING_KEY_VERSION) then
    .error (.error "Invalid viewing key version")
  else do
    let idKeyBytes ← hex.hexToUint8Array sendTx.idKey
    let idKey ← PublicKey.ofBytes idKeyBytes
    let viewingKey ← hex.hexToUint8Array sendTx.decryptionKey
    getSendTxWithViewingKeyInner serialization accs conn p idKey viewingKey

/-- The keys of a nonce pass the checks. -/
lemma getSendTxWithViewingKey_getViewingKey (hex : HexCodec) (p : Primitives) (rvk : RVKWrapper)
    (nonce : ℕ) {key : ViewingKey} (hkey : getViewingKey hex rvk .SEND nonce = .ok key) :
    getSendTxWithViewingKey serialization accs conn hex p key
      = getSendTxWithViewingKeyInner serialization accs conn p (rvk.getIdentifierKey nonce)
        (rvk.generateDecryptionKey nonce) := by
  obtain rfl := Except.ok.inj hkey
  rw [getSendTxWithViewingKey, bind_of_ok (hex.hexToUint8Array_uint8ArrayToHex _),
    if_neg (fun h => h.1 rfl), bind_of_ok (hex.hexToUint8Array_uint8ArrayToHex _),
    bind_of_ok (PublicKey.ofBytes_bytes _), bind_of_ok (hex.hexToUint8Array_uint8ArrayToHex _)]
  rfl

end

end ElusivSdk
