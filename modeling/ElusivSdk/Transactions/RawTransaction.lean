import ElusivSdk.Encoding.Base58
import ElusivSdk.Library.Format

/-!
# Raw transactions

Instructions as they are sent, and messages as a node reports them.

* `TransactionInstruction` — an instruction to be sent.
* `MessageInstruction` — an instruction of a reported message: its data in base 58, or parsed by the node
  when it belongs to a program that the node knows.
* `ProgramAccounts` — the addresses that instructions of the program refer to.
-/

namespace ElusivSdk

structure AccountMeta where
  pubkey : PublicKey
  isSigner : Bool
  isWritable : Bool
deriving DecidableEq

structure TransactionInstruction where
  keys : List AccountMeta
  programId : PublicKey
  data : Bytes
deriving DecidableEq

structure PartiallyDecodedInstruction where
  programId : PublicKey
  accounts : List PublicKey
  data : Base58Text
deriving DecidableEq

/-- The fields of `parsed.info` that the parser looks at, each with the type it has to have. -/
structure TransferInfo where
  destination : Option String
  source : Option String
  lamports : Option ℕ
  amount : Option String
  multisigAuthority : Option String
  signers : Option (List String)
deriving DecidableEq

structure ParsedInfo where
  info : Option TransferInfo
  type : Option String
deriving DecidableEq

structure ParsedInstruction where
  program : String
  programId : PublicKey
  parsed : Option ParsedInfo
deriving DecidableEq

inductive MessageInstruction
  | partiallyDecoded (ix : PartiallyDecodedInstruction)
  | parsed (ix : ParsedInstruction)
deriving DecidableEq

structure ParsedMessage where
  instructions : List MessageInstruction
deriving DecidableEq

/-- The instructions that the instruction at `index` called. -/
structure ParsedInnerInstruction where
  index : ℕ
  instructions : List MessageInstruction
deriving DecidableEq

structure ParsedTransactionWithMeta where
  message : ParsedMessage
  /-- Absent when the node does not report them. -/
  innerInstructions : Option (List ParsedInnerInstruction)
deriving DecidableEq

/-- The addresses of one cluster. -/
structure ProgramAccounts where
  elusivProgramId : PublicKey
  /-- The address and the bump for some seeds and an offset. -/
  generateElusivPDAFrom : List String → Option ℕ → PublicKey × UInt8
  getAssociatedTokenAcc : PublicKey → TokenType → PublicKey
  getPythPriceAccount : TokenType → PublicKey
  systemProgramId : PublicKey
  tokenProgramId : PublicKey
  setComputeUnitLimit : ℕ → TransactionInstruction
  setComputeUnitPrice : ℕ → TransactionInstruction

namespace MessageInstruction

/-- `filter(isPartiallyDecodedInstruction)`. -/
def partiallyDecoded? : MessageInstruction → Option PartiallyDecodedInstruction
  | partiallyDecoded ix => some ix
  | parsed _ => none

end MessageInstruction

lemma PublicKey.eq_of_bytes_eq : ∀ {key key' : PublicKey}, key.bytes = key'.bytes → key = key'
  | ⟨_, _⟩, ⟨_, _⟩, rfl => rfl

/-- A public key on the wire. -/
def publicKey : Format PublicKey where
  encode key := key.bytes
  decode bs :=
    if h : 32 ≤ bs.length then
      some (⟨bs.take 32, by rw [List.length_take, min_eq_left h]⟩, bs.drop 32)
    else none
  Fits _ := True
  decode_encode key _ rest := by
    have hlen : 32 ≤ (key.bytes ++ rest).length := by
      rw [List.length_append, key.length_eq]
      omega
    rw [dif_pos hlen, List.drop_left' key.length_eq]
    congr
    exact List.take_left' key.length_eq

def padLE (bytes : Bytes) (length : ℕ) : Bytes := bytes ++ List.replicate (length - bytes.length) 0

/-- How a node reports an instruction of a program that it does not know. -/
def TransactionInstruction.reported (ix : TransactionInstruction) : PartiallyDecodedInstruction :=
  { programId := ix.programId, accounts := ix.keys.map AccountMeta.pubkey,
    data := bytesToBs58 ix.data }

lemma TransactionInstruction.bs58ToBytes_reported (ix : TransactionInstruction) :
    bs58ToBytes ix.reported.data = ix.data := bs58ToBytes_bytesToBs58 ix.data

end ElusivSdk
