import ElusivSdk.Encoding.BigIntText
import ElusivSdk.Transactions.Instructions.ComputeHashInstruction
import ElusivSdk.Transactions.Instructions.FinalizeVerificationInstruction
import ElusivSdk.Transactions.Instructions.InitVerificationInstruction

/-!
# Parsing instructions

A topup has four instructions: two that every topup has, then the store and the compute instruction.  A
send has one init and, in a later transaction, one finalize instruction, anywhere in the message.  The
new format is tried before the legacy one.

* `tryParseVariableInstructionsStore`, `tryParseFeeFromStoreCPIs` — the parts of a topup.
* `tryParseVariableInstructionsInitVerification`,
  `tryParseVariableInstructionsFinalizeVerificationFromDecryptionKey` — the parts of a send.
* `isStoreIx`, `isSendIx` — which instructions belong to an identifier key.
* **`tryParseVariableInstructionsStore_compile`** — what a topup compiles to is parsed.
-/

namespace ElusivSdk

def STORE_IX_INDEX : ℕ := 2

def FAILED_TO_PARSE (paramName : String) : String := "Failed to parse " ++ paramName

/-- A store instruction in either format. -/
inductive AnyStoreInstruction
  | current (ix : StoreInstruction)
  | legacy (ix : StoreInstructionLegacy)
deriving DecidableEq

namespace AnyStoreInstruction

def base : AnyStoreInstruction → StoreInstructionBase
  | current ix => ix.toStoreInstructionBase
  | legacy ix => ix.toStoreInstructionBase

def getTokenType : AnyStoreInstruction → TokenType
  | current ix => ix.getTokenType
  | legacy ix => ix.tokenType

def getAmount : AnyStoreInstruction → ℤ
  | current ix => ix.getAmount
  | legacy ix => ix.amount

def getAssocCommIndex : AnyStoreInstruction → ℕ
  | current ix => ix.getAssocCommIndex
  | legacy ix => ix.assocCommIndex

end AnyStoreInstruction

/-- An init verification instruction in either format. -/
inductive AnyInitVerificationInstruction
  | current (ix : InitVerificationInstruction)
  | legacy (ix : InitVerificationInstructionLegacy)
deriving DecidableEq

namespace AnyInitVerificationInstruction

def base : AnyInitVerificationInstruction → InitVerificationInstructionBase
  | current ix => ix.toInitVerificationInstructionBase
  | legacy ix => ix.toInitVerificationInstructionBase

def getTokenType : AnyInitVerificationInstruction → TokenType
  | current ix => ix.metadata.tokenType
  | legacy ix => ix.tokenId

def getAssocCommIndex : AnyInitVerificationInstruction → ℕ
  | current ix => ix.metadata.assocCommIndex
  | legacy ix => ix.commIndex

end AnyInitVerificationInstruction

/-- Accounts that the instruction does not have are missing. -/
structure StoreInstructions where
  storeIx : AnyStoreInstruction
  computeIx : ComputeHashInstruction
  identifierAcc : Option PublicKey
  senderAcc : Option PublicKey
  wardenAcc : Option PublicKey
deriving DecidableEq

structure InitInstructions where
  initIx : AnyInitVerificationInstruction
  idAcc : Option PublicKey
  wardenAcc : Option PublicKey
deriving DecidableEq

structure FinalizeInstructions where
  finalizeIx : FinalizeVerificationInstruction
  idAcc : Option PublicKey
  recipientAcc : Option PublicKey
  refKeyAcc : Option PublicKey
deriving DecidableEq

namespace InstructionParsing

/-! ## Topups -/

def getCompiledVariableIxsFromRawStoreIxs {T : Type} (storeIxs : List T) : Except Failure (List T) :=
  if storeIxs.length ≠ 4 then
    .error (.error (INVALID_SIZE "compiled constant store instructions" storeIxs.length 4))
  else .ok ((storeIxs.take 4).drop STORE_IX_INDEX)

/-- The new format first, then the legacy one. -/
def parseStoreInstruction (rvk : RVKWrapper) (rawStore : PartiallyDecodedInstruction) :
    Except Failure AnyStoreInstruction := do
  match ← StoreInstruction.parseInstruction rvk rawStore with
  | some storeIx => pure (.current storeIx)
  | none =>
      match ← StoreInstructionLegacy.parseInstruction rawStore with
      | some storeIx => pure (.legacy storeIx)
      | none => .error (.error (FAILED_TO_PARSE "store instruction"))

def tryParseVariableInstructionsStore (ixs : List PartiallyDecodedInstruction) (nonce : ℕ)
    (rvk : RVKWrapper) : Except Failure StoreInstructions :=
  match ixs with
  | [rawStore, rawCompute] => do
      let storeIx ← parseStoreInstruction rvk rawStore
      match ComputeHashInstruction.parseInstruction rawCompute rvk nonce with
      | none => .error (.error (FAILED_TO_PARSE "compute instruction"))
      | some computeIx =>
          pure
            { storeIx := storeIx
              computeIx := computeIx
              identifierAcc := StoreInstructionBase.getIdentifierAcc rawStore
              senderAcc := StoreInstructionBase.getSenderAcc rawStore
              wardenAcc := StoreInstructionBase.getWardenAcc rawStore }
  | _ => .error (.error (INVALID_SIZE "compiled variable store instructions" ixs.length 2))

/-- `isParsedLamportTransfer`: reads a property of a missing `info` without a check. -/
def isParsedLamportTransfer : Option ParsedInfo → Except Failure (Option ℕ)
  | none => .ok none
  | some ⟨none, _⟩ => .error .typeError
  | some ⟨some info, type⟩ =>
      .ok (if info.destination.isSome && info.source.isSome && type.isSome then info.lamports else none)

/-- `isParsedSPLTransfer`: reads a property of a missing `info` without a check. -/
def isParsedSPLTransfer : Option ParsedInfo → Except Failure (Option String)
  | none => .ok none
  | some ⟨none, _⟩ => .error .typeError
  | some ⟨some info, type⟩ =>
      .ok (if info.destination.isSome && info.multisigAuthority.isSome && info.signers.isSome &&
        info.source.isSome && type.isSome then info.amount else none)

/-- The first of the instructions that the store instruction called pays the fee. -/
def tryParseFeeFromStoreCPIs (cpis : List ParsedInnerInstruction) (tokenType : TokenType) :
    Except Failure ℤ :=
  match cpis.find? fun ix => ix.index == STORE_IX_INDEX with
  | none => .error (.error "Failed to find transfer ix")
  | some transferIxs =>
      if tokenType = .LAMPORTS then
        -- 5 instructions for lamports
        match transferIxs.instructions with
        | [.parsed ix, _, _, _, _] => do
            match ← isParsedLamportTransfer ix.parsed with
            | some lamports => pure (lamports : ℤ)
            | none => .error (.error (FAILED_TO_PARSE "store instruction"))
        | _ => .error (.error (FAILED_TO_PARSE "store instruction"))
      else
        -- 6 instructions for every other token
        match transferIxs.instructions with
        | [.parsed ix, _, _, _, _, _] => do
            match ← isParsedSPLTransfer ix.parsed with
            | some amount => BigInt amount
            | none => .error (.error (FAILED_TO_PARSE "store instruction"))
        | _ => .error (.error (FAILED_TO_PARSE "store instruction"))

section RoundTrip

variable (accs : ProgramAccounts) (rvk : RVKWrapper) (nonce : ℕ) (sender warden : PublicKey)

@[simp]
lemma getIdentifierAcc_compile (ix : StoreInstruction) : StoreInstructionBase.getIdentifierAcc
    (ix.compileInstruction accs rvk nonce sender warden).reported
      = some (rvk.getIdentifierKey nonce) := rfl

/-- **What a topup compiles to is parsed**, each part from its own place. -/
theorem tryParseVariableInstructionsStore_compile {storeIx : StoreInstruction}
    {computeIx : ComputeHashInstruction} (hstore : storeIx.WellFormed rvk)
    (hcompute : computeIx.WellFormed) :
    tryParseVariableInstructionsStore
      [(storeIx.compileInstruction accs rvk nonce sender warden).reported,
        (computeIx.compileInstruction rvk accs).reported] computeIx.nonce rvk
      = .ok
        { storeIx := .current storeIx
          computeIx := computeIx
          identifierAcc := some (rvk.getIdentifierKey nonce)
          senderAcc := some sender
          wardenAcc := some warden } := by
  have hparse : parseStoreInstruction rvk
      (storeIx.compileInstruction accs rvk nonce sender warden).reported = .ok (.current storeIx) := by
    rw [parseStoreInstruction, StoreInstruction.parseInstruction_compile hstore]
    rfl
  rw [tryParseVariableInstructionsStore, hparse,
    ComputeHashInstruction.parseInstruction_compile hcompute]
  rfl

end RoundTrip

/-! ## Sends -/

/-- The new format first, then the legacy one. -/
def parseInitInstruction (rvk : Option RVKWrapper) (rawIx : PartiallyDecodedInstruction) :
    Except Failure (Option AnyInitVerificationInstruction) := do
  match ← InitVerificationInstruction.parseInstruction rawIx rvk with
  | some initIx => pure (some (.current initIx))
  | none =>
      let legacy ← InitVerificationInstructionLegacy.parseInstruction rawIx
      pure (legacy.map .legacy)

/-- The first instruction that is an init. -/
def tryParseVariableInstructionsInitVerification (rvk : Option RVKWrapper) :
    List PartiallyDecodedInstruction → Except Failure InitInstructions
  | [] => .error (.error (FAILED_TO_PARSE "init verification instruction"))
  | rawIx :: ixs => do
      match ← parseInitInstruction rvk rawIx with
      | some initIx =>
          pure
            { initIx := initIx
              idAcc := InitVerificationInstructionBase.getIdentifierAcc rawIx
              wardenAcc := InitVerificationInstructionBase.getWardenAcc rawIx }
      | none => tryParseVariableInstructionsInitVerification rvk ixs

/-- The first instruction that is a finalize. -/
def tryParseVariableInstructionsFinalizeVerificationFromDecryptionKey (p : Primitives)
    (decryptionKey : Bytes) : List MessageInstruction → Except Failure FinalizeInstructions
  | [] => .error (.error (FAILED_TO_PARSE "finalize verification instruction"))
  | .parsed _ :: ixs =>
      tryParseVariableInstructionsFinalizeVerificationFromDecryptionKey p decryptionKey ixs
  | .partiallyDecoded rawIx :: ixs => do
      match ← FinalizeVerificationInstruction.parseInstructionFromViewingKey p rawIx decryptionKey with
      | some finalizeIx =>
          pure
            { finalizeIx := finalizeIx
              idAcc := FinalizeVerificationInstruction.getIdentifierAcc rawIx
              recipientAcc := FinalizeVerificationInstruction.getRecipientAcc rawIx
              refKeyAcc := FinalizeVerificationInstruction.getReferenceKeyAcc rawIx }
      | none => tryParseVariableInstructionsFinalizeVerificationFromDecryptionKey p decryptionKey ixs

/-! ## Which instructions belong to an identifier key -/

variable (accs : ProgramAccounts) (ix : PartiallyDecodedInstruction) (idPubKey : PublicKey)

def isElusivIx : Bool := ix.programId == accs.elusivProgramId

def isIdentifierIx : Bool :=
  isElusivIx accs ix && (ix.accounts.find? fun k => k == idPubKey).isSome

/-- The instruction belongs to the identifier key and its data starts with the code. -/
def isIdentifierIxWithCode (code : ℕ) : Bool :=
  isIdentifierIx accs ix idPubKey && (bs58ToBytes ix.data)[0]? == some (UInt8.ofNat code)

def isStoreBaseCommIx : Bool := isIdentifierIxWithCode accs ix idPubKey STORE_BASE_COMM_IX_CODE

def isComputeHashIx : Bool := isIdentifierIxWithCode accs ix idPubKey COMPUTE_COMM_HASH_IX_CODE

def isInitVerificationIx : Bool := isIdentifierIxWithCode accs ix idPubKey INIT_VERIFICATION_IX_CODE

def isFinalizeVerificationIx : Bool :=
  isIdentifierIxWithCode accs ix idPubKey FINALIZE_VERIFICATION_IX_CODE

def isSendIx : Bool :=
  isInitVerificationIx accs ix idPubKey || isFinalizeVerificationIx accs ix idPubKey

def isStoreIx : Bool := isStoreBaseCommIx accs ix idPubKey || isComputeHashIx accs ix idPubKey

end InstructionParsing

end ElusivSdk
