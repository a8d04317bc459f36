import ElusivSdk.ClientCrypto.CommitmentMetadata
import ElusivSdk.Library.Program
import ElusivSdk.Transactions.RawTransaction

/-!
# The init verification instruction

It starts the verification of a send: it names the commitments that the send spends (by tree root and
nullifier hash), the commitment that takes the change, the amount and the fee.  The new format adds the
extra fee and the metadata of the change commitment.  Old transactions lack both.

* `initVerificationInstructionBorsh`, `initVerificationInstructionBorshLegacy` — the two wire formats.
* `InitVerificationInstruction.parseInstruction`, `InitVerificationInstructionLegacy.parseInstruction`
  — the translated parsers.
* `InitVerificationInstruction.compile`, `InitVerificationInstructionLegacy.compile` — the translated
  writers.  A root that is the same object as the first root is left out; the parser puts the first root
  in its place.
-/

namespace ElusivSdk

open Format Program

def INIT_VERIFICATION_IX_CODE : ℕ := 7
def SEND_PUBLIC_INPUT_IX_CODE : ℕ := 0
def MAX_MT_COUNT : ℕ := 2

/-! ## Wire formats -/

structure InputCommitmentBorsh where
  root : Option ℕ
  nullifier_hash : ℕ
deriving DecidableEq

structure OptionalFeeBorsh where
  collector : PublicKey
  amount : ℕ
deriving DecidableEq

structure JoinSplitBorshLegacy where
  input_commitments : List InputCommitmentBorsh
  output_commitment : ℕ
  output_commitment_index : ℕ
  fee_version : ℕ
  amount : ℕ
  fee : ℕ
  token_id : ℕ
deriving DecidableEq

structure JoinSplitBorsh where
  input_commitments : List InputCommitmentBorsh
  output_commitment : ℕ
  recent_commitment_index : ℕ
  fee_version : ℕ
  amount : ℕ
  fee : ℕ
  optional_fee : OptionalFeeBorsh
  token_id : ℕ
  metadata : Bytes
deriving DecidableEq

/-- The public inputs, with either join split. -/
structure SendPublicInputsBorsh (JoinSplit : Type) where
  proof_type : ℕ
  join_split : JoinSplit
  recipient_is_associated_token_account : Bool
  solana_pay_transfer : Bool
  hashed_inputs : ℕ
deriving DecidableEq

structure InitVerificationInstructionBorsh (JoinSplit : Type) where
  instruction_index : ℕ
  verification_account_index : ℕ
  vkey_id : ℕ
  tree_indices : List ℕ
  request : SendPublicInputsBorsh JoinSplit
  skip_nullifier_pda : Bool
deriving DecidableEq

def inputCommitmentBorsh : Format InputCommitmentBorsh :=
  ((uint 32).option.pair (uint 32)).iso
  { toFun := fun (a, b) => ⟨a, b⟩
    invFun := fun c => (c.root, c.nullifier_hash)
    left_inv := fun _ => rfl
    right_inv := fun _ => rfl }

def optionalFeeBorsh : Format OptionalFeeBorsh :=
  (publicKey.pair (uint 8)).iso
  { toFun := fun (a, b) => ⟨a, b⟩
    invFun := fun f => (f.collector, f.amount)
    left_inv := fun _ => rfl
    right_inv := fun _ => rfl }

def joinSplitBorshLegacy : Format JoinSplitBorshLegacy :=
  (inputCommitmentBorsh.vec.pair <| (uint 32).pair <| (uint 4).pair <| (uint 4).pair <| (uint 8).pair <|
    (uint 8).pair (uint 2)).iso
  { toFun := fun (a, b, c, d, e, f, g) => ⟨a, b, c, d, e, f, g⟩
    invFun := fun s => (s.input_commitments, s.output_commitment, s.output_commitment_index,
      s.fee_version, s.amount, s.fee, s.token_id)
    left_inv := fun _ => rfl
    right_inv := fun _ => rfl }

def joinSplitBorsh : Format JoinSplitBorsh :=
  (inputCommitmentBorsh.vec.pair <| (uint 32).pair <| (uint 4).pair <| (uint 4).pair <| (uint 8).pair <|
    (uint 8).pair <| optionalFeeBorsh.pair <| (uint 2).pair (bytes COMMITMENT_METADATA_LENGTH)).iso
  { toFun := fun (a, b, c, d, e, f, g, h, i) => ⟨a, b, c, d, e, f, g, h, i⟩
    invFun := fun s => (s.input_commitments, s.output_commitment, s.recent_commitment_index,
      s.fee_version, s.amount, s.fee, s.optional_fee, s.token_id, s.metadata)
    left_inv := fun _ => rfl
    right_inv := fun _ => rfl }

section JoinSplit

variable {JoinSplit : Type} (joinSplit : Format JoinSplit)

def sendPublicInputsBorsh : Format (SendPublicInputsBorsh JoinSplit) :=
  (((uint 1).check (· == SEND_PUBLIC_INPUT_IX_CODE)).pair <| joinSplit.pair <| bool.pair <| bool.pair
    (uint 32)).iso
  { toFun := fun (a, b, c, d, e) => ⟨a, b, c, d, e⟩
    invFun := fun s => (s.proof_type, s.join_split, s.recipient_is_associated_token_account,
      s.solana_pay_transfer, s.hashed_inputs)
    left_inv := fun _ => rfl
    right_inv := fun _ => rfl }

def initVerificationInstructionFormat : Format (InitVerificationInstructionBorsh JoinSplit) :=
  (((uint 1).check (· == INIT_VERIFICATION_IX_CODE)).pair <| (uint 1).pair <| (uint 4).pair <|
    ((uint 4).times MAX_MT_COUNT).pair <| (sendPublicInputsBorsh joinSplit).pair bool).iso
  { toFun := fun (a, b, c, d, e, f) => ⟨a, b, c, d, e, f⟩
    invFun := fun s => (s.instruction_index, s.verification_account_index, s.vkey_id, s.tree_indices,
      s.request, s.skip_nullifier_pda)
    left_inv := fun _ => rfl
    right_inv := fun _ => rfl }

end JoinSplit

def initVerificationInstructionBorsh : Format (InitVerificationInstructionBorsh JoinSplitBorsh) :=
  initVerificationInstructionFormat joinSplitBorsh

def initVerificationInstructionBorshLegacy :
    Format (InitVerificationInstructionBorsh JoinSplitBorshLegacy) :=
  initVerificationInstructionFormat joinSplitBorshLegacy

/-! ## The instruction -/

structure InitVerificationInstructionBase where
  verAccIndex : ℕ
  vKeyId : ℕ
  treeIndices : List ℕ
  commitmentCount : ℕ
  roots : List Bytes
  nullifierHashes : List Bytes
  commitmentHash : Bytes
  feeVersion : ℕ
  sendAmount : ℤ
  fee : ℤ
  recipientIsAssociatedTokenAccount : Bool
  hashedInputs : Bytes
  skipNullifierPDA : Bool
  isSolanaPayTransfer : Bool
deriving DecidableEq

/-- Without the root viewing key only what the request says in the clear is known. -/
inductive InitMetadata
  | decrypted (metadata : CommitmentMetadata)
  | clear (tokenType : TokenType) (assocCommIndex : ℕ)
deriving DecidableEq

structure InitVerificationInstruction extends InitVerificationInstructionBase where
  optFee : OptionalFee
  metadata : InitMetadata
  serializedMetadata : Bytes
deriving DecidableEq

structure InitVerificationInstructionLegacy extends InitVerificationInstructionBase where
  commIndex : ℕ
  tokenId : TokenType
deriving DecidableEq

namespace InitVerificationInstructionBase

def getIdentifierAcc (ix : PartiallyDecodedInstruction) : Option PublicKey := ix.accounts[5]?

def getVerificationAcc (ix : PartiallyDecodedInstruction) : Option PublicKey := ix.accounts[1]?

def getWardenAcc (ix : PartiallyDecodedInstruction) : Option PublicKey := ix.accounts[0]?

/-- A root that is missing, or 0, is the first root. -/
def parseRoots (roots : List (Option ℕ)) : Except Failure (List Bytes) :=
  match roots with
  | some (first + 1) :: _ => .ok <| roots.map fun root =>
      match root with
      | some (root + 1) => leBytes 32 (root + 1)
      | _ => leBytes 32 (first + 1)
  | _ => .error (.error "Need at least one root")

/-- The input at index `i`.  A later root that is the object of the first one is not written. -/
def encodeInputCommitment (ix : InitVerificationInstructionBase) (isFirstRoot : ℕ → Bool) (i : ℕ) :
    Except Failure InputCommitmentBorsh :=
  match ix.roots[i]?, ix.nullifierHashes[i]? with
  | some root, some nullifierHash => .ok
      { root := if i ≠ 0 ∧ isFirstRoot i then none else some (ofLeBytes root)
        nullifier_hash := ofLeBytes nullifierHash }
  | _, _ => .error .typeError

/-- `isFirstRoot i` says that `this.roots[i] === this.roots[0]`: objects are compared and not their
bytes. -/
def encodeInputCommitments (ix : InitVerificationInstructionBase) (isFirstRoot : ℕ → Bool) :
    Except Failure (List InputCommitmentBorsh) :=
  if ix.roots = [] then .ok []
  else (0 :: List.range' 1 (ix.commitmentCount - 1)).mapM (ix.encodeInputCommitment isFirstRoot)

def encodeSendPublicInputs {JoinSplit : Type} (ix : InitVerificationInstructionBase)
    (joinSplit : JoinSplit) : SendPublicInputsBorsh JoinSplit :=
  { proof_type := SEND_PUBLIC_INPUT_IX_CODE
    join_split := joinSplit
    recipient_is_associated_token_account := ix.recipientIsAssociatedTokenAccount
    solana_pay_transfer := ix.isSolanaPayTransfer
    hashed_inputs := ofLeBytes ix.hashedInputs }

/-- The instruction around a join split. -/
def payload {JoinSplit : Type} (ix : InitVerificationInstructionBase) (joinSplit : JoinSplit) :
    InitVerificationInstructionBorsh JoinSplit :=
  { instruction_index := INIT_VERIFICATION_IX_CODE
    verification_account_index := ix.verAccIndex
    vkey_id := ix.vKeyId
    tree_indices := ix.treeIndices
    request := ix.encodeSendPublicInputs joinSplit
    skip_nullifier_pda := ix.skipNullifierPDA }

/-- `compile` of both formats, given the join split that the format encodes. -/
def compileJoinSplit {JoinSplit : Type} (ix : InitVerificationInstructionBase)
    (format : Format JoinSplit) (joinSplit : Except Failure JoinSplit) : Except Failure Bytes :=
  if ix.treeIndices.length ≠ MAX_MT_COUNT then
    .error (.error ("Tree indices must have length " ++ toString MAX_MT_COUNT))
  else do
    let joinSplit ← joinSplit
    pure ((initVerificationInstructionFormat format).encode (ix.payload joinSplit))

end InitVerificationInstructionBase

open InitVerificationInstructionBase

namespace InitMetadata

def tokenType : InitMetadata → TokenType
  | decrypted metadata => metadata.tokenType
  | clear tokenType _ => tokenType

def assocCommIndex : InitMetadata → ℕ
  | decrypted metadata => metadata.assocCommIndex
  | clear _ assocCommIndex => assocCommIndex

/-- `isCommitmentMetadata`. -/
def commitmentMetadata? : InitMetadata → Option CommitmentMetadata
  | decrypted metadata => some metadata
  | clear _ _ => none

end InitMetadata

namespace InitVerificationInstruction

def parseMetadata (rvk : Option RVKWrapper) (joinSplit : JoinSplitBorsh) (commHash : Bytes) :
    Except Failure InitMetadata :=
  match rvk with
  | some rvk => do
      let metadata ← CommitmentMetadata.deserializeAndDecrypt joinSplit.metadata rvk commHash
      pure (.decrypted metadata)
  | none => do
      let tokenType ← getTokenTypeFromNumber joinSplit.token_id
      pure (.clear tokenType joinSplit.recent_commitment_index)

def parseInstruction (ix : PartiallyDecodedInstruction) (rvk : Option RVKWrapper) :
    Except Failure (Option InitVerificationInstruction) :=
  match initVerificationInstructionBorsh.parse (bs58ToBytes ix.data) with
  | none => .ok none
  | some parsed => do
      let joinSplit := parsed.request.join_split
      let commHash := leBytes 32 joinSplit.output_commitment
      let parsedMetadata ← parseMetadata rvk joinSplit commHash
      let roots ← parseRoots (joinSplit.input_commitments.map InputCommitmentBorsh.root)
      pure <| some
        { verAccIndex := parsed.verification_account_index
          vKeyId := parsed.vkey_id
          treeIndices := parsed.tree_indices
          commitmentCount := joinSplit.input_commitments.length
          roots := roots
          nullifierHashes := joinSplit.input_commitments.map fun i => leBytes 32 i.nullifier_hash
          commitmentHash := commHash
          feeVersion := joinSplit.fee_version
          sendAmount := joinSplit.amount
          fee := joinSplit.fee
          recipientIsAssociatedTokenAccount := parsed.request.recipient_is_associated_token_account
          hashedInputs := leBytes 32 parsed.request.hashed_inputs
          skipNullifierPDA := parsed.skip_nullifier_pda
          isSolanaPayTransfer := parsed.request.solana_pay_transfer
          optFee := ⟨joinSplit.optional_fee.collector, joinSplit.optional_fee.amount⟩
          metadata := parsedMetadata
          serializedMetadata := joinSplit.metadata }

/-- What is not of the format is not read. -/
lemma parseInstruction_of_parse_eq_none {ix : PartiallyDecodedInstruction}
    (h : initVerificationInstructionBorsh.parse (bs58ToBytes ix.data) = none)
    (rvk : Option RVKWrapper) : parseInstruction ix rvk = .ok none := by
  unfold parseInstruction
  rw [h]

def encodeJoinSplit (ix : InitVerificationInstruction)
    (inputCommitments : List InputCommitmentBorsh) : JoinSplitBorsh :=
  { input_commitments := inputCommitments
    output_commitment := ofLeBytes ix.commitmentHash
    recent_commitment_index := ix.metadata.assocCommIndex
    fee_version := ix.feeVersion
    amount := ix.sendAmount.toNat
    fee := ix.fee.toNat
    optional_fee := ⟨ix.optFee.collector, ix.optFee.amount.toNat⟩
    token_id := getNumberFromTokenType ix.metadata.tokenType
    metadata := ix.serializedMetadata }

def compile (ix : InitVerificationInstruction) (isFirstRoot : ℕ → Bool) : Except Failure Bytes :=
  ix.compileJoinSplit joinSplitBorsh (ix.encodeJoinSplit <$> ix.encodeInputCommitments isFirstRoot)

end InitVerificationInstruction

namespace InitVerificationInstructionLegacy

def parseInstruction (ix : PartiallyDecodedInstruction) :
    Except Failure (Option InitVerificationInstructionLegacy) :=
  match initVerificationInstructionBorshLegacy.parse (bs58ToBytes ix.data) with
  | none => .ok none
  | some parsed => do
      let joinSplit := parsed.request.join_split
      let tokenId ← getTokenTypeFromNumber joinSplit.token_id
      let roots ← parseRoots (joinSplit.input_commitments.map InputCommitmentBorsh.root)
      pure <| some
        { verAccIndex := parsed.verification_account_index
          vKeyId := parsed.vkey_id
          treeIndices := parsed.tree_indices
          commitmentCount := joinSplit.input_commitments.length
          roots := roots
          nullifierHashes := joinSplit.input_commitments.map fun i => leBytes 32 i.nullifier_hash
          commitmentHash := leBytes 32 joinSplit.output_commitment
          feeVersion := joinSplit.fee_version
          sendAmount := joinSplit.amount
          fee := joinSplit.fee
          recipientIsAssociatedTokenAccount := parsed.request.recipient_is_associated_token_account
          hashedInputs := leBytes 32 parsed.request.hashed_inputs
          skipNullifierPDA := parsed.skip_nullifier_pda
          isSolanaPayTransfer := parsed.request.solana_pay_transfer
          commIndex := joinSplit.output_commitment_index
          tokenId := tokenId }

def encodeJoinSplit (ix : InitVerificationInstructionLegacy)
    (inputCommitments : List InputCommitmentBorsh) : JoinSplitBorshLegacy :=
  { input_commitments := inputCommitments
    output_commitment := ofLeBytes ix.commitmentHash
    output_commitment_index := ix.commIndex
    fee_version := ix.feeVersion
    amount := ix.sendAmount.toNat
    fee := ix.fee.toNat
    token_id := getNumberFromTokenType ix.tokenId }

def compile (ix : InitVerificationInstructionLegacy) (isFirstRoot : ℕ → Bool) :
    Except Failure Bytes :=
  ix.compileJoinSplit joinSplitBorshLegacy
    (ix.encodeJoinSplit <$> ix.encodeInputCommitments isFirstRoot)

end InitVerificationInstructionLegacy

end ElusivSdk
