import ElusivSdk.Transactions.Instructions.InitVerificationCodec
import ElusivSdk.TxBuilding.InstructionBuilding

/-!
# Old and new formats

A parser does not know which format the bytes have: it tries the new one and, when that fails, the legacy
one.

* **`sendInstructions_roundTrip`** — the three instructions of a send are read back from what is compiled
  from them.
* **`formats_disambiguated`** — trying the new format first gives back what was compiled, in the format it
  was compiled in.
* `legacyInit_without_inputs` — an init without inputs is refused in both formats.
-/

namespace ElusivSdk

open Format InitVerificationInstructionBase InstructionParsing

/-- **The instructions of a send are read back from what is compiled from them**: the init instruction
with the metadata decrypted, or only token and index when there is no key; the legacy init instruction;
and the finalize instruction with its owner, by whoever has the key of the owner. -/
theorem sendInstructions_roundTrip (p : Primitives) :
    (∀ (ix : InitVerificationInstruction) (isFirstRoot : ℕ → Bool), ix.InRange →
      ix.toInitVerificationInstructionBase.WellFormed → ix.SharedRoots isFirstRoot →
      ∃ data, ix.compile isFirstRoot = .ok data ∧
        ∀ raw : PartiallyDecodedInstruction, raw.data = bytesToBs58 data →
          InitVerificationInstruction.parseInstruction raw none = .ok (some ix.inClear) ∧
          ∀ (rvk : RVKWrapper) (metadata : CommitmentMetadata), ix.metadata = .decrypted metadata →
            ix.serializedMetadata = (metadata.serializeAndEncrypt rvk ix.commitmentHash).cipherText →
            InitVerificationInstruction.parseInstruction raw (some rvk) = .ok (some ix)) ∧
    (∀ (ix : InitVerificationInstructionLegacy) (isFirstRoot : ℕ → Bool), ix.InRange →
      ix.toInitVerificationInstructionBase.WellFormed → ix.SharedRoots isFirstRoot →
      ∃ data, ix.compile isFirstRoot = .ok data ∧
        ∀ raw : PartiallyDecodedInstruction, raw.data = bytesToBs58 data →
          InitVerificationInstructionLegacy.parseInstruction raw = .ok (some ix)) ∧
    (∀ (ix : FinalizeVerificationInstruction) (key iv : Bytes), ix.InRange →
      ix.encryptedOwner = p.encryptAES256CTRWithKey ⟨key, iv, ix.owner.bytes⟩ →
      ∀ (usesMemo : Bool) (commIndex : ℕ), commIndex ≤ MAX_UINT32 →
        ∀ raw : PartiallyDecodedInstruction, raw.data = bytesToBs58 (ix.compile usesMemo commIndex) →
          FinalizeVerificationInstruction.parseInstructionFromViewingKey p raw key
            = .ok (some ix)) := by
  refine ⟨fun ix isFirstRoot h hwf hshared => ⟨_, h.compile_eq isFirstRoot, fun raw hraw => ⟨?_, ?_⟩⟩,
    fun ix isFirstRoot h hwf hshared => ⟨_, h.compile_eq isFirstRoot, fun raw hraw => ?_⟩, ?_⟩
  · exact InitVerificationInstruction.parse_compile_clear h hwf hshared hraw
  · intro rvk metadata hmetadata hserialized
    exact InitVerificationInstruction.parse_compile h hwf hshared hraw hmetadata hserialized
  · exact InitVerificationInstructionLegacy.parse_compile h hwf hshared hraw
  · intro ix key iv h howner usesMemo commIndex hcomm raw hraw
    exact FinalizeVerificationInstruction.parse_compile p h howner usesMemo hcomm hraw

/-! ### An init with three inputs, two of them on the same root -/

/-- The second root is the object of the first one; the third root is another one. -/
def threeInputs : InitVerificationInstructionBase :=
  { verAccIndex := 255
    vKeyId := MAX_UINT32
    treeIndices := [0, MAX_UINT32]
    commitmentCount := 3
    roots := [leBytes 32 5, leBytes 32 5, leBytes 32 6]
    nullifierHashes := [leBytes 32 0, leBytes 32 1, leBytes 32 1]
    commitmentHash := leBytes 32 9
    feeVersion := 0
    sendAmount := MAX_UINT64
    fee := 0
    recipientIsAssociatedTokenAccount := true
    hashedInputs := leBytes 32 7
    skipNullifierPDA := false
    isSolanaPayTransfer := true }

lemma threeInputs_inRange : threeInputs.InRange where
  verAccIndex_lt := by decide
  vKeyId_le := Nat.le_refl _
  treeIndices_length := rfl
  treeIndices_le := by decide
  commitmentCount_le := by decide
  roots_length := rfl
  nullifierHashes_length := rfl
  length_root := by decide
  length_nullifierHash := by decide
  length_hash := length_leBytes 32 9
  feeVersion_le := by decide
  sendAmount_nonneg := by decide
  sendAmount_le := le_refl _
  fee_nonneg := le_refl _
  fee_le := by decide
  length_hashedInputs := length_leBytes 32 7

lemma threeInputs_wellFormed : threeInputs.WellFormed where
  toInRange := threeInputs_inRange
  commitmentCount_pos := by decide
  root_ne_zero := by decide

def inputsMetadata : CommitmentMetadata :=
  { nonce := 4, tokenType := .SAMO, assocCommIndex := MAX_UINT20, balance := MAX_UINT64
    nonce_le := by decide, assocCommIndex_le := by decide, balance_nonneg := by decide
    balance_le := by decide }

def threeInputsInit : InitVerificationInstruction :=
  { threeInputs with
    optFee := ⟨ElusivTransaction.bareKey 8, MAX_UINT64⟩
    metadata := .decrypted inputsMetadata
    serializedMetadata := (inputsMetadata.serializeAndEncrypt plainSeed.getRootViewingKeyWrapper
      threeInputs.commitmentHash).cipherText }

def threeInputsLegacy : InitVerificationInstructionLegacy :=
  { threeInputs with commIndex := MAX_UINT32, tokenId := .USDC }

lemma threeInputsInit_inRange : threeInputsInit.InRange where
  base := threeInputs_inRange
  optFee_nonneg := by decide
  optFee_le := le_refl _
  assocCommIndex_le := by decide
  length_metadata := by
    show (RVKWrapper.encryptMetadata _ _ _).cipherText.length = _
    rw [RVKWrapper.length_cipherText_encryptMetadata, CommitmentMetadata.length_toBytes]

theorem sendInstructions_roundTrip_threeInputs :
    (∃ data, threeInputsInit.compile (· == 1) = .ok data ∧
      InitVerificationInstruction.parseInstruction ⟨ElusivTransaction.bareKey 1, [], bytesToBs58 data⟩
        (some plainSeed.getRootViewingKeyWrapper) = .ok (some threeInputsInit)) ∧
    ∃ data, threeInputsLegacy.compile (· == 1) = .ok data ∧
      InitVerificationInstructionLegacy.parseInstruction
        ⟨ElusivTransaction.bareKey 1, [], bytesToBs58 data⟩ = .ok (some threeInputsLegacy) := by
  obtain ⟨hcurrent, hlegacy, -⟩ := sendInstructions_roundTrip plainPrimitives
  obtain ⟨data, hdata, hparse⟩ := hcurrent threeInputsInit (· == 1) threeInputsInit_inRange
    threeInputs_wellFormed (show threeInputs.SharedRoots _ by decide)
  obtain ⟨data', hdata', hparse'⟩ := hlegacy threeInputsLegacy (· == 1) ⟨threeInputs_inRange, by decide⟩
    threeInputs_wellFormed (show threeInputs.SharedRoots _ by decide)
  exact ⟨⟨data, hdata, (hparse ⟨_, [], _⟩ rfl).2 _ inputsMetadata rfl rfl⟩,
    data', hdata', hparse' ⟨_, [], _⟩ rfl⟩

/-! ## The new format first -/

lemma parseStoreInstruction_legacy {ix : StoreInstructionLegacy} (h : ix.InRange)
    {accs : ProgramAccounts} {rvk : RVKWrapper} {nonce : ℕ} {sender warden : PublicKey}
    (reader : RVKWrapper) : parseStoreInstruction reader
      (ix.compileInstruction accs rvk nonce sender warden).reported = .ok (.legacy ix) := by
  have hlegacy := StoreInstructionLegacy.parseInstruction_compile h accs rvk nonce sender warden
  have hdata : storeBaseCommitmentBorsh.parse
      (bs58ToBytes (ix.compileInstruction accs rvk nonce sender warden).reported.data) = none := by
    rw [TransactionInstruction.bs58ToBytes_reported]
    exact parse_eq_none (StoreInstructionLegacy.decode_compile h accs rvk nonce sender warden)
  generalize (ix.compileInstruction accs rvk nonce sender warden).reported = raw at hlegacy hdata
  rw [parseStoreInstruction, StoreInstruction.parseInstruction_of_parse_eq_none hdata]
  show (StoreInstructionLegacy.parseInstruction raw >>= _) = _
  rw [hlegacy]
  rfl

/-- Legacy bytes are left to the legacy parser. -/
lemma parseInitInstruction_legacy {ix : InitVerificationInstructionLegacy} (h : ix.InRange)
    {isFirstRoot : ℕ → Bool} {raw : PartiallyDecodedInstruction}
    (hraw : raw.data = bytesToBs58 (ix.wire isFirstRoot)) (rvk : Option RVKWrapper) :
    parseInitInstruction rvk raw
      = (InitVerificationInstructionLegacy.parseInstruction raw).map (Option.map .legacy) := by
  have hdata : initVerificationInstructionBorsh.parse (bs58ToBytes raw.data) = none := by
    rw [hraw, bs58ToBytes_bytesToBs58]
    exact parse_eq_none (InitVerificationInstructionLegacy.decode_wire h isFirstRoot)
  rw [parseInitInstruction, InitVerificationInstruction.parseInstruction_of_parse_eq_none hdata]
  show (InitVerificationInstructionLegacy.parseInstruction raw >>= _) = _
  cases InitVerificationInstructionLegacy.parseInstruction raw with
  | error e => rfl
  | ok legacy => rfl

/-- **Trying the new format first gives back what was compiled.**  The reader of the new format runs past
the end of legacy bytes, whatever their fields are.  A legacy init comes back when it has an input and no
root is zero; without these the parser of either format takes no roots. -/
theorem formats_disambiguated (accs : ProgramAccounts) :
    (∀ (ix : StoreInstructionLegacy) (rvk : RVKWrapper) (nonce : ℕ) (sender warden : PublicKey),
      ix.InRange →
      storeBaseCommitmentBorsh.decode (ix.compileInstruction accs rvk nonce sender warden).data
        = none ∧
      ∀ (reader : RVKWrapper) (salt : ℕ) (rawCompute : PartiallyDecodedInstruction)
        (computeIx : ComputeHashInstruction),
        ComputeHashInstruction.parseInstruction rawCompute reader salt = some computeIx →
        tryParseVariableInstructionsStore
            [(ix.compileInstruction accs rvk nonce sender warden).reported, rawCompute] salt reader
          = .ok
            { storeIx := .legacy ix
              computeIx := computeIx
              identifierAcc := some (rvk.getIdentifierKey nonce)
              senderAcc := some sender
              wardenAcc := some warden }) ∧
    (∀ (ix : StoreInstruction) (rvk : RVKWrapper) (nonce : ℕ) (sender warden : PublicKey),
      ix.WellFormed rvk →
      ∀ (salt : ℕ) (rawCompute : PartiallyDecodedInstruction) (computeIx : ComputeHashInstruction),
        ComputeHashInstruction.parseInstruction rawCompute rvk salt = some computeIx →
        tryParseVariableInstructionsStore
            [(ix.compileInstruction accs rvk nonce sender warden).reported, rawCompute] salt rvk
          = .ok
            { storeIx := .current ix
              computeIx := computeIx
              identifierAcc := some (rvk.getIdentifierKey nonce)
              senderAcc := some sender
              wardenAcc := some warden }) ∧
    (∀ (ix : InitVerificationInstructionLegacy) (isFirstRoot : ℕ → Bool), ix.InRange →
      ∃ data, ix.compile isFirstRoot = .ok data ∧
        initVerificationInstructionBorsh.decode data = none ∧
        (ix.toInitVerificationInstructionBase.WellFormed → ix.SharedRoots isFirstRoot →
          ∀ raw : PartiallyDecodedInstruction, raw.data = bytesToBs58 data →
          ∀ (rvk : Option RVKWrapper) (ixs : List PartiallyDecodedInstruction),
            tryParseVariableInstructionsInitVerification rvk (raw :: ixs)
              = .ok ⟨.legacy ix, getIdentifierAcc raw, getWardenAcc raw⟩)) ∧
    (∀ (ix : InitVerificationInstruction) (isFirstRoot : ℕ → Bool), ix.InRange →
      ix.toInitVerificationInstructionBase.WellFormed → ix.SharedRoots isFirstRoot →
      ∃ data, ix.compile isFirstRoot = .ok data ∧
        ∀ raw : PartiallyDecodedInstruction, raw.data = bytesToBs58 data →
        ∀ ixs : List PartiallyDecodedInstruction,
          tryParseVariableInstructionsInitVerification none (raw :: ixs)
            = .ok ⟨.current ix.inClear, getIdentifierAcc raw, getWardenAcc raw⟩ ∧
          ∀ (rvk : RVKWrapper) (metadata : CommitmentMetadata), ix.metadata = .decrypted metadata →
            ix.serializedMetadata = (metadata.serializeAndEncrypt rvk ix.commitmentHash).cipherText →
            tryParseVariableInstructionsInitVerification (some rvk) (raw :: ixs)
              = .ok ⟨.current ix, getIdentifierAcc raw, getWardenAcc raw⟩) := by
  refine ⟨fun ix rvk nonce sender warden h => 
    ⟨StoreInstructionLegacy.decode_compile h accs rvk nonce sender warden, ?_⟩, ?_, ?_, ?_⟩
  · intro reader salt rawCompute computeIx hcompute
    rw [tryParseVariableInstructionsStore, parseStoreInstruction_legacy h, hcompute]
    rfl
  · intro ix rvk nonce sender warden h salt rawCompute computeIx hcompute
    have hparse : parseStoreInstruction rvk
        (ix.compileInstruction accs rvk nonce sender warden).reported = .ok (.current ix) := by
      rw [parseStoreInstruction, StoreInstruction.parseInstruction_compile h]
      rfl
    rw [tryParseVariableInstructionsStore, hparse, hcompute]
    rfl
  · intro ix isFirstRoot h
    refine ⟨_, h.compile_eq isFirstRoot,
      InitVerificationInstructionLegacy.decode_wire h isFirstRoot, ?_⟩
    intro hwf hshared raw hraw rvk ixs
    rw [tryParseVariableInstructionsInitVerification, parseInitInstruction_legacy h hraw,
      InitVerificationInstructionLegacy.parse_compile h hwf hshared hraw]
    rfl
  · intro ix isFirstRoot h hwf hshared
    refine ⟨_, h.compile_eq isFirstRoot, fun raw hraw ixs => ⟨?_, ?_⟩⟩
    · rw [tryParseVariableInstructionsInitVerification, parseInitInstruction,
        InitVerificationInstruction.parse_compile_clear h hwf hshared hraw]
      rfl
    · intro rvk metadata hmetadata hserialized
      rw [tryParseVariableInstructionsInitVerification, parseInitInstruction,
        InitVerificationInstruction.parse_compile h hwf hshared hraw hmetadata hserialized]
      rfl

theorem formats_disambiguated_threeInputs :
    ∃ data, threeInputsLegacy.compile (· == 1) = .ok data ∧
      ∃ parsed, tryParseVariableInstructionsInitVerification none
        [⟨ElusivTransaction.bareKey 1, [], bytesToBs58 data⟩] = .ok parsed ∧
        parsed.initIx = .legacy threeInputsLegacy := by
  obtain ⟨-, -, hlegacy, -⟩ := formats_disambiguated plainAccounts
  obtain ⟨data, hdata, -, hparse⟩ := hlegacy threeInputsLegacy (· == 1) ⟨threeInputs_inRange, by decide⟩
  exact ⟨data, hdata, _, hparse threeInputs_wellFormed (show threeInputs.SharedRoots _ by decide)
    ⟨_, [], _⟩ rfl none [], rfl⟩

/-! ### An init without inputs -/

lemma tryParse_of_no_inputs {ix : InitVerificationInstructionLegacy} (h : ix.InRange)
    {isFirstRoot : ℕ → Bool} (hinputs : ix.inputCommitments isFirstRoot = [])
    {raw : PartiallyDecodedInstruction} (hraw : raw.data = bytesToBs58 (ix.wire isFirstRoot))
    (rvk : Option RVKWrapper) (ixs : List PartiallyDecodedInstruction) :
    tryParseVariableInstructionsInitVerification rvk (raw :: ixs)
      = .error (.error "Need at least one root") := by
  rw [tryParseVariableInstructionsInitVerification, parseInitInstruction_legacy h hraw,
    InitVerificationInstructionLegacy.parse_wire h hraw, hinputs]
  rfl

def noInputsLegacy : InitVerificationInstructionLegacy :=
  { threeInputsLegacy with commitmentCount := 0, roots := [], nullifierHashes := [] }

lemma noInputsLegacy_inRange : noInputsLegacy.InRange where
  base :=
    { threeInputs_inRange with
      commitmentCount_le := Nat.zero_le _
      roots_length := rfl
      nullifierHashes_length := rfl
      length_root := fun _ hroot => absurd hroot List.not_mem_nil
      length_nullifierHash := fun _ hnull => absurd hnull List.not_mem_nil }
  commIndex_le := Nat.le_refl _

/-- **A legacy init without inputs is compiled, but not read back**: its parser asks for a root. -/
theorem legacyInit_without_inputs :
    noInputsLegacy.InRange ∧ ∃ data, noInputsLegacy.compile (fun _ => false) = .ok data ∧
      ∀ raw : PartiallyDecodedInstruction, raw.data = bytesToBs58 data →
        tryParseVariableInstructionsInitVerification none [raw]
          = .error (.error "Need at least one root") := by
  have hinputs : noInputsLegacy.inputCommitments (fun _ => false) = [] := rfl
  exact ⟨noInputsLegacy_inRange, _, noInputsLegacy_inRange.compile_eq _,
    fun raw hraw => tryParse_of_no_inputs noInputsLegacy_inRange hinputs hraw none []⟩

end ElusivSdk
