import ElusivSdk.Transactions.TxParsing.TransactionParsing

/-!
# Building the instructions of a topup

* `buildTopupCommitment` — the commitment of a topup, from the seed and the nonce.
* `buildTopupInstructions` — two instructions about compute units, the store and the compute instruction.
* `ReportedAs` — how a node may report an instruction that was sent.
* `CarriesFee` — what the store instruction has to call for the fee to be found.
* **`tryParseRawStore_topup`** — the parser gives back the topup that the message was built from.
-/

namespace ElusivSdk

open TransactionParsing InstructionParsing

def COMPUTE_UNIT_LIMIT : ℕ := 1400000
def COMPUTE_UNIT_PRICE : ℕ := 0

/-- The hashes of a commitment, 32 bytes each.  The core hash leaves balance and index out. -/
structure Poseidon where
  getCommitmentHash : IncompleteCommitment → Bytes
  getCommitmentHashCore : IncompleteCommitment → Bytes
  length_getCommitmentHash : ∀ comm, (getCommitmentHash comm).length = 32
  length_getCommitmentHashCore : ∀ comm, (getCommitmentHashCore comm).length = 32

structure FeeVersionData where
  feeVersion : ℕ
  minBatchingRate : ℕ
deriving DecidableEq

/-- A topup that is not on chain yet. -/
structure StoreTx where
  sender : PublicKey
  parsedPrivateBalance : ℤ
  hashAccIndex : ℕ
  isRecipient : Bool
  nonce : ℕ
  tokenType : TokenType
  identifier : PublicKey
  amount : ℤ
  fee : ℤ
  commitmentHash : Bytes
  merkleStartIndex : ℕ
  warden : PublicKey
  commitment : IncompleteCommitment
deriving DecidableEq

/-- The same topup on chain, with the fee that was paid for it. -/
def StoreTx.landed (storeTx : StoreTx) (fee : ℤ) (signature : ConfirmedSignatureInfo) :
    ElusivTransaction :=
  { nonce := storeTx.nonce
    tokenType := storeTx.tokenType
    identifier := some storeTx.identifier
    amount := storeTx.amount
    fee := fee
    commitmentHash := storeTx.commitmentHash
    merkleStartIndex := storeTx.merkleStartIndex
    warden := some storeTx.warden
    transactionStatus := some .PENDING
    signature := some signature
    body := .store
      { sender := some storeTx.sender
        parsedPrivateBalance := storeTx.parsedPrivateBalance
        hashAccIndex := storeTx.hashAccIndex
        isRecipient := storeTx.isRecipient } }

namespace InstructionBuilding

/-! ## The instructions -/

def buildTopupCommitment (nonce : ℕ) (amount : ℤ) (tokenType : TokenType) (merkleStartIndex : ℕ)
    (seedWrapper : SeedWrapper) : IncompleteCommitment :=
  { nullifier := seedWrapper.generateNullifier nonce
    balance := amount
    tokenType := tokenType
    assocCommIndex := merkleStartIndex }

/-- The store instruction of a topup. -/
def storeInstruction (poseidon : Poseidon) (rvk : RVKWrapper) (storeTx : StoreTx)
    (feeVersionData : FeeVersionData) (metadata : CommitmentMetadata) : StoreInstruction :=
  let commHash := poseidon.getCommitmentHash storeTx.commitment
  { hashAccIndex := storeTx.hashAccIndex
    coreCommitmentHash := poseidon.getCommitmentHashCore storeTx.commitment
    commitmentHash := commHash
    feeVersion := feeVersionData.feeVersion
    minBatchingRate := feeVersionData.minBatchingRate
    metadata := metadata
    serializedMetadata := (metadata.serializeAndEncrypt rvk commHash).cipherText }

def computeInstruction (storeTx : StoreTx) : ComputeHashInstruction :=
  { nonce := storeTx.nonce
    hashAccIndex := storeTx.hashAccIndex
    currPrivateBalance := storeTx.parsedPrivateBalance
    isRecipient := storeTx.isRecipient
    programNonce := 0 }

def buildVariableTopupIxs (poseidon : Poseidon) (rvk : RVKWrapper) (storeTx : StoreTx)
    (accs : ProgramAccounts) (sender warden : PublicKey) (feeVersionData : FeeVersionData) :
    Except Failure (List TransactionInstruction) := do
  let metadata ← CommitmentMetadata.fromCommitment storeTx.nonce storeTx.commitment
  pure
    [(storeInstruction poseidon rvk storeTx feeVersionData metadata).compileInstruction accs rvk
        storeTx.nonce sender warden,
      (computeInstruction storeTx).compileInstruction rvk accs]

def buildConstantTopupIxs (accs : ProgramAccounts) : List TransactionInstruction :=
  [accs.setComputeUnitLimit COMPUTE_UNIT_LIMIT, accs.setComputeUnitPrice COMPUTE_UNIT_PRICE]

def buildTopupInstructions (poseidon : Poseidon) (rvk : RVKWrapper) (storeTx : StoreTx)
    (accs : ProgramAccounts) (feeVersionData : FeeVersionData) :
    Except Failure (List TransactionInstruction) := do
  let variableIxs ← buildVariableTopupIxs poseidon rvk storeTx accs storeTx.sender storeTx.warden
    feeVersionData
  pure (buildConstantTopupIxs accs ++ variableIxs)

end InstructionBuilding

open InstructionBuilding

/-! ## What reaches the parser -/

/-- A node reports the instructions of our program in base 58, and parses those of programs it knows. -/
def ReportedAs (accs : ProgramAccounts) (ix : TransactionInstruction) (reported : MessageInstruction) :
    Prop :=
  reported = .partiallyDecoded ix.reported ∨
    (ix.programId ≠ accs.elusivProgramId ∧ ∃ parsed, reported = .parsed parsed)

lemma ReportedAs.of_elusiv {accs : ProgramAccounts} {ix : TransactionInstruction}
    {reported : MessageInstruction} (h : ReportedAs accs ix reported)
    (hprogram : ix.programId = accs.elusivProgramId) : reported = .partiallyDecoded ix.reported := by
  rcases h with h | ⟨hne, -⟩
  · exact h
  · exact absurd hprogram hne

/-- A transfer of `fee`, as the node reports it for the token. -/
def IsFeeTransfer (tokenType : TokenType) (fee : ℕ) (info : TransferInfo) : Prop :=
  info.destination.isSome ∧ info.source.isSome ∧
    if tokenType = .LAMPORTS then info.lamports = some fee
    else info.multisigAuthority.isSome ∧ info.signers.isSome ∧ info.amount = some (toString fee)

/-- The store instruction called as many instructions as it should, the first of which pays the fee. -/
def CarriesFee (cpis : List ParsedInnerInstruction) (tokenType : TokenType) (fee : ℕ) : Prop :=
  ∃ inner ix rest info type, cpis.find? (fun ix => ix.index == STORE_IX_INDEX) = some inner ∧
    inner.instructions = .parsed ix :: rest ∧
    rest.length = (if tokenType = .LAMPORTS then 4 else 5) ∧
    ix.parsed = some ⟨some info, some type⟩ ∧ IsFeeTransfer tokenType fee info

lemma CarriesFee.tryParseFee {cpis : List ParsedInnerInstruction} {tokenType : TokenType} {fee : ℕ}
    (h : CarriesFee cpis tokenType fee) : tryParseFeeFromStoreCPIs cpis tokenType = .ok (fee : ℤ) := by
  rcases h with ⟨inner, ix, rest, info, type, hfind, hixs, hrest, hparsed, hdestination, hsource, hfee⟩
  rw [tryParseFeeFromStoreCPIs, hfind]
  by_cases htoken : tokenType = .LAMPORTS
  · rw [if_pos htoken] at hrest hfee
    rcases List.length_eq_four.mp hrest with ⟨a, b, c, d, rfl⟩
    simp only [htoken, if_true, hixs, hparsed, isParsedLamportTransfer, hdestination, hsource,
      Option.isSome_some, Bool.and_self, hfee]
    rfl
  · rw [if_neg htoken] at hrest hfee
    rcases hfee with ⟨hauthority, hsigners, hamount⟩
    rcases List.exists_of_length_succ rest hrest with ⟨a, rest, rfl⟩
    rcases List.length_eq_four.mp (Nat.succ_injective hrest) with ⟨b, c, d, e, rfl⟩
    simp only [htoken, if_false, hixs, hparsed, isParsedSPLTransfer, hdestination, hsource,
      hauthority, hsigners, Option.isSome_some, Bool.and_self, if_true, hamount]
    rw [← BigInt_toString fee]
    rfl

/-! ## The round trip -/

/-- A topup that the wallet builds: its fields are in range, and hash, commitment and identifier belong
to it. -/
structure StoreTx.WellFormed (storeTx : StoreTx) (poseidon : Poseidon) (seedWrapper : SeedWrapper) :
    Prop where
  nonce_le : storeTx.nonce ≤ MAX_UINT32
  amount_nonneg : 0 ≤ storeTx.amount
  amount_le : storeTx.amount ≤ MAX_UINT64
  parsedPrivateBalance_nonneg : 0 ≤ storeTx.parsedPrivateBalance
  parsedPrivateBalance_le : storeTx.parsedPrivateBalance ≤ MAX_UINT64
  merkleStartIndex_lt : storeTx.merkleStartIndex < 2 ^ 20
  hashAccIndex_le : storeTx.hashAccIndex ≤ MAX_UINT32
  identifier_eq : storeTx.identifier
    = seedWrapper.getRootViewingKeyWrapper.getIdentifierKey storeTx.nonce
  commitment_eq : storeTx.commitment = buildTopupCommitment storeTx.nonce storeTx.amount
    storeTx.tokenType storeTx.merkleStartIndex seedWrapper
  commitmentHash_eq : storeTx.commitmentHash = poseidon.getCommitmentHash storeTx.commitment

structure FeeVersionData.WellFormed (feeVersionData : FeeVersionData) : Prop where
  feeVersion_le : feeVersionData.feeVersion ≤ MAX_UINT32
  minBatchingRate_le : feeVersionData.minBatchingRate ≤ MAX_UINT32

namespace StoreTx.WellFormed

variable {storeTx : StoreTx} {poseidon : Poseidon} {seedWrapper : SeedWrapper}
  (h : storeTx.WellFormed poseidon seedWrapper)
include h

/-- The metadata of the topup's own commitment. -/
lemma fromCommitment : ∃ metadata : CommitmentMetadata,
    CommitmentMetadata.fromCommitment storeTx.nonce storeTx.commitment = .ok metadata ∧
      metadata.tokenType = storeTx.tokenType ∧ metadata.assocCommIndex = storeTx.merkleStartIndex ∧
      metadata.balance = storeTx.amount := by
  have hindex : storeTx.merkleStartIndex ≤ MAX_UINT20 := by
    have hlt := h.merkleStartIndex_lt
    have hmax : MAX_UINT20 + 1 = 2 ^ 20 := by decide
    omega
  rw [CommitmentMetadata.fromCommitment_eq, h.commitment_eq, buildTopupCommitment,
    CommitmentMetadata.new_eq_ok h.nonce_le hindex h.amount_nonneg h.amount_le]
  exact ⟨_, rfl, rfl, rfl, rfl⟩

lemma storeInstruction_wellFormed {feeVersionData : FeeVersionData} (hfee : feeVersionData.WellFormed)
    (rvk : RVKWrapper) (metadata : CommitmentMetadata) :
    (storeInstruction poseidon rvk storeTx feeVersionData metadata).WellFormed rvk := by
  rw [storeInstruction]
  exact
    { hashAccIndex_le := h.hashAccIndex_le
      length_core := poseidon.length_getCommitmentHashCore _
      length_hash := poseidon.length_getCommitmentHash _
      feeVersion_le := hfee.feeVersion_le
      minBatchingRate_le := hfee.minBatchingRate_le
      serialized := by dsimp only }

lemma computeInstruction_wellFormed : (computeInstruction storeTx).WellFormed where
  hashAccIndex_le := h.hashAccIndex_le
  programNonce_le := Nat.zero_le _
  currPrivateBalance_nonneg := h.parsedPrivateBalance_nonneg
  currPrivateBalance_le := h.parsedPrivateBalance_le

end StoreTx.WellFormed

/-- Which message a node makes of the four instructions. -/
lemma instructions_of_reported {accs : ProgramAccounts} {store compute : TransactionInstruction}
    (hstore : store.programId = accs.elusivProgramId)
    (hcompute : compute.programId = accs.elusivProgramId) {instructions : List MessageInstruction}
    (h : List.Forall₂ (ReportedAs accs) (buildConstantTopupIxs accs ++ [store, compute])
      instructions) :
    ∃ first second, instructions
      = [first, second, .partiallyDecoded store.reported, .partiallyDecoded compute.reported] := by
  rw [buildConstantTopupIxs] at h
  rcases List.forall₂_cons_left_iff.mp h with ⟨first, rest₁, -, h₁, hinstructions⟩
  rcases List.forall₂_cons_left_iff.mp h₁ with ⟨second, rest₂, -, h₂, rfl⟩
  rcases List.forall₂_cons_left_iff.mp h₂ with ⟨third, rest₃, hthird, h₃, rfl⟩
  rcases List.forall₂_cons_left_iff.mp h₃ with ⟨fourth, rest₄, hfourth, h₄, rfl⟩
  rw [hinstructions, List.forall₂_nil_left_iff.mp h₄, hthird.of_elusiv hstore,
    hfourth.of_elusiv hcompute]
  exact ⟨first, second, rfl⟩

/-- A compiled store instruction belongs to the identifier key of its nonce. -/
lemma isStoreIx_compile (ix : StoreInstruction) (accs : ProgramAccounts) (rvk : RVKWrapper) (nonce : ℕ)
    (sender warden : PublicKey) :
    isStoreIx accs (ix.compileInstruction accs rvk nonce sender warden).reported
      (rvk.getIdentifierKey nonce) = true := by
  have hacc : rvk.getIdentifierKey nonce
      ∈ (ix.compileInstruction accs rvk nonce sender warden).reported.accounts :=
    List.mem_of_getElem? (getIdentifierAcc_compile accs rvk nonce sender warden ix)
  have hfind : ((ix.compileInstruction accs rvk nonce sender warden).reported.accounts.find?
      fun k => k == rvk.getIdentifierKey nonce).isSome = true :=
    List.find?_isSome.mpr ⟨_, hacc, beq_self_eq_true _⟩
  have hcode : (bs58ToBytes (ix.compileInstruction accs rvk nonce sender warden).reported.data)[0]?
      = some (UInt8.ofNat STORE_BASE_COMM_IX_CODE) := by
    show (bs58ToBytes (bytesToBs58 _))[0]? = _
    rw [bs58ToBytes_bytesToBs58]
    rfl
  have hprogram : isElusivIx accs (ix.compileInstruction accs rvk nonce sender warden).reported
      = true := beq_self_eq_true accs.elusivProgramId
  rw [isStoreIx, isStoreBaseCommIx, isIdentifierIxWithCode, isIdentifierIx, hprogram, hfind, hcode]
  rfl

namespace StoreTx.WellFormed

variable {storeTx : StoreTx} {poseidon : Poseidon} {seedWrapper : SeedWrapper}
  (h : storeTx.WellFormed poseidon seedWrapper) {feeVersionData : FeeVersionData}
  (hfee : feeVersionData.WellFormed)
include h hfee

/-- The message of a topup parses to the topup. -/
lemma tryParseRawStore_message (accs : ProgramAccounts) {metadata : CommitmentMetadata}
    (hmetadata : CommitmentMetadata.fromCommitment storeTx.nonce storeTx.commitment = .ok metadata)
    {message : ParsedMessage} {first second : MessageInstruction}
    (hmessage : message.instructions = [first, second,
      .partiallyDecoded ((storeInstruction poseidon seedWrapper.getRootViewingKeyWrapper storeTx
        feeVersionData metadata).compileInstruction accs seedWrapper.getRootViewingKeyWrapper
          storeTx.nonce storeTx.sender storeTx.warden).reported,
      .partiallyDecoded ((computeInstruction storeTx).compileInstruction
        seedWrapper.getRootViewingKeyWrapper accs).reported])
    {cpis : List ParsedInnerInstruction} {fee : ℕ} (hcpis : CarriesFee cpis storeTx.tokenType fee)
    (signature : ConfirmedSignatureInfo) :
    tryParseRawStore message cpis signature storeTx.nonce storeTx.identifier
      seedWrapper.getRootViewingKeyWrapper = .ok (storeTx.landed fee signature) := by
  rcases h.fromCommitment with ⟨m, hm, htoken, hindex, hbalance⟩
  obtain rfl : metadata = m := Except.ok.inj (hmetadata.symm.trans hm)
  have hres := tryParseVariableInstructionsStore_compile accs seedWrapper.getRootViewingKeyWrapper
    storeTx.nonce storeTx.sender storeTx.warden
    (h.storeInstruction_wellFormed hfee seedWrapper.getRootViewingKeyWrapper metadata)
    h.computeInstruction_wellFormed
  have hparsedFee := hcpis.tryParseFee
  rw [← htoken] at hparsedFee
  refine (tryParseRawStore_eq_ok hmessage hres hparsedFee signature storeTx.identifier).trans ?_
  rw [StoreTx.landed, ← htoken, ← hindex, ← hbalance, h.commitmentHash_eq]
  rfl

end StoreTx.WellFormed

/-- **The topup round trip.**  The message of a topup is recognised for the identifier key of the nonce,
however the node reports it, and parses to exactly the topup that it was built from. -/
theorem StoreTx.tryParseRawStore_built {storeTx : StoreTx} {poseidon : Poseidon}
    {seedWrapper : SeedWrapper} (h : storeTx.WellFormed poseidon seedWrapper)
    {feeVersionData : FeeVersionData} (hfee : feeVersionData.WellFormed) (accs : ProgramAccounts) :
    ∃ ixs, buildTopupInstructions poseidon seedWrapper.getRootViewingKeyWrapper storeTx accs
        feeVersionData = .ok ixs ∧
      ∀ message : ParsedMessage, List.Forall₂ (ReportedAs accs) ixs message.instructions →
        isStoreTx accs message
          (seedWrapper.getRootViewingKeyWrapper.getIdentifierKey storeTx.nonce) = true ∧
        ∀ (cpis : List ParsedInnerInstruction) (fee : ℕ) (signature : ConfirmedSignatureInfo),
          CarriesFee cpis storeTx.tokenType fee →
          tryParseRawStore message cpis signature storeTx.nonce
            (seedWrapper.getRootViewingKeyWrapper.getIdentifierKey storeTx.nonce)
            seedWrapper.getRootViewingKeyWrapper = .ok (storeTx.landed fee signature) := by
  rcases h.fromCommitment with ⟨metadata, hmetadata, -, -, -⟩
  set rvk := seedWrapper.getRootViewingKeyWrapper with hrvk
  have hbuilt : buildTopupInstructions poseidon rvk storeTx accs feeVersionData
      = .ok (buildConstantTopupIxs accs ++
        [(storeInstruction poseidon rvk storeTx feeVersionData metadata).compileInstruction accs rvk
          storeTx.nonce storeTx.sender storeTx.warden,
        (computeInstruction storeTx).compileInstruction rvk accs]) := by
    rw [buildTopupInstructions, buildVariableTopupIxs, hmetadata]
    rfl
  refine ⟨_, hbuilt, fun message hreported => ?_⟩
  rcases instructions_of_reported rfl rfl hreported with ⟨first, second, hmessage⟩
  constructor
  · have hmem : ((storeInstruction poseidon rvk storeTx feeVersionData metadata).compileInstruction
        accs rvk storeTx.nonce storeTx.sender storeTx.warden).reported ∈ message.partiallyDecoded := by
      rw [ParsedMessage.mem_partiallyDecoded, hmessage]
      simp
    exact List.any_eq_true.mpr ⟨_, hmem, isStoreIx_compile _ accs rvk storeTx.nonce _ _⟩
  · intro cpis fee signature hcpis
    rw [← h.identifier_eq]
    exact h.tryParseRawStore_message hfee accs hmetadata hmessage hcpis signature

/-! ### A concrete topup -/

/-- Primitives without cryptography: what is derived is what it is derived from. -/
def plainPrimitives : Primitives where
  hkdf ikm salt info length :=
    (info.toUTF8.toList ++ salt ++ ikm ++ List.replicate length 0).take length
  hkdf_length ikm salt info length _ := by
    rw [List.length_take, List.length_append, List.length_replicate]
    omega
  keyStream key iv i := key.getD (i % 32) 0 + iv.getD (i % 16) 0

/-- Hashes that show balance and index. -/
def plainPoseidon : Poseidon where
  getCommitmentHash comm := Format.leBytes 32 (comm.assocCommIndex * 256 ^ 8 + comm.balance.toNat)
  getCommitmentHashCore _ := Format.leBytes 32 0
  length_getCommitmentHash _ := Format.length_leBytes _ _
  length_getCommitmentHashCore _ := Format.length_leBytes _ _

/-- Accounts that differ in their bytes. -/
def plainAccounts : ProgramAccounts where
  elusivProgramId := ElusivTransaction.bareKey 1
  generateElusivPDAFrom seeds offset := (ElusivTransaction.bareKey seeds.length.toUInt8,
    (offset.getD 0).toUInt8)
  getAssociatedTokenAcc _ _ := ElusivTransaction.bareKey 2
  getPythPriceAccount _ := ElusivTransaction.bareKey 3
  systemProgramId := ElusivTransaction.bareKey 0
  tokenProgramId := ElusivTransaction.bareKey 4
  setComputeUnitLimit n := ⟨[], ElusivTransaction.bareKey 5, Format.leBytes 5 n⟩
  setComputeUnitPrice n := ⟨[], ElusivTransaction.bareKey 5, Format.leBytes 5 n⟩

def plainSeed : SeedWrapper := ⟨plainPrimitives, [1, 2, 3, 4, 5]⟩

/-- A topup of `amount`, as the wallet builds it from `plainSeed`. -/
def plainStoreTx (nonce : ℕ) (tokenType : TokenType) (amount : ℕ) (privateBalance : ℤ) : StoreTx :=
  let commitment := buildTopupCommitment nonce amount tokenType 7 plainSeed
  { nonce := nonce
    tokenType := tokenType
    identifier := plainSeed.getRootViewingKeyWrapper.getIdentifierKey nonce
    amount := amount
    fee := 0
    commitmentHash := plainPoseidon.getCommitmentHash commitment
    merkleStartIndex := 7
    warden := ElusivTransaction.bareKey 11
    commitment := commitment
    sender := ElusivTransaction.bareKey 12
    parsedPrivateBalance := privateBalance
    hashAccIndex := 3
    isRecipient := true }

lemma plainStoreTx_wellFormed {nonce amount : ℕ} {privateBalance : ℤ} (tokenType : TokenType)
    (hnonce : nonce ≤ MAX_UINT32) (hamount : amount ≤ MAX_UINT64) (hlow : 0 ≤ privateBalance)
    (hhigh : privateBalance ≤ MAX_UINT64) :
    (plainStoreTx nonce tokenType amount privateBalance).WellFormed plainPoseidon plainSeed where
  nonce_le := hnonce
  amount_nonneg := Int.natCast_nonneg amount
  amount_le := Int.ofNat_le.mpr hamount
  parsedPrivateBalance_nonneg := hlow
  parsedPrivateBalance_le := hhigh
  merkleStartIndex_lt := by
    show 7 < 2 ^ 20
    decide
  hashAccIndex_le := by
    show 3 ≤ MAX_UINT32
    decide
  identifier_eq := rfl
  commitment_eq := rfl
  commitmentHash_eq := rfl

/-- The store instruction of a token called six instructions, the first of which pays the fee. -/
def plainStoreCPIs (fee : ℕ) : List ParsedInnerInstruction :=
  let transfer : ParsedInstruction :=
    { program := "spl-token"
      programId := ElusivTransaction.bareKey 4
      parsed := some
        { info := some ⟨some "fee collector", some "warden", none, some (toString fee), some "warden",
            some []⟩
          type := some "transfer" } }
  [{ index := STORE_IX_INDEX, instructions := List.replicate 6 (.parsed transfer) }]

lemma carriesFee_plainStoreCPIs (fee : ℕ) : CarriesFee (plainStoreCPIs fee) .BONK fee :=
  ⟨_, _, _, _, _, rfl, rfl, rfl, rfl, rfl, rfl, rfl, rfl, rfl⟩

theorem StoreTx.tryParseRawStore_built_bonk : ∃ ixs message,
    buildTopupInstructions plainPoseidon plainSeed.getRootViewingKeyWrapper
      (plainStoreTx MAX_UINT32 .BONK MAX_UINT64 MAX_UINT64) plainAccounts ⟨100, 200⟩ = .ok ixs ∧
    List.Forall₂ (ReportedAs plainAccounts) ixs message.instructions ∧
    isStoreTx plainAccounts message
      (plainSeed.getRootViewingKeyWrapper.getIdentifierKey MAX_UINT32) = true ∧
    tryParseRawStore message (plainStoreCPIs MAX_UINT64) ⟨"signature", none, none⟩ MAX_UINT32
      (plainSeed.getRootViewingKeyWrapper.getIdentifierKey MAX_UINT32)
      plainSeed.getRootViewingKeyWrapper
      = .ok ((plainStoreTx MAX_UINT32 .BONK MAX_UINT64 MAX_UINT64).landed MAX_UINT64
        ⟨"signature", none, none⟩) := by
  have hwf := plainStoreTx_wellFormed .BONK (le_refl MAX_UINT32) (le_refl MAX_UINT64)
    (Int.natCast_nonneg MAX_UINT64) le_rfl
  have hfee : FeeVersionData.WellFormed ⟨100, 200⟩ := ⟨by decide, by decide⟩
  rcases StoreTx.tryParseRawStore_built hwf hfee plainAccounts with ⟨ixs, hixs, hparse⟩
  let message : ParsedMessage := ⟨ixs.map fun ix => .partiallyDecoded ix.reported⟩
  have hreported : List.Forall₂ (ReportedAs plainAccounts) ixs message.instructions := by
    refine List.forall₂_map_right_iff.mpr (List.forall₂_same.mpr fun ix _ => ?_)
    exact Or.inl rfl
  rcases hparse message hreported with ⟨hstore, hok⟩
  exact ⟨ixs, message, hixs, hreported, hstore,
    hok (plainStoreCPIs MAX_UINT64) MAX_UINT64 _ (carriesFee_plainStoreCPIs MAX_UINT64)⟩

end ElusivSdk
