import ElusivSdk.TxBuilding.KeyStreams
import ElusivSdk.TxBuilding.SendSerialization
import ElusivSdk.TxBuilding.TransactionBuilding

/-!
# The request of a topup

A topup is signed by its sender, and its transaction goes to a warden as JSON: the signatures, the keys of the
message and the instructions, which point at keys.  The warden adds its signature and sends it on.

* `Transaction`, `buildRawTopupTransaction` — the transaction of a topup; `Message` is what it compiles to.
* `serializePartiallySignedStore` — the request.
* `TransactionSerialized.instructions?` — what the request says, read back.
* **`TransactionSerialized.instructions?_eq`** — that is what the transaction says.
* **`tryParseRawStore_onChain`** — there is a request exactly when the sender is not the warden, and what
  lands from it is read as the topup that was built.
-/

namespace ElusivSdk

open InstructionBuilding InstructionParsing Program TransactionBuilding TransactionParsing

/-! ## Transactions -/

/-- An entry of `signatures`, with the signature if the key has signed. -/
structure SignaturePubkeyPair where
  publicKey : PublicKey
  signature : Option Bytes
deriving DecidableEq

structure Transaction where
  feePayer : PublicKey
  instructions : List TransactionInstruction
  recentBlockhash : Base58Text
  signatures : List SignaturePubkeyPair
deriving DecidableEq

structure MessageHeader where
  numRequiredSignatures : ℕ
  numReadonlySignedAccounts : ℕ
  numReadonlyUnsignedAccounts : ℕ
deriving DecidableEq

/-- Keys by their place in the message. -/
structure MessageCompiledInstruction where
  programIdIndex : ℕ
  accountKeyIndexes : List ℕ
  data : Bytes
deriving DecidableEq

structure Message where
  header : MessageHeader
  accountKeys : List PublicKey
  recentBlockhash : Base58Text
  compiledInstructions : List MessageCompiledInstruction
deriving DecidableEq

/-- Nobody has signed yet. -/
def buildRawTopupTransaction (storeTx : StoreTx) (instructions : List TransactionInstruction)
    (blockhash : Base58Text) : Transaction :=
  { feePayer := storeTx.warden
    instructions := instructions
    recentBlockhash := blockhash
    signatures := [] }

/-- The same transaction, with other signatures. -/
def Transaction.signedWith (tx : Transaction) (signatures : List SignaturePubkeyPair) : Transaction :=
  { tx with signatures := signatures }

/-- Who has to sign: who pays, and every signer of an instruction. -/
def Transaction.signers (tx : Transaction) : List PublicKey :=
  (tx.feePayer :: ((tx.instructions.flatMap TransactionInstruction.keys).filter
    AccountMeta.isSigner).map AccountMeta.pubkey).dedup

/-- The compiled instruction points at the keys of the instruction. -/
structure Message.Compiles (message : Message) (ix : TransactionInstruction)
    (compiled : MessageCompiledInstruction) : Prop where
  programId : message.accountKeys[compiled.programIdIndex]? = some ix.programId
  accounts : List.Forall₂
    (fun (index : ℕ) (key : AccountMeta) => message.accountKeys[index]? = some key.pubkey)
    compiled.accountKeyIndexes ix.keys
  data : compiled.data = ix.data

/-- What `compileMessage` makes of a transaction; who pays is the first key. -/
structure Transaction.CompilesTo (tx : Transaction) (message : Message) : Prop where
  instructions : List.Forall₂ message.Compiles tx.instructions message.compiledInstructions
  feePayer : message.accountKeys.head? = some tx.feePayer
  recentBlockhash : message.recentBlockhash = tx.recentBlockhash

/-! ## The request -/

/-- `[[length], ...items]`. -/
structure DataSerialized (T : Type) where
  length : ℕ
  items : List T
deriving DecidableEq

structure TxInstructionSerialized where
  programIdIndex : ℕ
  accounts : DataSerialized ℕ
  data : DataSerialized UInt8
deriving DecidableEq

structure TxMessageSerialized where
  header : MessageHeader
  accountKeys : DataSerialized Bytes
  recentBlockhash : Bytes
  instructions : DataSerialized TxInstructionSerialized
deriving DecidableEq

structure TransactionSerialized where
  signatures : DataSerialized Bytes
  message : TxMessageSerialized
deriving DecidableEq

/-- The items after their number. -/
def DataSerialized.of {T : Type} (items : List T) : DataSerialized T := ⟨items.length, items⟩

def serializeMessageCompiledIx (ix : MessageCompiledInstruction) : TxInstructionSerialized :=
  { programIdIndex := ix.programIdIndex
    accounts := .of ix.accountKeyIndexes
    data := .of ix.data }

def serializeMessageCompiledIxs (ixs : List MessageCompiledInstruction) :
    DataSerialized TxInstructionSerialized := .of (ixs.map serializeMessageCompiledIx)

/-- A missing signature is written as zeros. -/
def signatureBytes (s : SignaturePubkeyPair) : Bytes := s.signature.getD (List.replicate 64 0)

def serializeSignatures (sigs : List SignaturePubkeyPair) : DataSerialized Bytes :=
  .of (sigs.map signatureBytes)

def serializeKeys (keys : List PublicKey) : DataSerialized Bytes := .of (keys.map PublicKey.bytes)

/-- `compileMessage` is that of web3.js. -/
def serializePartiallySignedStore (compileMessage : Transaction → Except Failure Message)
    (tx : Transaction) : Except Failure (WardenRequest TransactionSerialized) :=
  if tx.signatures.length ≠ 2 then .error (.error "Missing signature in transaction")
  else do
    let serializedSigs := serializeSignatures tx.signatures
    let compiledMessage ← compileMessage tx
    let message : TxMessageSerialized :=
      { header := compiledMessage.header
        accountKeys := serializeKeys compiledMessage.accountKeys
        recentBlockhash := bs58ToBytes compiledMessage.recentBlockhash
        instructions := serializeMessageCompiledIxs compiledMessage.compiledInstructions }
    pure (buildWardenRequest "elusiv_store" { signatures := serializedSigs, message := message })

/-! ## What the request says -/

/-- The items, if they are as many as the number says. -/
def DataSerialized.read? {T : Type} (data : DataSerialized T) : Option (List T) :=
  if data.length = data.items.length then some data.items else none

/-- An instruction, with keys in the place of what points at them. -/
def TxInstructionSerialized.read? (keys : List PublicKey) (ix : TxInstructionSerialized) :
    Option PartiallyDecodedInstruction := do
  let programId ← keys[ix.programIdIndex]?
  let indexes ← ix.accounts.read?
  let accounts ← indexes.mapM fun index => keys[index]?
  let data ← ix.data.read?
  pure { programId := programId, accounts := accounts, data := bytesToBs58 data }

def TxMessageSerialized.keys? (message : TxMessageSerialized) : Option (List PublicKey) := do
  let keys ← message.accountKeys.read?
  keys.mapM publicKey.parse

def TransactionSerialized.feePayer? (tx : TransactionSerialized) : Option PublicKey := do
  let keys ← tx.message.keys?
  keys.head?

def TransactionSerialized.instructions? (tx : TransactionSerialized) :
    Option (List PartiallyDecodedInstruction) := do
  let keys ← tx.message.keys?
  let ixs ← tx.message.instructions.read?
  ixs.mapM fun ix => ix.read? keys

@[simp]
lemma DataSerialized.read?_of {T : Type} (items : List T) : (DataSerialized.of items).read? = some items :=
  if_pos rfl

/-- What is read one by one is read together. -/
lemma mapM_eq_some_of_forall₂ {α β : Type} {f : α → Option β} {l : List α} {l' : List β}
    (h : List.Forall₂ (fun a b => f a = some b) l l') : l.mapM f = some l' := by
  induction h with
  | nil => rfl
  | cons ha _ ih => simp [List.mapM_cons, ha, ih]

lemma TxMessageSerialized.keys?_of {message : TxMessageSerialized} {keys : List PublicKey}
    (h : message.accountKeys = serializeKeys keys) : message.keys? = some keys := by
  have hparse : (keys.map PublicKey.bytes).mapM publicKey.parse = some keys := by
    refine mapM_eq_some_of_forall₂ (List.forall₂_map_left_iff.mpr (List.forall₂_same.mpr ?_))
    intro key _
    exact publicKey.parse_encode (a := key) trivial
  rw [keys?, h, serializeKeys, DataSerialized.read?_of]
  exact hparse

/-- An instruction is read as a node reports it. -/
lemma Message.Compiles.read?_eq {message : Message} {ix : TransactionInstruction}
    {compiled : MessageCompiledInstruction} (h : message.Compiles ix compiled) :
    (serializeMessageCompiledIx compiled).read? message.accountKeys = some ix.reported := by
  have haccounts : compiled.accountKeyIndexes.mapM (fun index => message.accountKeys[index]?)
      = some (ix.keys.map AccountMeta.pubkey) :=
    mapM_eq_some_of_forall₂ (List.forall₂_map_right_iff.mpr h.accounts)
  simp [TxInstructionSerialized.read?, serializeMessageCompiledIx, h.programId, haccounts, h.data,
    TransactionInstruction.reported]

section Request

variable {compileMessage : Transaction → Except Failure Message} {tx : Transaction} {message : Message}
  {json : WardenRequest TransactionSerialized}

/-- A request is written when there are two signatures, and then it says what the transaction says. -/
lemma serializePartiallySignedStore_eq_ok_iff (hcompile : compileMessage tx = .ok message) :
    serializePartiallySignedStore compileMessage tx = .ok json ↔ tx.signatures.length = 2 ∧
      json = buildWardenRequest "elusiv_store"
        { signatures := serializeSignatures tx.signatures
          message :=
            { header := message.header
              accountKeys := serializeKeys message.accountKeys
              recentBlockhash := bs58ToBytes message.recentBlockhash
              instructions := serializeMessageCompiledIxs message.compiledInstructions } } := by
  rw [serializePartiallySignedStore]
  split_ifs with hlength
  · simp [hlength]
  · rw [not_not] at hlength
    rw [hcompile]
    constructor
    · intro h
      exact ⟨hlength, (Except.ok.inj h).symm⟩
    · rintro ⟨-, rfl⟩
      rfl

/-- **The instructions are read back from the request.** -/
lemma TransactionSerialized.instructions?_eq (hcompile : compileMessage tx = .ok message)
    (hmessage : tx.CompilesTo message)
    (hjson : serializePartiallySignedStore compileMessage tx = .ok json) :
    json.params.instructions? = some (tx.instructions.map TransactionInstruction.reported) := by
  obtain ⟨-, rfl⟩ := (serializePartiallySignedStore_eq_ok_iff hcompile).mp hjson
  have hixs : (message.compiledInstructions.map serializeMessageCompiledIx).mapM
      (fun ix => ix.read? message.accountKeys)
      = some (tx.instructions.map TransactionInstruction.reported) := by
    refine mapM_eq_some_of_forall₂ (List.forall₂_map_left_iff.mpr (List.forall₂_map_right_iff.mpr ?_))
    exact hmessage.instructions.flip.imp fun compiled ix hix => hix.read?_eq
  rw [instructions?, TxMessageSerialized.keys?_of rfl]
  simp only [buildWardenRequest, serializeMessageCompiledIxs, DataSerialized.read?_of, Option.bind_eq_bind,
    Option.bind_some, hixs]

end Request

/-! ## The round trip -/

/-- How a node may report what was read. -/
def ReportedFrom (accs : ProgramAccounts) (ix : PartiallyDecodedInstruction) (reported : MessageInstruction) :
    Prop :=
  reported = .partiallyDecoded ix ∨
    (ix.programId ≠ accs.elusivProgramId ∧ ∃ parsed, reported = .parsed parsed)

/-- Nobody signs for the instructions about compute units. -/
def ProgramAccounts.BudgetUnsigned (accs : ProgramAccounts) : Prop :=
  ∀ n : ℕ, (∀ key ∈ (accs.setComputeUnitLimit n).keys, key.isSigner = false) ∧
    ∀ key ∈ (accs.setComputeUnitPrice n).keys, key.isSigner = false

/-- What a topup is asked for is in the range of the wire. -/
structure StoreTx.InRange (storeTx : StoreTx) : Prop where
  parsedPrivateBalance_nonneg : 0 ≤ storeTx.parsedPrivateBalance
  parsedPrivateBalance_le : storeTx.parsedPrivateBalance ≤ MAX_UINT64
  hashAccIndex_le : storeTx.hashAccIndex ≤ MAX_UINT32

section RoundTrip

variable {serialization : Serialization} {seedWrapper : SeedWrapper} {accs : ProgramAccounts}
  {poseidon : Poseidon} {request : TopupRequest} {params : FetchedParams} {mergeFee : Option ℤ}
  {storeTx : StoreTx} {fee : Fee} {txData : TopupTxData}

/-- A topup whose data was built is in range, as its metadata is. -/
lemma wellFormed_of_built
    (hstore : topupStore serialization seedWrapper poseidon request params mergeFee = .ok (storeTx, fee))
    (hdata : topupTxData seedWrapper accs poseidon (storeTx, fee) params mergeFee = .ok txData)
    (hrange : storeTx.InRange) : storeTx.WellFormed poseidon seedWrapper := by
  have hbuilt := topupStore_spec hstore
  obtain ⟨ixs, hixs, -⟩ := bind_eq_ok.mp hdata
  obtain ⟨variableIxs, hvariable, -⟩ := bind_eq_ok.mp hixs
  obtain ⟨metadata, hmetadata, -⟩ := bind_eq_ok.mp hvariable
  obtain ⟨hnonce, htoken, hindex, hbalance⟩ := CommitmentMetadata.of_fromCommitment hmetadata
  have hcomm := hbuilt.commitment_eq
  have hindex_le := metadata.assocCommIndex_le
  have hbalance_le := metadata.balance_le
  rw [hindex, hcomm] at hindex_le
  rw [hbalance, hcomm] at hbalance_le
  exact
    { nonce_le := hnonce ▸ metadata.nonce_le
      amount_nonneg := hbuilt.amount_pos.le
      amount_le := hbalance_le
      parsedPrivateBalance_nonneg := hrange.parsedPrivateBalance_nonneg
      parsedPrivateBalance_le := hrange.parsedPrivateBalance_le
      merkleStartIndex_lt := Nat.lt_of_le_of_lt hindex_le (by decide)
      hashAccIndex_le := hrange.hashAccIndex_le
      identifier_eq := hbuilt.identifier_eq
      commitment_eq := hcomm
      commitmentHash_eq := hbuilt.commitmentHash_eq }

/-- The four instructions of the data. -/
lemma topupTxData_tx (hdata : topupTxData seedWrapper accs poseidon (storeTx, fee) params mergeFee
      = .ok txData) :
    ∃ metadata, CommitmentMetadata.fromCommitment storeTx.nonce storeTx.commitment = .ok metadata ∧
      txData.tx = buildConstantTopupIxs accs ++
        [(storeInstruction poseidon seedWrapper.getRootViewingKeyWrapper storeTx params.feeVersionData
            metadata).compileInstruction accs seedWrapper.getRootViewingKeyWrapper storeTx.nonce
              storeTx.sender storeTx.warden,
          (computeInstruction storeTx).compileInstruction seedWrapper.getRootViewingKeyWrapper accs] := by
  obtain ⟨ixs, hixs, hdata⟩ := bind_eq_ok.mp hdata
  obtain ⟨variableIxs, hvariable, hixs⟩ := bind_eq_ok.mp hixs
  obtain ⟨metadata, hmetadata, hvariable⟩ := bind_eq_ok.mp hvariable
  obtain rfl := Except.ok.inj hvariable
  obtain rfl := Except.ok.inj hixs
  obtain rfl := Except.ok.inj hdata
  exact ⟨metadata, hmetadata, rfl⟩

/-- The sender and the warden sign. -/
lemma signers_topup (hbudget : accs.BudgetUnsigned)
    (hdata : topupTxData seedWrapper accs poseidon (storeTx, fee) params mergeFee = .ok txData)
    (blockhash : Base58Text) : (buildRawTopupTransaction storeTx txData.tx blockhash).signers
      = [storeTx.warden, storeTx.sender, storeTx.warden].dedup := by
  obtain ⟨metadata, -, htx⟩ := topupTxData_tx hdata
  have hnone {keys : List AccountMeta} (h : ∀ key ∈ keys, key.isSigner = false) :
      keys.filter AccountMeta.isSigner = [] :=
    List.filter_eq_nil_iff.mpr fun key hkey => by simp [h key hkey]
  have hlimit := hnone (hbudget COMPUTE_UNIT_LIMIT).1
  have hprice := hnone (hbudget COMPUTE_UNIT_PRICE).2
  rw [Transaction.signers, buildRawTopupTransaction, htx]
  simp [buildConstantTopupIxs, hlimit, hprice, StoreInstruction.compileInstruction, storeAccounts,
    ComputeHashInstruction.compileInstruction, ComputeHashInstruction.getAccounts]

/-- These are two when the sender is not the warden. -/
lemma length_dedup_signers (warden sender : PublicKey) :
    [warden, sender, warden].dedup.length = 2 ↔ sender ≠ warden := by
  by_cases h : sender = warden
  · simp [h]
  · simp [h, Ne.symm h]

/-- **The topup round trip, by way of the warden.**  A topup is built, its transaction is signed and written
as a request, and what is read from the request comes on chain.  There is a request exactly when the sender is
not the warden; it says the signatures, with zeros for the missing ones, and the instructions; and however a
node reports these, the parser gives back the topup, with the fee that was paid. -/
theorem tryParseRawStore_onChain
    (hstore : topupStore serialization seedWrapper poseidon request params mergeFee = .ok (storeTx, fee))
    (hdata : topupTxData seedWrapper accs poseidon (storeTx, fee) params mergeFee = .ok txData)
    (hrange : storeTx.InRange) (hfee : params.feeVersionData.WellFormed) (hbudget : accs.BudgetUnsigned)
    {compileMessage : Transaction → Except Failure Message} {blockhash : Base58Text}
    {tx : Transaction} {signatures : List SignaturePubkeyPair} {compiled : Message}
    (htx : tx = (buildRawTopupTransaction storeTx txData.tx blockhash).signedWith signatures)
    (hsigned : (signatures.map SignaturePubkeyPair.publicKey).Perm tx.signers)
    (hcompile : compileMessage tx = .ok compiled) (hcompiled : tx.CompilesTo compiled) :
    ((∃ json, serializePartiallySignedStore compileMessage tx = .ok json) ↔
      storeTx.sender ≠ storeTx.warden) ∧
    ∀ json, serializePartiallySignedStore compileMessage tx = .ok json →
      json.params.signatures.read? = some (signatures.map signatureBytes) ∧
      json.params.feePayer? = some storeTx.warden ∧
      json.params.message.recentBlockhash = bs58ToBytes blockhash ∧
      ∃ ixs, json.params.instructions? = some ixs ∧
        ∀ message : ParsedMessage, List.Forall₂ (ReportedFrom accs) ixs message.instructions →
          isStoreTx accs message storeTx.identifier = true ∧
          ∀ (cpis : List ParsedInnerInstruction) (paid : ℕ) (signature : ConfirmedSignatureInfo),
            CarriesFee cpis storeTx.tokenType paid →
            tryParseRawStore message cpis signature storeTx.nonce storeTx.identifier
              seedWrapper.getRootViewingKeyWrapper = .ok (storeTx.landed paid signature) := by
  subst htx
  have hwf := wellFormed_of_built hstore hdata hrange
  constructor
  · have hsigners := signers_topup hbudget hdata blockhash
    have hlength : signatures.length = [storeTx.warden, storeTx.sender, storeTx.warden].dedup.length := by
      rw [← hsigners, ← List.length_map]
      exact hsigned.length_eq
    rw [← length_dedup_signers, ← hlength]
    constructor
    · rintro ⟨json, hjson⟩
      exact ((serializePartiallySignedStore_eq_ok_iff hcompile).mp hjson).1
    · intro htwo
      exact ⟨_, (serializePartiallySignedStore_eq_ok_iff hcompile).mpr ⟨htwo, rfl⟩⟩
  · intro json hjson
    have hixs := TransactionSerialized.instructions?_eq hcompile hcompiled hjson
    obtain ⟨-, rfl⟩ := (serializePartiallySignedStore_eq_ok_iff hcompile).mp hjson
    refine ⟨DataSerialized.read?_of _, ?_, congrArg bs58ToBytes hcompiled.recentBlockhash, _, hixs,
      fun message hreported => ?_⟩
    · rw [TransactionSerialized.feePayer?, TxMessageSerialized.keys?_of rfl]
      exact hcompiled.feePayer
    obtain ⟨metadata, hmetadata, htx⟩ := topupTxData_tx hdata
    rw [List.forall₂_map_left_iff] at hreported
    have hreported' : List.Forall₂ (ReportedAs accs) txData.tx message.instructions := hreported
    rw [htx] at hreported'
    obtain ⟨first, second, hmessage⟩ := instructions_of_reported rfl rfl hreported'
    constructor
    · rw [hwf.identifier_eq]
      refine List.any_eq_true.mpr ⟨_, ParsedMessage.mem_partiallyDecoded.mpr ?_,
        isStoreIx_compile (storeInstruction poseidon seedWrapper.getRootViewingKeyWrapper storeTx
          params.feeVersionData metadata) accs seedWrapper.getRootViewingKeyWrapper storeTx.nonce storeTx.sender
          storeTx.warden⟩
      rw [hmessage]
      simp
    · intro cpis paid signature hcpis
      exact hwf.tryParseRawStore_message hfee accs hmetadata hmessage hcpis signature

end RoundTrip

/-! ### A topup of 600000 lamports -/

/-- The keys in the order of web3.js, but for the order of their texts. -/
def plainCompileMessage (tx : Transaction) : Except Failure Message :=
  let metas := tx.instructions.flatMap TransactionInstruction.keys ++
    tx.instructions.map fun ix => ⟨ix.programId, false, false⟩
  let signs := fun key => metas.any fun m => m.pubkey == key && m.isSigner
  let writes := fun key => metas.any fun m => m.pubkey == key && m.isWritable
  let others := (metas.map AccountMeta.pubkey).eraseDups.filter fun key => key != tx.feePayer
  let group := fun signer writable => others.filter fun key => signs key == signer && writes key == writable
  let keys := tx.feePayer :: (group true true ++ group true false ++ group false true ++ group false false)
  .ok
    { header := ⟨(group true true ++ group true false).length + 1, (group true false).length,
        (group false false).length⟩
      accountKeys := keys
      recentBlockhash := tx.recentBlockhash
      compiledInstructions := tx.instructions.map fun ix =>
        { programIdIndex := keys.idxOf ix.programId
          accountKeyIndexes := ix.keys.map fun key => keys.idxOf key.pubkey
          data := ix.data } }

instance (message : Message) (ix : TransactionInstruction) (compiled : MessageCompiledInstruction) :
    Decidable (message.Compiles ix compiled) :=
  decidable_of_iff
    (message.accountKeys[compiled.programIdIndex]? = some ix.programId ∧
      List.Forall₂ (fun (index : ℕ) (key : AccountMeta) => message.accountKeys[index]? = some key.pubkey)
        compiled.accountKeyIndexes ix.keys ∧ compiled.data = ix.data)
    ⟨fun h => ⟨h.1, h.2.1, h.2.2⟩, fun h => ⟨h.programId, h.accounts, h.data⟩⟩

namespace PlainTopup

lemma isOk : (plainTopup 600000).isOk = true := by decide +kernel

def store : StoreTx × Fee := value (plainTopup 600000) isOk

/-- The parameters of the topup. -/
def params : FetchedParams := plainParams 0 [buildTopupCommitment 0 1000000 .LAMPORTS 7 plainSeed]

lemma txData_isOk : (topupTxData plainSeed plainAccounts plainPoseidon store params none).isOk = true := by
  decide +kernel

def txData : TopupTxData :=
  value (topupTxData plainSeed plainAccounts plainPoseidon store params none) txData_isOk

/-- The sender has signed. -/
def tx : Transaction :=
  (buildRawTopupTransaction store.1 txData.tx (bytesToBs58 [1, 2, 3])).signedWith
    [⟨store.1.warden, none⟩, ⟨store.1.sender, some (List.replicate 64 7)⟩]

lemma compile_isOk : (plainCompileMessage tx).isOk = true := rfl

def compiled : Message := value (plainCompileMessage tx) compile_isOk

lemma compilesTo : tx.CompilesTo compiled where
  instructions := by decide +kernel
  feePayer := by decide +kernel
  recentBlockhash := rfl

/-- A topup of lamports calls five instructions. -/
def cpis : List ParsedInnerInstruction :=
  let transfer : ParsedInstruction :=
    { program := "system"
      programId := ElusivTransaction.bareKey 0
      parsed := some
        { info := some ⟨some "fee collector", some "warden", some 5000, none, none, none⟩
          type := some "transfer" } }
  [{ index := STORE_IX_INDEX, instructions := List.replicate 5 (.parsed transfer) }]

lemma carriesFee : CarriesFee cpis store.1.tokenType 5000 := by
  have htoken : store.1.tokenType = .LAMPORTS := by decide +kernel
  rw [htoken]
  exact ⟨_, _, _, _, _, rfl, rfl, rfl, rfl, rfl, rfl, rfl⟩

end PlainTopup

open PlainTopup in
/-- The topup of 600000 lamports, signed by its sender, on its way to the chain. -/
theorem tryParseRawStore_onChain_plainTopup : ∃ json ixs,
    serializePartiallySignedStore plainCompileMessage tx = .ok json ∧
    json.params.instructions? = some ixs ∧ ∀ signature : ConfirmedSignatureInfo,
      tryParseRawStore ⟨ixs.map .partiallyDecoded⟩ cpis signature store.1.nonce store.1.identifier
        plainSeed.getRootViewingKeyWrapper = .ok (store.1.landed 5000 signature) := by
  have hrange : store.1.InRange := ⟨by decide +kernel, by decide +kernel, by decide +kernel⟩
  have hfee : params.feeVersionData.WellFormed := ⟨by decide, by decide⟩
  have hbudget : plainAccounts.BudgetUnsigned := by
    intro n
    simp [plainAccounts]
  have htx : tx = (buildRawTopupTransaction store.1 txData.tx _).signedWith _ := rfl
  obtain ⟨hiff, hread⟩ := tryParseRawStore_onChain (eq_ok_value isOk) (eq_ok_value txData_isOk) hrange hfee
    hbudget htx (by decide +kernel) (eq_ok_value compile_isOk) compilesTo
  obtain ⟨json, hjson⟩ := hiff.mpr (by decide +kernel)
  obtain ⟨-, -, -, ixs, hixs, hparse⟩ := hread json hjson
  refine ⟨json, ixs, hjson, hixs, fun signature => (hparse ⟨ixs.map .partiallyDecoded⟩ ?_).2 cpis 5000
    signature carriesFee⟩
  exact List.forall₂_map_right_iff.mpr (List.forall₂_same.mpr fun ix _ => Or.inl rfl)

end ElusivSdk
