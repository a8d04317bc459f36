import ElusivSdk.TxBuilding.KeyStreams
import ElusivSdk.TxBuilding.TransactionBuilding
import ElusivSdk.TxBuilding.WardenInstructions

/-!
# A send on its way

A send is built and handed to a warden as a request.  The warden's two transactions come among others on the
identifier key of the send, and the owner's parser reads the send back from them.

* `RequestOf`, `requestOf_built` — what the request of a built send says.
* `SendTx.pending` — the send before its finalize transaction.
* **`tryParseRawSend_onChain`** — the parser gives back the send that was built.
-/

namespace ElusivSdk

open Format InstructionParsing Program TransactionBuilding TransactionParsing

section RoundTrip

variable {serialization : Serialization} {accs : ProgramAccounts} {ix : PartiallyDecodedInstruction}
  {poseidon : Poseidon} {circuits : Circuits poseidon} {seedWrapper : SeedWrapper}
  {params : FetchedParams} {sendRequest : SendRequest} {sendTx : SendTx} {fee : Fee}

/-- What a build puts into the proof about accounts and owner. -/
lemma buildSend_hashedData
    (h : buildSend circuits serialization seedWrapper sendRequest params = .ok (sendTx, fee)) :
    sendTx.proof.publicInputs.extraDataHashInputs = (generateProofInputs circuits seedWrapper sendRequest
        params sendTx.nonce sendTx.encryptedOwner).hashedData ∧
      sendTx.proof.publicInputs.tokenId = getNumberFromTokenType sendRequest.tokenType ∧
      sendTx.isAssociatedTokenAcc = isAssociatedTokenAcc sendRequest ∧
      sendTx.isSolanaPayTransfer = sendRequest.isSolanaPayTransfer ∧
      sendTx.extraFee = sendRequest.extraFee ∧ sendTx.recipient = realRecipient sendRequest := by
  obtain ⟨amount, -, h⟩ := bind_eq_ok.mp h
  rw [buildSendTx] at h
  dsimp only at h
  split_ifs at h with hnil hmemo hmin
  obtain ⟨sendFee, -, h⟩ := bind_eq_ok.mp h
  obtain ⟨metadata, -, h⟩ := bind_eq_ok.mp h
  obtain ⟨proof, hproof, h⟩ := bind_eq_ok.mp h
  obtain ⟨rfl, rfl⟩ := Prod.mk.inj (Except.ok.inj h)
  rw [circuits.publicInputs_eq hproof]
  exact ⟨rfl, rfl, rfl, rfl, rfl, rfl⟩

/-- The token and the extra fee of the JSON. -/
lemma Serialization.serializeJoinSplit_rest {publicInputs : SendQuadraPublicInputs}
    {json : JoinSplitSerializedJSON} (h : serialization.serializeJoinSplit publicInputs fee = .ok json) :
    json.token_id = publicInputs.tokenId ∧
      json.optional_fee.collector = leBytes 32 publicInputs.extraDataHashInputs.optionalFeeCollector ∧
      json.optional_fee.amount = publicInputs.extraDataHashInputs.optionalFeeAmount := by
  obtain ⟨inputs, -, h⟩ := bind_eq_ok.mp h
  obtain ⟨output, -, h⟩ := bind_eq_ok.mp h
  obtain ⟨index, -, h⟩ := bind_eq_ok.mp h
  obtain ⟨version, -, h⟩ := bind_eq_ok.mp h
  obtain ⟨amount, -, h⟩ := bind_eq_ok.mp h
  obtain ⟨token, htoken, h⟩ := bind_eq_ok.mp h
  obtain ⟨optionalFee, hoptional, h⟩ := bind_eq_ok.mp h
  obtain ⟨metadata, -, h⟩ := bind_eq_ok.mp h
  obtain rfl := Except.ok.inj h
  obtain ⟨collector, hcollector, hoptional⟩ := bind_eq_ok.mp hoptional
  obtain ⟨extra, hextra, hoptional⟩ := bind_eq_ok.mp hoptional
  obtain rfl := Except.ok.inj hoptional
  exact ⟨serialization.bigIntToNumber_exact htoken, serialization.serializeU256BigInt_eq hcollector,
    serialization.bigIntToNumber_exact hextra⟩

/-- What the finalize transaction of the request tells; 32 zeros stand for no reference key. -/
def SendRequest.finalizeData (sendRequest : SendRequest) (sendTx : SendTx)
    (signature : ConfirmedSignatureInfo) : FinalizeData :=
  { recipient := realRecipient sendRequest
    refKey := sendRequest.refKey.getD (ElusivTransaction.bareKey 0)
    owner := sendRequest.owner
    encryptedOwner := sendTx.encryptedOwner
    signature := signature }

variable {utf8ByteCodesToString : Bytes → String} {proof : ProvenSend}
  {json : WardenRequest SendProofSerialized}

/-- The request of a send that was built. -/
structure RequestOf (json : WardenRequest SendProofSerialized) (sendRequest : SendRequest) (sendTx : SendTx)
    (rvk : RVKWrapper) : Prop where
  identifier : json.params.identifier = leBytes 32 (ofLeBytes sendTx.identifier.bytes)
  recipient : json.params.recipient = leBytes 32 (ofLeBytes (realRecipient sendRequest).bytes)
  solanaPayId : json.params.solanaPayId
    = leBytes 32 (ofLeBytes (sendRequest.refKey.getD (ElusivTransaction.bareKey 0)).bytes)
  iv : json.params.iv = leBytes 32 (ofLeBytes sendTx.encryptedOwner.iv)
  encryptedOwner : json.params.encryptedOwner = leBytes 32 (ofLeBytes sendTx.encryptedOwner.cipherText)
  tokenId : json.params.publicInputs.join_split.token_id = getNumberFromTokenType sendTx.tokenType
  isAssociatedTokenAccount : json.params.publicInputs.recipient_is_associated_token_account
    = sendTx.isAssociatedTokenAcc
  isSolanaPayTransfer : json.params.publicInputs.solana_pay_transfer = sendTx.isSolanaPayTransfer
  collector : json.params.publicInputs.join_split.optional_fee.collector
    = leBytes 32 (ofLeBytes sendTx.extraFee.collector.bytes)
  optionalFee : json.params.publicInputs.join_split.optional_fee.amount = sendTx.extraFee.amount
  encrypted : sendTx.encryptedOwner = rvk.primitives.encryptAES256CTRWithKey
    (rvk.seededSaltedCall sendRequest.owner.bytes sendTx.nonce)

lemma requestOf_built
    (hbuilt : buildSend circuits serialization seedWrapper sendRequest params = .ok (sendTx, fee))
    (hproof : proof.toSendQuadraProof = sendTx.proof)
    (hjson : serialization.serializeSend utf8ByteCodesToString proof fee sendTx.isSolanaPayTransfer
      = .ok json) : RequestOf json sendRequest sendTx seedWrapper.getRootViewingKeyWrapper := by
  have hspec := buildSend_spec hbuilt
  obtain ⟨hhashed, htoken, hassociated, hpay, hextra, hrecipient⟩ := buildSend_hashedData hbuilt
  obtain ⟨-, htold⟩ := Serialization.serializeSend_spec hjson
  rw [congrArg SendQuadraProof.publicInputs hproof] at htold
  obtain ⟨htokenId, hcollector, hoptional⟩ := Serialization.serializeJoinSplit_rest htold.join_split
  have hzero : (sendRequest.refKey.map fun refKey => ofLeBytes refKey.bytes).getD 0
      = ofLeBytes (sendRequest.refKey.getD (ElusivTransaction.bareKey 0)).bytes := by
    cases sendRequest.refKey with
    | none => decide
    | some refKey => rfl
  exact
    { identifier := by
        rw [htold.identifier, hhashed, hspec.identifier_eq]
        rfl
      recipient := by
        rw [htold.recipient, hhashed]
        rfl
      solanaPayId := by
        rw [htold.solanaPayId, hhashed, ← hzero]
        rfl
      iv := by
        rw [htold.iv, hhashed]
        rfl
      encryptedOwner := by
        rw [htold.encryptedOwner, hhashed]
        rfl
      tokenId := by rw [htokenId, htoken, hspec.tokenType_eq]
      isAssociatedTokenAccount := by
        rw [htold.isAssociatedTokenAccount, hhashed, hassociated]
        rfl
      isSolanaPayTransfer := htold.isSolanaPayTransfer
      collector := by
        rw [hcollector, hhashed, hextra]
        rfl
      optionalFee := by
        rw [hoptional, hhashed, hextra]
        rfl
      encrypted := hspec.encryptedOwner_eq }

/-- The accounts and the owner of a finalize instruction for the request. -/
lemma RequestOf.tryParse_finalize {rvk : RVKWrapper} (h : RequestOf json sendRequest sendTx rvk)
    (hfor : FinalizeFor accs json.params ix) {rawSend : List ParsedMessage} {message : ParsedMessage}
    (hchain : FinalizeOnChain accs sendTx.identifier rawSend message ix) :
    ∃ finalize, tryParseVariableInstructionsFinalizeVerificationFromDecryptionKey rvk.primitives
        (rvk.generateDecryptionKey sendTx.nonce) message.instructions = .ok finalize ∧
      finalize.finalizeIx.owner = sendRequest.owner ∧
      finalize.finalizeIx.encryptedOwner = sendTx.encryptedOwner ∧
      finalize.recipientAcc = some (realRecipient sendRequest) ∧
      finalize.refKeyAcc = some (sendRequest.refKey.getD (ElusivTransaction.bareKey 0)) := by
  have hiv := h.iv
  have hcipher := h.encryptedOwner
  rw [h.encrypted] at hiv hcipher
  have hlength : (rvk.seededSaltedCall sendRequest.owner.bytes sendTx.nonce).iv.length = 16 :=
    rvk.primitives.hkdf_length _ _ _ _ (by decide)
  obtain ⟨finalizeIx, hparse, howner, hencrypted⟩ :=
    hfor.parse rvk.primitives h.tokenId rfl hlength hiv hcipher
  have hrecipient := hfor.recipientAcc
  have hrefKey := hfor.refKeyAcc
  rw [h.recipient] at hrecipient
  rw [h.solanaPayId] at hrefKey
  refine ⟨_, parseFinalize_of_only hparse (ParsedMessage.mem_partiallyDecoded.mp hchain.ix_mem)
    fun other hother hcode => hchain.ix_only other (ParsedMessage.mem_partiallyDecoded.mpr hother) hcode,
    howner, ?_, PublicKey.eq_some_of_map_bytes hrecipient, PublicKey.eq_some_of_map_bytes hrefKey⟩
  rw [hencrypted, h.encrypted]

/-- The send before its finalize transaction. -/
def SendTx.pending (sendTx : SendTx) (fee : Fee) (metadata : CommitmentMetadata)
    (signature : ConfirmedSignatureInfo) : ElusivTransaction :=
  { nonce := sendTx.nonce
    tokenType := sendTx.tokenType
    identifier := sendTx.identifier
    amount := sendTx.amount
    fee := getComputationFeeTotal fee.toBasicFee
    commitmentHash := sendTx.commitmentHash
    merkleStartIndex := sendTx.merkleStartIndex
    warden := sendTx.warden
    transactionStatus := some .PENDING
    signature := some signature
    body := .send
      { isAssociatedTokenAcc := sendTx.isAssociatedTokenAcc
        isSolanaPayTransfer := sendTx.isSolanaPayTransfer
        metadata := some metadata
        recipient := none
        encryptedOwner := none
        owner := none
        refKey := none
        memo := signature.memo
        extraFee := sendTx.extraFee } }

/-- What an init says of the send is what the send is. -/
lemma RequestOf.sendOfParts_eq (accs : ProgramAccounts) {rvk : RVKWrapper}
    (h : RequestOf json sendRequest sendTx rvk)
    {initIx : InitVerificationInstruction} {metadata : CommitmentMetadata}
    (hread : ReadAs initIx json.params.publicInputs metadata)
    (hamount : json.params.publicInputs.join_split.amount = sendTx.amount)
    (hfee : json.params.publicInputs.join_split.fee = getComputationFeeTotal fee.toBasicFee)
    (hhash : json.params.publicInputs.join_split.output_commitment = sendTx.commitmentHash)
    (htoken : metadata.tokenType = sendTx.tokenType)
    (hindex : metadata.assocCommIndex = sendTx.merkleStartIndex)
    (signature : ConfirmedSignatureInfo) :
    sendOfParts accs sendTx.nonce signature
      ⟨.current initIx, some sendTx.identifier, some sendTx.warden⟩ none
        = sendTx.pending fee metadata signature := by
  have hextra : initIx.optFee = sendTx.extraFee := by
    have hcollector := hread.collector
    rw [h.collector, leBytes_ofLeBytes_of_length sendTx.extraFee.collector.length_eq] at hcollector
    have hoptional := hread.optionalFee
    rw [h.optionalFee] at hoptional
    exact congrArg₂ OptionalFee.mk (PublicKey.eq_of_bytes_eq hcollector) hoptional
  have htokenType : (AnyInitVerificationInstruction.current initIx).getTokenType = sendTx.tokenType := by
    rw [AnyInitVerificationInstruction.getTokenType, hread.metadata, InitMetadata.tokenType, htoken]
  have hassoc : (AnyInitVerificationInstruction.current initIx).getAssocCommIndex
      = sendTx.merkleStartIndex := by
    rw [AnyInitVerificationInstruction.getAssocCommIndex, hread.metadata, InitMetadata.assocCommIndex,
      hindex]
  have hmetadata : getMetadata (.current initIx) = some metadata := by
    rw [getMetadata, hread.metadata, InitMetadata.commitmentMetadata?]
  simp only [sendOfParts, SendTx.pending, htokenType, hassoc, hmetadata, getExtraFee, hextra,
    AnyInitVerificationInstruction.base, hread.amount, hamount, hread.fee, hfee, hread.commitmentHash,
    hhash, hread.isAssociatedTokenAccount, h.isAssociatedTokenAccount, hread.isSolanaPayTransfer,
    h.isSolanaPayTransfer, Option.isSome_none, Option.map_none, Option.bind_none]
  rfl

/-- What lands is the pending send with its finalize transaction. -/
lemma SendTx.landed_eq {rvk : RVKWrapper} {joinSplit : JoinSplitSerializedJSON}
    {metadata : CommitmentMetadata} (hmetadata : CommitmentMetadata.deserializeAndDecrypt joinSplit.metadata
      rvk joinSplit.output_commitment = .ok metadata)
    (hamount : joinSplit.amount = sendTx.amount)
    (hfee : joinSplit.fee = getComputationFeeTotal fee.toBasicFee)
    (hhash : joinSplit.output_commitment = sendTx.commitmentHash)
    (htoken : metadata.tokenType = sendTx.tokenType)
    (hindex : metadata.assocCommIndex = sendTx.merkleStartIndex) (data : FinalizeData)
    (signature : ConfirmedSignatureInfo) : sendTx.landed joinSplit rvk data
      = .ok ((sendTx.pending fee metadata signature).finalize data) := by
  rw [SendTx.landed, bind_of_ok hmetadata, hamount, hfee, hhash, htoken, hindex]
  rfl

/-- **The send round trip.**  A send is built, a warden writes its two instructions as the request says, and
they come among other transactions.  The owner's parser gives back the pending send after the first, and
after both of them the finalized one, with the owner, the recipient and the reference key of the request: what
the chain has when a send lands. -/
theorem tryParseRawSend_onChain
    (hbuilt : buildSend circuits serialization seedWrapper sendRequest params = .ok (sendTx, fee))
    (hproof : proof.toSendQuadraProof = sendTx.proof)
    (hjson : serialization.serializeSend utf8ByteCodesToString proof fee sendTx.isSolanaPayTransfer
      = .ok json) {initIx finalizeIx : PartiallyDecodedInstruction}
    (hinit : InitFor serialization accs json.params sendTx.warden initIx)
    (hfinalize : FinalizeFor accs json.params finalizeIx) :
    ∃ metadata : CommitmentMetadata, metadata.balance = sendTx.commitment.balance ∧
      ∀ (rawSend : List ParsedMessage) (init : ParsedMessage),
        InitOnChain accs sendTx.identifier rawSend init initIx →
        ∀ (signature : ConfirmedSignatureInfo) (signatures : List ConfirmedSignatureInfo),
        ((∀ message ∈ rawSend, hasFinalize accs sendTx.identifier message = false) →
          tryParseRawSend accs rawSend (signature :: signatures) sendTx.nonce sendTx.identifier
            seedWrapper.getRootViewingKeyWrapper = .ok (sendTx.pending fee metadata signature)) ∧
        ∀ finalize, FinalizeOnChain accs sendTx.identifier rawSend finalize finalizeIx →
          ∃ tx, tryParseRawSend accs rawSend (signature :: signatures) sendTx.nonce sendTx.identifier
              seedWrapper.getRootViewingKeyWrapper = .ok tx ∧
            tx = (sendTx.pending fee metadata signature).finalize
              (sendRequest.finalizeData sendTx signature) ∧
            sendTx.landed json.params.publicInputs.join_split seedWrapper.getRootViewingKeyWrapper
              (sendRequest.finalizeData sendTx signature) = .ok tx ∧
            sendTx.LandedAs fee tx := by
  have hrequest := requestOf_built hbuilt hproof hjson
  have hspec := buildSend_spec hbuilt
  have hjoin := (Serialization.serializeSend_spec hjson).2.join_split
  rw [congrArg SendQuadraProof.publicInputs hproof] at hjoin
  -- the metadata is what the send lands with
  obtain ⟨landed, hlanded, -, hlandedAs⟩ := hspec.landed hjoin
    (sendRequest.finalizeData sendTx ⟨"", none, none⟩)
  obtain ⟨metadata, hmetadata, hlanded⟩ := bind_eq_ok.mp hlanded
  obtain rfl := Except.ok.inj hlanded
  obtain ⟨metadata', hsome, -, htoken, hindex, hbalance⟩ := hlandedAs.metadata
  obtain rfl : metadata = metadata' := Option.some.inj hsome
  obtain ⟨initIx', hparse, hread⟩ := hinit.parse hmetadata
  have hpending := hrequest.sendOfParts_eq accs hread hlandedAs.amount_eq hlandedAs.fee_eq
    hlandedAs.commitmentHash_eq htoken hindex
  refine ⟨metadata, hbalance, fun rawSend init hchain signature signatures => ?_⟩
  have hidAcc := hinit.identifierAcc
  rw [hrequest.identifier] at hidAcc
  have hinits := hchain.tryParse hinit.program hparse
  rw [PublicKey.eq_some_of_map_bytes hidAcc, hinit.wardenAcc] at hinits
  constructor
  · intro hnone
    have hfind : (findSendFinalizeTx accs sendTx.identifier rawSend).map Prod.fst = none := by
      rw [findSendFinalizeTx_fst, List.find?_eq_none]
      exact fun message hmem => by rw [hnone message hmem]; exact Bool.false_ne_true
    rw [tryParseRawSend, tryParseRawSendFromDecryptionKey_eq_ok_iff, hfind]
    exact ⟨init, hchain.find hinit hrequest.identifier, _, none, bind_eq_ok.mpr ⟨_, hinits, rfl⟩,
      signature, rfl, (hpending signature).symm⟩
  · intro finalize hfinal
    obtain ⟨finalizeData, hfinals, howner, hencrypted, hrecipient, hrefKey⟩ :=
      hrequest.tryParse_finalize hfinalize hfinal
    obtain ⟨tx, htx, -, hlandedAs'⟩ := hspec.landed hjoin (sendRequest.finalizeData sendTx signature)
    have hlanded := SendTx.landed_eq hmetadata hlandedAs.amount_eq hlandedAs.fee_eq
      hlandedAs.commitmentHash_eq htoken hindex (sendRequest.finalizeData sendTx signature) signature
    obtain rfl := Except.ok.inj (htx.symm.trans hlanded)
    refine ⟨_, ?_, rfl, hlanded, hlandedAs'⟩
    rw [tryParseRawSend, tryParseRawSendFromDecryptionKey_eq_ok_iff, hfinal.find hfinalize
      hrequest.identifier]
    refine ⟨init, hchain.find hinit hrequest.identifier, _, some finalizeData,
      bind_eq_ok.mpr ⟨_, hinits, bind_eq_ok.mpr ⟨_, hfinals, rfl⟩⟩, signature, rfl, ?_⟩
    rw [← hpending signature]
    simp only [sendOfParts, ElusivTransaction.finalize, SendRequest.finalizeData, Option.map_some,
      Option.bind_some, Option.isSome_some, howner, hencrypted, hrecipient, hrefKey, if_true]

end RoundTrip

/-! ### A send of 500000 lamports -/

namespace PlainSend

lemma isOk : (plainSend 1).isOk = true := by decide +kernel

def sendTx : SendTx := (value (plainSend 1) isOk).1

def fee : Fee := (value (plainSend 1) isOk).2

/-- The points of the proof do not matter. -/
def proof : ProvenSend :=
  { sendTx.proof with
    proof := ⟨⟨[], [], true⟩, ⟨([], []), ([], []), true⟩, ⟨[], [], true⟩⟩
    hash := 5 }

def json : WardenRequest SendProofSerialized :=
  value (plainSerialization.serializeSend (fun _ => "") proof fee sendTx.isSolanaPayTransfer)
    (by decide +kernel)

/-- What the warden compiles. -/
def init : InitVerificationInstruction :=
  let publicInputs := json.params.publicInputs
  { verAccIndex := 0
    vKeyId := 0
    treeIndices := [0, 0]
    commitmentCount := 1
    roots := [leBytes 32 1]
    nullifierHashes := [leBytes 32 1000001]
    commitmentHash := publicInputs.join_split.output_commitment
    feeVersion := 0
    sendAmount := 500000
    fee := 260000
    recipientIsAssociatedTokenAccount := publicInputs.recipient_is_associated_token_account
    hashedInputs := publicInputs.hashed_inputs
    skipNullifierPDA := false
    isSolanaPayTransfer := publicInputs.solana_pay_transfer
    optFee := sendTx.extraFee
    metadata := .clear .LAMPORTS 7
    serializedMetadata := publicInputs.join_split.metadata }

def finalize : FinalizeVerificationInstruction :=
  { amount := 500000
    tokenId := .LAMPORTS
    mtIndex := 0
    encryptedOwner := sendTx.encryptedOwner
    verificationAccountIndex := 0
    owner := (plainSendRequest 500000).owner }

def rawInit : PartiallyDecodedInstruction :=
  { programId := plainAccounts.elusivProgramId
    accounts := [sendTx.warden, ElusivTransaction.bareKey 21, ElusivTransaction.bareKey 22,
      ElusivTransaction.bareKey 23, ElusivTransaction.bareKey 24, sendTx.identifier]
    data := bytesToBs58 (init.wire fun _ => false) }

def rawFinalize : PartiallyDecodedInstruction :=
  { programId := plainAccounts.elusivProgramId
    accounts := [sendTx.recipient, sendTx.identifier, ElusivTransaction.bareKey 0]
    data := bytesToBs58 (finalize.compile false 0) }

def initMessage : ParsedMessage := ⟨[.partiallyDecoded rawInit]⟩
def finalizeMessage : ParsedMessage := ⟨[.partiallyDecoded rawFinalize]⟩

lemma init_inRange : init.InRange where
  base :=
    { verAccIndex_lt := by decide +kernel
      vKeyId_le := by decide +kernel
      treeIndices_length := by decide +kernel
      treeIndices_le := by decide +kernel
      commitmentCount_le := by decide +kernel
      roots_length := by decide +kernel
      nullifierHashes_length := by decide +kernel
      length_root := by decide +kernel
      length_nullifierHash := by decide +kernel
      length_hash := by decide +kernel
      feeVersion_le := by decide +kernel
      sendAmount_nonneg := by decide +kernel
      sendAmount_le := by decide +kernel
      fee_nonneg := by decide +kernel
      fee_le := by decide +kernel
      length_hashedInputs := by decide +kernel }
  optFee_nonneg := by decide +kernel
  optFee_le := by decide +kernel
  assocCommIndex_le := by decide +kernel
  length_metadata := by decide +kernel

lemma finalize_inRange : finalize.InRange where
  amount_nonneg := by decide +kernel
  amount_le := by decide +kernel
  mtIndex_le := by decide +kernel
  length_iv := by decide +kernel
  length_cipherText := by decide +kernel
  verificationAccountIndex_lt := by decide +kernel

lemma initFor : InitFor plainSerialization plainAccounts json.params sendTx.warden rawInit where
  program := rfl
  wardenAcc := rfl
  identifierAcc := by decide +kernel
  data := ⟨_, init_inRange.fits fun _ => false, rfl, by decide +kernel⟩

lemma finalizeFor : FinalizeFor plainAccounts json.params rawFinalize where
  program := rfl
  recipientAcc := by decide +kernel
  identifierAcc := by decide +kernel
  refKeyAcc := by decide +kernel
  data := ⟨_, finalize_inRange.fits false (Nat.zero_le _), rfl, by decide +kernel, by decide +kernel,
    by decide +kernel⟩

/-- The codes of the two instructions. -/
lemma not_hasCode : ¬ HasCode INIT_VERIFICATION_IX_CODE rawFinalize ∧
    ¬ HasCode FINALIZE_VERIFICATION_IX_CODE rawInit := by
  simp only [HasCode, rawFinalize, rawInit, bs58ToBytes_bytesToBs58]
  decide +kernel

lemma not_hasFinalize (key : PublicKey) : hasFinalize plainAccounts key initMessage = false := by
  have hcode : ((bs58ToBytes rawInit.data)[0]? == some (UInt8.ofNat FINALIZE_VERIFICATION_IX_CODE))
      = false := beq_false_of_ne not_hasCode.2
  show (isFinalizeVerificationIx plainAccounts rawInit key || false) = false
  rw [isFinalizeVerificationIx, isIdentifierIxWithCode, hcode, Bool.and_false, Bool.false_or]

lemma not_hasInit (key : PublicKey) : hasInit plainAccounts key finalizeMessage = false := by
  have hcode : ((bs58ToBytes rawFinalize.data)[0]? == some (UInt8.ofNat INIT_VERIFICATION_IX_CODE))
      = false := beq_false_of_ne not_hasCode.1
  show (isInitVerificationIx plainAccounts rawFinalize key || false) = false
  rw [isInitVerificationIx, isIdentifierIxWithCode, hcode, Bool.and_false, Bool.false_or]

/-- The init transaction, whether the finalize transaction is there yet or not. -/
lemma initOnChain {rawSend : List ParsedMessage} (hmem : initMessage ∈ rawSend)
    (hall : ∀ message ∈ rawSend, message = initMessage ∨ message = finalizeMessage) :
    InitOnChain plainAccounts sendTx.identifier rawSend initMessage rawInit where
  mem := hmem
  only := by
    intro message hmessage hinit
    rcases hall message hmessage with rfl | rfl
    · rfl
    · rw [not_hasInit] at hinit
      cases hinit
  ix_mem := List.mem_cons_self
  ix_only := fun ix hix _ _ => List.mem_singleton.mp hix

lemma finalizeOnChain :
    FinalizeOnChain plainAccounts sendTx.identifier [finalizeMessage, initMessage] finalizeMessage
      rawFinalize where
  mem := List.mem_cons_self
  only := by
    rintro message (_ | ⟨_, _ | ⟨_, hmessage⟩⟩) hfinalize
    · rfl
    · rw [not_hasFinalize] at hfinalize
      cases hfinalize
    · cases hmessage
  ix_mem := List.mem_cons_self
  ix_only := fun ix hix _ => List.mem_singleton.mp hix

end PlainSend

open PlainSend in
/-- The send of 500000 lamports, before and after the warden finalizes it. -/
theorem tryParseRawSend_onChain_plainSend : ∃ metadata : CommitmentMetadata,
    metadata.balance = sendTx.commitment.balance ∧ ∀ signature : ConfirmedSignatureInfo,
      tryParseRawSend plainAccounts [initMessage] [signature] sendTx.nonce sendTx.identifier
        plainSeed.getRootViewingKeyWrapper = .ok (sendTx.pending fee metadata signature) ∧
      ∃ tx, tryParseRawSend plainAccounts [finalizeMessage, initMessage] [signature] sendTx.nonce
        sendTx.identifier plainSeed.getRootViewingKeyWrapper = .ok tx ∧ sendTx.LandedAs fee tx := by
  obtain ⟨metadata, hbalance, h⟩ := tryParseRawSend_onChain (eq_ok_value isOk) rfl
    (eq_ok_value (by decide +kernel)) initFor finalizeFor
  refine ⟨metadata, hbalance, fun signature => ⟨?_, ?_⟩⟩
  · refine (h [initMessage] initMessage (initOnChain List.mem_cons_self ?_) signature []).1 ?_
    · intro message hmessage
      exact .inl (List.mem_singleton.mp hmessage)
    · intro message hmessage
      rw [List.mem_singleton.mp hmessage, not_hasFinalize]
  · have hchain : InitOnChain plainAccounts sendTx.identifier [finalizeMessage, initMessage] initMessage
        rawInit := initOnChain (by simp) (by simp)
    obtain ⟨tx, htx, -, -, hlanded⟩ := (h _ _ hchain signature []).2 finalizeMessage finalizeOnChain
    exact ⟨tx, htx, hlanded⟩

end ElusivSdk
