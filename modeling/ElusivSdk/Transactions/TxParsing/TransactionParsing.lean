import ElusivSdk.Transactions.TxParsing.InstructionParsing

/-!
# Parsing transactions

* `isStoreTx`, `isSendTx`, `isElusivTx` — which messages belong to an identifier key.
* `tryParseRawStore` — a topup, from its message and the instructions that it called.
* `tryParseRawSend` — a send, from its init message and, once there is one, its finalize message.
* **`tryParseRawStore_eq_ok`** — when the instructions and the fee parse, so does the topup.
-/

namespace ElusivSdk

open InstructionParsing

/-- The instructions of a message that no parser of the node knew. -/
def ParsedMessage.partiallyDecoded (message : ParsedMessage) : List PartiallyDecodedInstruction :=
  message.instructions.filterMap MessageInstruction.partiallyDecoded?

lemma ParsedMessage.mem_partiallyDecoded {message : ParsedMessage} {ix : PartiallyDecodedInstruction} :
    ix ∈ message.partiallyDecoded ↔ .partiallyDecoded ix ∈ message.instructions := by
  rw [ParsedMessage.partiallyDecoded, List.mem_filterMap]
  constructor
  · rintro ⟨reported, hmem, hreported⟩
    cases reported with
    | partiallyDecoded ix' =>
        rw [← Option.some.inj hreported]
        exact hmem
    | parsed ix' => cases hreported
  · intro hmem
    exact ⟨_, hmem, rfl⟩

namespace TransactionParsing

/-! ## Which messages belong to an identifier key -/

section Messages

variable (accs : ProgramAccounts) (txMessage : ParsedMessage) (idPubKey : PublicKey)

def getSendFinalizeIx : Option PartiallyDecodedInstruction :=
  txMessage.partiallyDecoded.find? fun ix => isFinalizeVerificationIx accs ix idPubKey

def getSendInitIx : Option PartiallyDecodedInstruction :=
  txMessage.partiallyDecoded.find? fun ix => isInitVerificationIx accs ix idPubKey

def isSendTx : Bool := txMessage.partiallyDecoded.any fun ix => isSendIx accs ix idPubKey

def isStoreTx : Bool := txMessage.partiallyDecoded.any fun ix => isStoreIx accs ix idPubKey

def isElusivTx : Bool := isStoreTx accs txMessage idPubKey || isSendTx accs txMessage idPubKey

def findSendInitTx (rawTxs : List ParsedMessage) : Option (ParsedMessage × ℕ) :=
  rawTxs.zipIdx.find? fun t => t.1.partiallyDecoded.any fun ix => isInitVerificationIx accs ix idPubKey

def findSendFinalizeTx (rawTxs : List ParsedMessage) : Option (ParsedMessage × ℕ) :=
  rawTxs.zipIdx.find? fun t =>
    t.1.partiallyDecoded.any fun ix => isFinalizeVerificationIx accs ix idPubKey

end Messages

/-! ## Topups -/

/-- The instructions and the fee; any failure here is reported as one. -/
def tryParseStoreParts (variableCompiledIxs : List MessageInstruction)
    (cpis : List ParsedInnerInstruction) (nonce : ℕ) (rvk : RVKWrapper) :
    Except Failure (StoreInstructions × ℤ) := do
  let res ← tryParseVariableInstructionsStore
    (variableCompiledIxs.filterMap MessageInstruction.partiallyDecoded?) nonce rvk
  let fee ← tryParseFeeFromStoreCPIs cpis res.storeIx.getTokenType
  pure (res, fee)

def tryParseRawStore (storeTx : ParsedMessage) (cpis : List ParsedInnerInstruction)
    (signature : ConfirmedSignatureInfo) (nonce : ℕ) (identifier : PublicKey) (rvk : RVKWrapper) :
    Except Failure ElusivTransaction := do
  let variableCompiledIxs ← getCompiledVariableIxsFromRawStoreIxs storeTx.instructions
  match tryParseStoreParts variableCompiledIxs cpis nonce rvk with
  | .error _ => .error (.error "Failed to parse Store")
  | .ok (res, fee) =>
      pure
        { tokenType := res.storeIx.getTokenType
          signature := some signature
          nonce := nonce
          amount := res.storeIx.getAmount
          commitmentHash := res.storeIx.base.commitmentHash
          merkleStartIndex := res.storeIx.getAssocCommIndex
          identifier := some identifier
          transactionStatus := some .PENDING
          warden := res.wardenAcc
          fee := fee
          body := .store
            { sender := res.senderAcc
              parsedPrivateBalance := res.computeIx.currPrivateBalance
              hashAccIndex := res.storeIx.base.hashAccIndex
              isRecipient := res.computeIx.isRecipient } }

/-- **When the instructions and the fee parse, so does the topup.** -/
theorem tryParseRawStore_eq_ok {storeTx : ParsedMessage} {first second : MessageInstruction}
    {rawStore rawCompute : PartiallyDecodedInstruction} {cpis : List ParsedInnerInstruction}
    {nonce : ℕ} {rvk : RVKWrapper} {res : StoreInstructions} {fee : ℤ}
    (hmessage : storeTx.instructions
      = [first, second, .partiallyDecoded rawStore, .partiallyDecoded rawCompute])
    (hres : tryParseVariableInstructionsStore [rawStore, rawCompute] nonce rvk = .ok res)
    (hfee : tryParseFeeFromStoreCPIs cpis res.storeIx.getTokenType = .ok fee)
    (signature : ConfirmedSignatureInfo) (identifier : PublicKey) :
    tryParseRawStore storeTx cpis signature nonce identifier rvk = .ok
      { tokenType := res.storeIx.getTokenType
        signature := some signature
        nonce := nonce
        amount := res.storeIx.getAmount
        commitmentHash := res.storeIx.base.commitmentHash
        merkleStartIndex := res.storeIx.getAssocCommIndex
        identifier := some identifier
        transactionStatus := some .PENDING
        warden := res.wardenAcc
        fee := fee
        body := .store
          { sender := res.senderAcc
            parsedPrivateBalance := res.computeIx.currPrivateBalance
            hashAccIndex := res.storeIx.base.hashAccIndex
            isRecipient := res.computeIx.isRecipient } } := by
  have hixs : getCompiledVariableIxsFromRawStoreIxs storeTx.instructions
      = .ok [.partiallyDecoded rawStore, .partiallyDecoded rawCompute] := by
    rw [hmessage]
    rfl
  have hparts : tryParseStoreParts [.partiallyDecoded rawStore, .partiallyDecoded rawCompute] cpis
      nonce rvk = .ok (res, fee) := by
    show (tryParseVariableInstructionsStore [rawStore, rawCompute] nonce rvk >>= fun res => _) = _
    rw [hres]
    show (tryParseFeeFromStoreCPIs cpis res.storeIx.getTokenType >>= fun fee => _) = _
    rw [hfee]
    rfl
  rw [tryParseRawStore, hixs]
  show (match tryParseStoreParts _ cpis nonce rvk with
    | .error _ => _
    | .ok (res, fee) => _) = _
  rw [hparts]
  rfl

/-! ## Sends -/

/-- The init instructions, and the finalize instruction if there is one; any failure here is reported as
one. -/
def tryParseSendParts (accs : ProgramAccounts) (p : Primitives) (initTx : ParsedMessage)
    (finalizeTx : Option ParsedMessage) (decryptionKey : Bytes) (rvk : Option RVKWrapper) :
    Except Failure (InitInstructions × Option FinalizeInstructions) := do
  let init ← tryParseVariableInstructionsInitVerification rvk
    (initTx.partiallyDecoded.filter fun ix => isElusivIx accs ix)
  match finalizeTx with
  | none => pure (init, none)
  | some finalizeTx =>
      let finalize ← tryParseVariableInstructionsFinalizeVerificationFromDecryptionKey p decryptionKey
        finalizeTx.instructions
      pure (init, some finalize)

/-- Legacy instructions have no extra fee. -/
def getExtraFee (accs : ProgramAccounts) : AnyInitVerificationInstruction → OptionalFee
  | .current ix => ix.optFee
  | .legacy _ => { collector := accs.systemProgramId, amount := 0 }

def getMetadata : AnyInitVerificationInstruction → Option CommitmentMetadata
  | .current ix => ix.metadata.commitmentMetadata?
  | .legacy _ => none

def tryParseRawSendFromDecryptionKey (accs : ProgramAccounts) (p : Primitives)
    (rawSend : List ParsedMessage) (signature : List ConfirmedSignatureInfo) (decryptionKey : Bytes)
    (identifier : PublicKey) (rvk : Option RVKWrapper) (nonce : ℕ) :
    Except Failure ElusivTransaction := do
  match findSendInitTx accs identifier rawSend with
  | none => .error (.error "Invalid Send")
  | some (initTx, _) =>
      let finalizeTx := (findSendFinalizeTx accs identifier rawSend).map Prod.fst
      match tryParseSendParts accs p initTx finalizeTx decryptionKey rvk with
      | .error _ => .error (.error "Failed to parse Send")
      | .ok (init, finalizeData) =>
          match signature with
          | [] => .error .typeError
          | signature :: _ =>
              pure
                { nonce := nonce
                  tokenType := init.initIx.getTokenType
                  identifier := init.idAcc
                  amount := init.initIx.base.sendAmount
                  fee := init.initIx.base.fee
                  signature := some signature
                  transactionStatus := some (if finalizeData.isSome then .PROCESSED else .PENDING)
                  commitmentHash := init.initIx.base.commitmentHash
                  merkleStartIndex := init.initIx.getAssocCommIndex
                  warden := init.wardenAcc
                  body := .send
                    { owner := finalizeData.map fun f => f.finalizeIx.owner
                      memo := signature.memo
                      recipient := finalizeData.bind fun f => f.recipientAcc
                      refKey := finalizeData.bind fun f => f.refKeyAcc
                      isAssociatedTokenAcc := init.initIx.base.recipientIsAssociatedTokenAccount
                      isSolanaPayTransfer := init.initIx.base.isSolanaPayTransfer
                      encryptedOwner := finalizeData.map fun f => f.finalizeIx.encryptedOwner
                      metadata := getMetadata init.initIx
                      extraFee := getExtraFee accs init.initIx } }

def tryParseRawSend (accs : ProgramAccounts) (rawSend : List ParsedMessage)
    (signature : List ConfirmedSignatureInfo) (nonce : ℕ) (identifier : PublicKey) (rvk : RVKWrapper) :
    Except Failure ElusivTransaction :=
  tryParseRawSendFromDecryptionKey accs rvk.primitives rawSend signature
    (rvk.generateDecryptionKey nonce) identifier (some rvk) nonce

/-- A store parses to a topup. -/
lemma txType_of_tryParseRawStore {storeTx : ParsedMessage} {cpis : List ParsedInnerInstruction}
    {signature : ConfirmedSignatureInfo} {nonce : ℕ} {identifier : PublicKey} {rvk : RVKWrapper}
    {res : ElusivTransaction}
    (h : tryParseRawStore storeTx cpis signature nonce identifier rvk = .ok res) :
    res.txType = .TOPUP := by
  obtain ⟨variableCompiledIxs, -, h⟩ := Program.bind_eq_ok.mp h
  cases hparts : tryParseStoreParts variableCompiledIxs cpis nonce rvk with
  | error failure =>
      rw [hparts] at h
      nomatch h
  | ok parts =>
      rw [hparts] at h
      obtain rfl := Except.ok.inj h
      rfl

/-- The finalize instruction is there when its message is. -/
lemma isSome_of_tryParseSendParts {accs : ProgramAccounts} {p : Primitives} {initTx : ParsedMessage}
    {finalizeTx : Option ParsedMessage} {decryptionKey : Bytes} {rvk : Option RVKWrapper}
    {parts : InitInstructions × Option FinalizeInstructions}
    (h : tryParseSendParts accs p initTx finalizeTx decryptionKey rvk = .ok parts) :
    parts.2.isSome = finalizeTx.isSome := by
  obtain ⟨init, -, h⟩ := Program.bind_eq_ok.mp h
  cases finalizeTx with
  | none =>
      obtain rfl := Except.ok.inj h
      rfl
  | some finalizeTx =>
      obtain ⟨finalize, -, h⟩ := Program.bind_eq_ok.mp h
      obtain rfl := Except.ok.inj h
      rfl

/-- The send that its parts make. -/
def sendOfParts (accs : ProgramAccounts) (nonce : ℕ) (signature : ConfirmedSignatureInfo)
    (init : InitInstructions) (finalizeData : Option FinalizeInstructions) : ElusivTransaction :=
  { nonce := nonce
    tokenType := init.initIx.getTokenType
    identifier := init.idAcc
    amount := init.initIx.base.sendAmount
    fee := init.initIx.base.fee
    signature := some signature
    transactionStatus := some (if finalizeData.isSome then .PROCESSED else .PENDING)
    commitmentHash := init.initIx.base.commitmentHash
    merkleStartIndex := init.initIx.getAssocCommIndex
    warden := init.wardenAcc
    body := .send
      { owner := finalizeData.map fun f => f.finalizeIx.owner
        memo := signature.memo
        recipient := finalizeData.bind fun f => f.recipientAcc
        refKey := finalizeData.bind fun f => f.refKeyAcc
        isAssociatedTokenAcc := init.initIx.base.recipientIsAssociatedTokenAccount
        isSolanaPayTransfer := init.initIx.base.isSolanaPayTransfer
        encryptedOwner := finalizeData.map fun f => f.finalizeIx.encryptedOwner
        metadata := getMetadata init.initIx
        extraFee := getExtraFee accs init.initIx } }

/-- **A send is parsed exactly when its parts are**: the init of the first message that has one, the
finalize of the first message that has one, and the first signature. -/
lemma tryParseRawSendFromDecryptionKey_eq_ok_iff {accs : ProgramAccounts} {p : Primitives}
    {rawSend : List ParsedMessage} {signatures : List ConfirmedSignatureInfo} {decryptionKey : Bytes}
    {idPubKey : PublicKey} {rvk : Option RVKWrapper} {nonce : ℕ} {tx : ElusivTransaction} :
    tryParseRawSendFromDecryptionKey accs p rawSend signatures decryptionKey idPubKey rvk nonce = .ok tx ↔
      ∃ initTx, (findSendInitTx accs idPubKey rawSend).map Prod.fst = some initTx ∧
        ∃ init finalizeData, tryParseSendParts accs p initTx
            ((findSendFinalizeTx accs idPubKey rawSend).map Prod.fst) decryptionKey rvk
              = .ok (init, finalizeData) ∧
          ∃ signature, signatures.head? = some signature ∧
            tx = sendOfParts accs nonce signature init finalizeData := by
  rw [tryParseRawSendFromDecryptionKey]
  cases hfind : findSendInitTx accs idPubKey rawSend with
  | none => exact iff_of_false nofun (by rintro ⟨_, h, -⟩; nomatch h)
  | some found =>
      obtain ⟨initTx, index⟩ := found
      dsimp only
      cases hparts : tryParseSendParts accs p initTx
          ((findSendFinalizeTx accs idPubKey rawSend).map Prod.fst) decryptionKey rvk with
      | error failure =>
          refine iff_of_false nofun ?_
          rintro ⟨_, heq, _, _, h, -⟩
          rw [← Option.some.inj heq, hparts] at h
          nomatch h
      | ok parts =>
          obtain ⟨init, finalizeData⟩ := parts
          cases signatures with
          | nil =>
              refine iff_of_false nofun ?_
              rintro ⟨_, -, _, _, -, _, h, -⟩
              nomatch h
          | cons signature signatures =>
              constructor
              · intro h
                exact ⟨initTx, rfl, init, finalizeData, hparts, signature, rfl, (Except.ok.inj h).symm⟩
              · rintro ⟨_, heq, _, _, hparts', _, hhead, rfl⟩
                obtain rfl := Option.some.inj heq
                rw [hparts] at hparts'
                obtain ⟨rfl, rfl⟩ := Prod.mk.inj (Except.ok.inj hparts')
                obtain rfl := Option.some.inj hhead
                rfl

/-- A send is processed when there is a finalize message. -/
lemma status_of_tryParseRawSend {accs : ProgramAccounts} {rawSend : List ParsedMessage}
    {signature : List ConfirmedSignatureInfo} {nonce : ℕ} {identifier : PublicKey} {rvk : RVKWrapper}
    {res : ElusivTransaction}
    (h : tryParseRawSend accs rawSend signature nonce identifier rvk = .ok res) :
    res.txType = .SEND ∧ res.transactionStatus
      = some (if (findSendFinalizeTx accs identifier rawSend).isSome then .PROCESSED else .PENDING) := by
  obtain ⟨initTx, -, init, finalizeData, hparts, _, -, rfl⟩ :=
    tryParseRawSendFromDecryptionKey_eq_ok_iff.mp h
  have hsome : finalizeData.isSome = (findSendFinalizeTx accs identifier rawSend).isSome := by
    rw [isSome_of_tryParseSendParts hparts, Option.isSome_map]
  refine ⟨rfl, ?_⟩
  rw [← hsome]
  rfl

end TransactionParsing

end ElusivSdk
