import ElusivSdk.Compliance.ViewingAgreement
import ElusivSdk.TxBuilding.SendSerialization

/-!
# What a warden writes for a send

A warden writes an init instruction and a finalize instruction that say what the request says.  They come in
transactions that do other things too, and the parser looks for the first instruction it can read.

* `InitFor`, `FinalizeFor` — instructions for a request; public inputs are compared as JSON.
* `InitOnChain`, `FinalizeOnChain` — the two transactions, among the transactions on an identifier key.
* `parseInit_of_only`, `parseFinalize_of_only` — what does not have the code is passed over.
* **`InitFor.parse`**, **`FinalizeFor.parse`** — what is read is what the request says.
-/

namespace ElusivSdk

open Format InstructionParsing Program TransactionParsing

/-! ## What a warden writes -/

/-- An init instruction that says what the request says. -/
structure InitFor (serialization : Serialization) (accs : ProgramAccounts) (request : SendProofSerialized)
    (warden : PublicKey) (ix : PartiallyDecodedInstruction) : Prop where
  program : ix.programId = accs.elusivProgramId
  wardenAcc : InitVerificationInstructionBase.getWardenAcc ix = some warden
  identifierAcc : (InitVerificationInstructionBase.getIdentifierAcc ix).map PublicKey.bytes
    = some request.identifier
  data : ∃ data, initVerificationInstructionBorsh.Fits data ∧
    ix.data = bytesToBs58 (initVerificationInstructionBorsh.encode data) ∧
    data.request.serializeJSON serialization = .ok request.publicInputs

/-- A finalize instruction that says what the request says, about the owner and the accounts. -/
structure FinalizeFor (accs : ProgramAccounts) (request : SendProofSerialized)
    (ix : PartiallyDecodedInstruction) : Prop where
  program : ix.programId = accs.elusivProgramId
  recipientAcc : (FinalizeVerificationInstruction.getRecipientAcc ix).map PublicKey.bytes
    = some request.recipient
  identifierAcc : (FinalizeVerificationInstruction.getIdentifierAcc ix).map PublicKey.bytes
    = some request.identifier
  refKeyAcc : (FinalizeVerificationInstruction.getReferenceKeyAcc ix).map PublicKey.bytes
    = some request.solanaPayId
  data : ∃ data, finalizeVerificationBorsh.Fits data ∧
    ix.data = bytesToBs58 (finalizeVerificationBorsh.encode data) ∧
    (data.data.token_id : ℤ) = request.publicInputs.join_split.token_id ∧
    leBytes 32 data.data.iv = request.iv ∧ leBytes 32 data.data.encrypted_owner = request.encryptedOwner

/-- The first byte of an instruction. -/
def HasCode (code : ℕ) (ix : PartiallyDecodedInstruction) : Prop :=
  (bs58ToBytes ix.data)[0]? = some (UInt8.ofNat code)

/-- The transaction with the init instruction, among the transactions on an identifier key. -/
structure InitOnChain (accs : ProgramAccounts) (identifier : PublicKey) (rawSend : List ParsedMessage)
    (message : ParsedMessage) (initIx : PartiallyDecodedInstruction) : Prop where
  mem : message ∈ rawSend
  only : ∀ other ∈ rawSend, hasInit accs identifier other = true → other = message
  ix_mem : initIx ∈ message.partiallyDecoded
  ix_only : ∀ ix ∈ message.partiallyDecoded, isElusivIx accs ix = true →
    HasCode INIT_VERIFICATION_IX_CODE ix → ix = initIx

/-- The transaction with the finalize instruction.  The parser takes the first instruction of any program that
reads as one, so no other instruction may start with its byte. -/
structure FinalizeOnChain (accs : ProgramAccounts) (identifier : PublicKey) (rawSend : List ParsedMessage)
    (message : ParsedMessage) (finalizeIx : PartiallyDecodedInstruction) : Prop where
  mem : message ∈ rawSend
  only : ∀ other ∈ rawSend, hasFinalize accs identifier other = true → other = message
  ix_mem : finalizeIx ∈ message.partiallyDecoded
  ix_only : ∀ ix ∈ message.partiallyDecoded, HasCode FINALIZE_VERIFICATION_IX_CODE ix → ix = finalizeIx

/-! ### Codes -/

/-- A reader of a byte that has to be the code refuses another one. -/
lemma check_decode_eq_none {code : ℕ} {bs : Bytes} (h : bs[0]? ≠ some (UInt8.ofNat code)) :
    ((uint 1).check (· == code)).decode bs = none := by
  cases bs with
  | nil => rfl
  | cons b bs =>
      have hread : (uint 1).decode (b :: bs) = some (b.toNat, bs) := by
        show (if 1 ≤ bs.length + 1 then some (ofLeBytes [b], bs) else none) = _
        rw [if_pos (Nat.le_add_left 1 _)]
        rfl
      have hne : (b.toNat == code) = false := by
        refine beq_false_of_ne fun heq => h ?_
        rw [← heq, UInt8.ofNat_toNat]
        rfl
      show ((uint 1).decode (b :: bs)).filter (fun r => r.1 == code) = none
      rw [hread, Option.filter_some, if_neg (by rw [hne]; exact Bool.false_ne_true)]

lemma parseInitInstruction_eq_none {ix : PartiallyDecodedInstruction}
    (h : ¬ HasCode INIT_VERIFICATION_IX_CODE ix) (rvk : Option RVKWrapper) :
    parseInitInstruction rvk ix = .ok none := by
  have hparse {JoinSplit : Type} (joinSplit : Format JoinSplit) :
      (initVerificationInstructionFormat joinSplit).parse (bs58ToBytes ix.data) = none :=
    parse_eq_none (iso_decode_eq_none (pair_decode_eq_none_left (check_decode_eq_none h) _) _)
  have hlegacy : InitVerificationInstructionLegacy.parseInstruction ix = .ok none := by
    unfold InitVerificationInstructionLegacy.parseInstruction
    rw [initVerificationInstructionBorshLegacy, hparse]
  rw [parseInitInstruction, InitVerificationInstruction.parseInstruction_of_parse_eq_none (hparse _)]
  exact bind_eq_ok.mpr ⟨none, rfl, bind_eq_ok.mpr ⟨none, hlegacy, rfl⟩⟩

lemma parseFinalizeInstruction_eq_none {ix : PartiallyDecodedInstruction}
    (h : ¬ HasCode FINALIZE_VERIFICATION_IX_CODE ix) (p : Primitives) (key : Bytes) :
    FinalizeVerificationInstruction.parseInstructionFromViewingKey p ix key = .ok none := by
  have hdecode : finalizeVerificationBorsh.decode (bs58ToBytes ix.data) = none := by
    rw [HasCode] at h
    cases hbytes : bs58ToBytes ix.data with
    | nil => rfl
    | cons b bs =>
        rw [hbytes] at h
        exact if_neg fun heq => h (congrArg some heq)
  rw [FinalizeVerificationInstruction.parseInstructionFromViewingKey, parse_eq_none hdecode]

/-- **The init instruction is found** among instructions that do not have its code. -/
lemma parseInit_of_only {rvk : Option RVKWrapper} {raw : PartiallyDecodedInstruction}
    {initIx : AnyInitVerificationInstruction} (hparse : parseInitInstruction rvk raw = .ok (some initIx))
    {ixs : List PartiallyDecodedInstruction} (hmem : raw ∈ ixs)
    (honly : ∀ ix ∈ ixs, HasCode INIT_VERIFICATION_IX_CODE ix → ix = raw) :
    tryParseVariableInstructionsInitVerification rvk ixs = .ok
      { initIx := initIx
        idAcc := InitVerificationInstructionBase.getIdentifierAcc raw
        wardenAcc := InitVerificationInstructionBase.getWardenAcc raw } := by
  induction ixs with
  | nil => exact absurd hmem List.not_mem_nil
  | cons ix ixs ih =>
      rw [tryParseVariableInstructionsInitVerification]
      by_cases hraw : ix = raw
      · rw [hraw, bind_of_ok hparse]
        rfl
      · have hcode : ¬ HasCode INIT_VERIFICATION_IX_CODE ix := fun h =>
          hraw (honly ix List.mem_cons_self h)
        rw [bind_of_ok (parseInitInstruction_eq_none hcode rvk)]
        exact ih ((List.mem_cons.mp hmem).resolve_left (Ne.symm hraw))
          fun other hother => honly other (List.mem_cons_of_mem ix hother)

/-- **The finalize instruction is found** among instructions that do not have its code. -/
lemma parseFinalize_of_only {p : Primitives} {key : Bytes} {raw : PartiallyDecodedInstruction}
    {finalizeIx : FinalizeVerificationInstruction}
    (hparse : FinalizeVerificationInstruction.parseInstructionFromViewingKey p raw key
      = .ok (some finalizeIx)) {ixs : List MessageInstruction} (hmem : .partiallyDecoded raw ∈ ixs)
    (honly : ∀ ix, .partiallyDecoded ix ∈ ixs → HasCode FINALIZE_VERIFICATION_IX_CODE ix → ix = raw) :
    tryParseVariableInstructionsFinalizeVerificationFromDecryptionKey p key ixs = .ok
      { finalizeIx := finalizeIx
        idAcc := FinalizeVerificationInstruction.getIdentifierAcc raw
        recipientAcc := FinalizeVerificationInstruction.getRecipientAcc raw
        refKeyAcc := FinalizeVerificationInstruction.getReferenceKeyAcc raw } := by
  induction ixs with
  | nil => exact absurd hmem List.not_mem_nil
  | cons message ixs ih =>
      have hrest := fun other hother => honly other (List.mem_cons_of_mem message hother)
      cases message with
      | parsed ix =>
          exact ih ((List.mem_cons.mp hmem).resolve_left MessageInstruction.noConfusion) hrest
      | partiallyDecoded ix =>
          rw [tryParseVariableInstructionsFinalizeVerificationFromDecryptionKey]
          by_cases hraw : ix = raw
          · rw [hraw, bind_of_ok hparse]
            rfl
          · have hcode : ¬ HasCode FINALIZE_VERIFICATION_IX_CODE ix := fun h =>
              hraw (honly ix List.mem_cons_self h)
            rw [bind_of_ok (parseFinalizeInstruction_eq_none hcode p key)]
            refine ih ((List.mem_cons.mp hmem).resolve_left fun heq => hraw ?_) hrest
            exact (MessageInstruction.partiallyDecoded.inj heq).symm

/-! ## Instructions that say what the request says -/

variable {serialization : Serialization} {accs : ProgramAccounts} {request : SendProofSerialized}
  {warden : PublicKey} {ix : PartiallyDecodedInstruction}

/-- What the parser makes of an init instruction. -/
structure ReadAs (initIx : InitVerificationInstruction) (json : SendPublicInputsSerializedJSON)
    (metadata : CommitmentMetadata) : Prop where
  amount : initIx.sendAmount = json.join_split.amount
  fee : initIx.fee = json.join_split.fee
  commitmentHash : initIx.commitmentHash = json.join_split.output_commitment
  isAssociatedTokenAccount : initIx.recipientIsAssociatedTokenAccount
    = json.recipient_is_associated_token_account
  isSolanaPayTransfer : initIx.isSolanaPayTransfer = json.solana_pay_transfer
  collector : initIx.optFee.collector.bytes = json.join_split.optional_fee.collector
  optionalFee : initIx.optFee.amount = json.join_split.optional_fee.amount
  metadata : initIx.metadata = .decrypted metadata

/-- **An init instruction for the request is read as it.** -/
lemma InitFor.parse (h : InitFor serialization accs request warden ix) {rvk : RVKWrapper}
    {metadata : CommitmentMetadata} (hmetadata : CommitmentMetadata.deserializeAndDecrypt
      request.publicInputs.join_split.metadata rvk request.publicInputs.join_split.output_commitment
        = .ok metadata) :
    ∃ initIx, parseInitInstruction (some rvk) ix = .ok (some (.current initIx)) ∧
      ReadAs initIx request.publicInputs metadata := by
  obtain ⟨data, hfits, hdata, hjson⟩ := h.data
  obtain ⟨joinSplit, hjoin, hjson⟩ := bind_eq_ok.mp hjson
  obtain ⟨hash, -, hjson⟩ := bind_eq_ok.mp hjson
  have hpublic := Except.ok.inj hjson
  have htold := JoinSplitBorsh.serializeJSON_spec hjoin
  obtain ⟨roots, hroots⟩ := htold.roots
  have hparse : initVerificationInstructionBorsh.parse (bs58ToBytes ix.data) = some data := by
    rw [hdata, bs58ToBytes_bytesToBs58]
    exact initVerificationInstructionBorsh.parse_encode hfits
  rw [← hpublic] at hmetadata
  have hdecrypt : InitVerificationInstruction.parseMetadata (some rvk) data.request.join_split
      (leBytes 32 data.request.join_split.output_commitment) = .ok (.decrypted metadata) := by
    rw [InitVerificationInstruction.parseMetadata, htold.writtenAs.metadata_eq,
      htold.writtenAs.output_commitment_eq]
    exact bind_eq_ok.mpr ⟨metadata, hmetadata, rfl⟩
  have hinit : ∃ initIx, InitVerificationInstruction.parseInstruction ix (some rvk) = .ok (some initIx) ∧
      ReadAs initIx request.publicInputs metadata := by
    unfold InitVerificationInstruction.parseInstruction
    rw [hparse]
    refine ⟨_, bind_eq_ok.mpr ⟨_, hdecrypt, bind_eq_ok.mpr ⟨_, hroots, rfl⟩⟩, ?_⟩
    rw [← hpublic]
    exact
      { amount := htold.writtenAs.amount_eq
        fee := htold.writtenAs.fee_eq
        commitmentHash := htold.writtenAs.output_commitment_eq
        isAssociatedTokenAccount := rfl
        isSolanaPayTransfer := rfl
        collector := htold.collector
        optionalFee := htold.optionalFee
        metadata := rfl }
  obtain ⟨initIx, hinit, hread⟩ := hinit
  refine ⟨initIx, ?_, hread⟩
  rw [parseInitInstruction, bind_of_ok hinit]
  rfl

/-- **A finalize instruction for the request is read with the owner** that was encrypted for the request. -/
lemma FinalizeFor.parse (h : FinalizeFor accs request ix) (p : Primitives) {call : CtrCall}
    {owner : PublicKey} {tokenType : TokenType}
    (htoken : request.publicInputs.join_split.token_id = getNumberFromTokenType tokenType)
    (howner : call.toEncrypt = owner.bytes) (hlength : call.iv.length = 16)
    (hiv : request.iv = leBytes 32 (ofLeBytes call.iv))
    (hcipher : request.encryptedOwner
      = leBytes 32 (ofLeBytes (p.encryptAES256CTRWithKey call).cipherText)) :
    ∃ finalizeIx, FinalizeVerificationInstruction.parseInstructionFromViewingKey p ix call.key
        = .ok (some finalizeIx) ∧
      finalizeIx.owner = owner ∧ finalizeIx.encryptedOwner = p.encryptAES256CTRWithKey call := by
  obtain ⟨data, hfits, hdata, htoken', hiv', hcipher'⟩ := h.data
  have hparse : finalizeVerificationBorsh.parse (bs58ToBytes ix.data) = some data := by
    rw [hdata, bs58ToBytes_bytesToBs58]
    exact finalizeVerificationBorsh.parse_encode hfits
  have hrawIV : leBytes 32 data.data.iv = call.iv ++ List.replicate 16 0 := by
    rw [hiv', hiv, ← ofLeBytes_append_zeros call.iv 16]
    exact leBytes_ofLeBytes_of_length (by rw [List.length_append, hlength, List.length_replicate])
  have hbytes : leBytes 32 data.data.encrypted_owner = (p.encryptAES256CTRWithKey call).cipherText := by
    rw [hcipher', hcipher]
    refine leBytes_ofLeBytes_of_length ?_
    rw [Primitives.encryptAES256CTRWithKey, p.length_addKeyStream, howner, owner.length_eq]
  have htokenId : getTokenTypeFromNumber data.data.token_id = .ok tokenType :=
    getTokenTypeFromNumber_eq_ok_iff.mpr (by rw [htoken] at htoken'; exact_mod_cast htoken')
  have hpadding : ((call.iv ++ List.replicate 16 0).drop 16).all (· == 0) = true := by
    rw [List.drop_left' hlength]
    decide
  have hdecrypt : FinalizeVerificationInstruction.decryptOwner p data.data.encrypted_owner call.iv call.key
      = owner := by
    rw [FinalizeVerificationInstruction.decryptOwner_eq_iff, hbytes, ← howner]
    exact p.decryptAES256CTRWithKey_encrypt call
  rw [FinalizeVerificationInstruction.parseInstructionFromViewingKey, hparse]
  simp only [hrawIV, hpadding, if_true, List.take_left' hlength, hdecrypt, hbytes]
  exact ⟨_, bind_eq_ok.mpr ⟨tokenType, htokenId, rfl⟩, rfl, rfl⟩

/-! ## Finding the transactions -/

lemma find?_eq_some_of_only {α : Type} {p : α → Bool} {l : List α} {a : α} (hmem : a ∈ l) (ha : p a = true)
    (honly : ∀ b ∈ l, p b = true → b = a) : l.find? p = some a := by
  cases hfind : l.find? p with
  | none => exact absurd ha (List.find?_eq_none.mp hfind a hmem)
  | some b => rw [honly b (List.mem_of_find?_eq_some hfind) (List.find?_some hfind)]

/-- A key is known by its number. -/
lemma PublicKey.eq_some_of_map_bytes {acc? : Option PublicKey} {key : PublicKey}
    (h : acc?.map PublicKey.bytes = some (leBytes 32 (ofLeBytes key.bytes))) : acc? = some key := by
  obtain ⟨acc, hacc, hbytes⟩ := Option.map_eq_some_iff.mp h
  rw [leBytes_ofLeBytes_of_length key.length_eq] at hbytes
  rw [hacc, PublicKey.eq_of_bytes_eq hbytes]

/-- An instruction with the code, and with the key at one of its places, belongs to the key. -/
lemma isIdentifierIxWithCode_of_mem {code i : ℕ} {identifier : PublicKey}
    (hprogram : ix.programId = accs.elusivProgramId) (hacc : ix.accounts[i]? = some identifier)
    (hcode : HasCode code ix) : isIdentifierIxWithCode accs ix identifier code = true := by
  have hfind : (ix.accounts.find? fun k => k == identifier).isSome = true :=
    List.find?_isSome.mpr ⟨identifier, List.mem_of_getElem? hacc, beq_self_eq_true _⟩
  rw [isIdentifierIxWithCode, isIdentifierIx, isElusivIx, hprogram, hfind, hcode, beq_self_eq_true,
    beq_self_eq_true]
  rfl

lemma InitFor.hasCode (h : InitFor serialization accs request warden ix) :
    HasCode INIT_VERIFICATION_IX_CODE ix := by
  obtain ⟨data, hfits, hdata, -⟩ := h.data
  have hindex : data.instruction_index = INIT_VERIFICATION_IX_CODE := eq_of_beq hfits.1.2
  rw [HasCode, hdata, bs58ToBytes_bytesToBs58, ← hindex]
  rfl

lemma FinalizeFor.hasCode (h : FinalizeFor accs request ix) :
    HasCode FINALIZE_VERIFICATION_IX_CODE ix := by
  obtain ⟨data, -, hdata, -⟩ := h.data
  rw [HasCode, hdata, bs58ToBytes_bytesToBs58]
  rfl

section Found

variable {identifier : PublicKey} {rawSend : List ParsedMessage} {message : ParsedMessage}

lemma InitOnChain.find (h : InitOnChain accs identifier rawSend message ix)
    (hix : InitFor serialization accs request warden ix)
    (hid : request.identifier = leBytes 32 (ofLeBytes identifier.bytes)) :
    (findSendInitTx accs identifier rawSend).map Prod.fst = some message := by
  rw [findSendInitTx_fst]
  refine find?_eq_some_of_only h.mem (List.any_eq_true.mpr ⟨ix, h.ix_mem, ?_⟩) h.only
  have hacc := hix.identifierAcc
  rw [hid] at hacc
  exact isIdentifierIxWithCode_of_mem hix.program (PublicKey.eq_some_of_map_bytes hacc) hix.hasCode

lemma FinalizeOnChain.find (h : FinalizeOnChain accs identifier rawSend message ix)
    (hix : FinalizeFor accs request ix)
    (hid : request.identifier = leBytes 32 (ofLeBytes identifier.bytes)) :
    (findSendFinalizeTx accs identifier rawSend).map Prod.fst = some message := by
  rw [findSendFinalizeTx_fst]
  refine find?_eq_some_of_only h.mem (List.any_eq_true.mpr ⟨ix, h.ix_mem, ?_⟩) h.only
  have hacc := hix.identifierAcc
  rw [hid] at hacc
  exact isIdentifierIxWithCode_of_mem hix.program (PublicKey.eq_some_of_map_bytes hacc) hix.hasCode

lemma InitOnChain.tryParse (h : InitOnChain accs identifier rawSend message ix)
    (hprogram : ix.programId = accs.elusivProgramId) {rvk : Option RVKWrapper}
    {initIx : AnyInitVerificationInstruction} (hparse : parseInitInstruction rvk ix = .ok (some initIx)) :
    initOfMessage accs rvk message = .ok
      { initIx := initIx
        idAcc := InitVerificationInstructionBase.getIdentifierAcc ix
        wardenAcc := InitVerificationInstructionBase.getWardenAcc ix } := by
  refine parseInit_of_only hparse (List.mem_filter.mpr ⟨h.ix_mem, ?_⟩) fun other hother hcode => ?_
  · rw [isElusivIx, hprogram]
    exact beq_self_eq_true _
  · obtain ⟨hmem, helusiv⟩ := List.mem_filter.mp hother
    exact h.ix_only other hmem helusiv hcode

end Found

end ElusivSdk
