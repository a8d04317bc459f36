import ElusivSdk.Library.FirstMatch
import ElusivSdk.Transactions.TxParsing.InstructionFormats
import ElusivSdk.TxManagers.ErrorIsolation
import ElusivSdk.TxManagers.SendPairing

/-!
# What the pairings parse to

`txResponseToElusivTxs` starts one parse for every pairing.  A send is parsed from the init instructions of one
message and, once it is finalized, from the finalize instruction of another; a topup from its own message.

* `hasInit`, `hasFinalize`, `initOfMessage` — the messages of a send, and what is read from its init.
* `txResponseToSendTx_eq_ok_iff`, `txResponseToSendTx_pending_iff` — a send with its finalize, and without.
* `TxEvent.WellFormed`, `MadeFrom` — messages that parse, and what each pairing of them makes.
* **`txResponseToElusivTxs_pairs`** — what is found is what there is; when the messages parse, one transaction
  is returned for every pairing, made from its messages.
-/

namespace ElusivSdk

open Program InstructionParsing TransactionParsing

/-! ## The messages of a send -/

/-- The init instructions of a message; with the root viewing key the metadata is decrypted. -/
def initOfMessage (accs : ProgramAccounts) (rvk : Option RVKWrapper) (message : ParsedMessage) :
    Except Failure InitInstructions :=
  tryParseVariableInstructionsInitVerification rvk
    (message.partiallyDecoded.filter fun ix => isElusivIx accs ix)

section Messages

variable (accs : ProgramAccounts) (idKey : PublicKey)

def hasInit (message : ParsedMessage) : Bool :=
  message.partiallyDecoded.any fun ix => isInitVerificationIx accs ix idKey

def hasFinalize (message : ParsedMessage) : Bool :=
  message.partiallyDecoded.any fun ix => isFinalizeVerificationIx accs ix idKey

variable {accs idKey}

lemma findSendInitTx_fst (messages : List ParsedMessage) :
    (findSendInitTx accs idKey messages).map Prod.fst = messages.find? (hasInit accs idKey) :=
  FirstMatch.find?_zipIdx (hasInit accs idKey) messages 0

lemma findSendFinalizeTx_fst (messages : List ParsedMessage) :
    (findSendFinalizeTx accs idKey messages).map Prod.fst = messages.find? (hasFinalize accs idKey) :=
  FirstMatch.find?_zipIdx (hasFinalize accs idKey) messages 0

lemma hasInit_eq_isSome (message : ParsedMessage) :
    hasInit accs idKey message = (getSendInitIx accs message idKey).isSome := by
  rw [Bool.eq_iff_iff, hasInit, getSendInitIx, List.any_eq_true, List.find?_isSome]

lemma hasFinalize_eq_isSome (message : ParsedMessage) :
    hasFinalize accs idKey message = (getSendFinalizeIx accs message idKey).isSome := by
  rw [Bool.eq_iff_iff, hasFinalize, getSendFinalizeIx, List.any_eq_true, List.find?_isSome]

/-- A finalize has no init, and its init no finalize. -/
lemma has_of_finalize {send : ℕ} {acc : PublicKey} {response : SigResponse}
    (h : (TxEvent.finalize send acc response).OneKind accs idKey) :
    hasInit accs idKey response.fst.message = false ∧
      hasFinalize accs idKey response.fst.message = true := by
  obtain ⟨ix, hix, -⟩ := Option.bind_eq_some_iff.mp h.2.2
  rw [hasInit_eq_isSome, hasFinalize_eq_isSome, h.2.1, hix]
  exact ⟨rfl, rfl⟩

lemma has_of_init {send : ℕ} {acc : PublicKey} {response : SigResponse}
    (h : (TxEvent.init send acc response).OneKind accs idKey) :
    hasInit accs idKey response.fst.message = true ∧
      hasFinalize accs idKey response.fst.message = false := by
  obtain ⟨ix, hix, -⟩ := Option.bind_eq_some_iff.mp h.2.1
  have hnone : getSendFinalizeIx accs response.fst.message idKey = none := h.2.2
  rw [hasInit_eq_isSome, hasFinalize_eq_isSome, hix, hnone]
  exact ⟨rfl, rfl⟩

end Messages

/-! ## The messages of a pairing -/

/-- The messages of a pairing are in the history. -/
def Pairing.Among (events : List TxEvent) : Pairing → Prop
  | topup store => .store store ∈ events
  | processed finalize init => ∃ send acc acc',
      .finalize send acc finalize ∈ events ∧ .init send acc' init ∈ events
  | pending init => ∃ send acc, .init send acc init ∈ events

lemma init_mem_of_initOf {events : List TxEvent} {send : ℕ} {initTx : SigResponse}
    (h : initOf events send = some initTx) : ∃ acc, .init send acc initTx ∈ events := by
  obtain ⟨event, hevent, hinit⟩ := List.exists_of_findSome?_eq_some h
  cases event with
  | init send' acc response =>
      rw [TxEvent.initOf?] at hinit
      split_ifs at hinit with hsend
      obtain rfl := Option.some.inj hinit
      exact ⟨acc, hsend ▸ hevent⟩
  | unrelated response | store response | finalize send' acc response => cases hinit

lemma among_of_mem_pairings {events : List TxEvent} {pairing : Pairing} (h : pairing ∈ pairings events) :
    pairing.Among events := by
  obtain ⟨event, hevent, hpairing⟩ := List.mem_flatMap.mp h
  cases event with
  | unrelated response => exact absurd hpairing List.not_mem_nil
  | store response =>
      obtain rfl := List.mem_singleton.mp hpairing
      exact hevent
  | init send acc response =>
      rw [pairingOf] at hpairing
      split_ifs at hpairing
      · exact absurd hpairing List.not_mem_nil
      · obtain rfl := List.mem_singleton.mp hpairing
        exact ⟨send, acc, hevent⟩
  | finalize send acc response =>
      obtain ⟨initTx, hinit, rfl⟩ := List.mem_map.mp hpairing
      obtain ⟨acc', hmem⟩ := init_mem_of_initOf (Option.mem_toList.mp hinit)
      exact ⟨send, acc, acc', hevent, hmem⟩

/-! ## The parse of a pairing -/

section Parsing

variable {rvk : RVKWrapper} {accs : ProgramAccounts}

/-- The init of a send is that of its message, with a finalize and without. -/
lemma initOfMessage_of_parts {p : Primitives} {initTx : ParsedMessage} {finalizeTx : Option ParsedMessage}
    {decryptionKey : Bytes} {rvk? : Option RVKWrapper}
    {parts : InitInstructions × Option FinalizeInstructions}
    (h : tryParseSendParts accs p initTx finalizeTx decryptionKey rvk? = .ok parts) :
    initOfMessage accs rvk? initTx = .ok parts.1 := by
  obtain ⟨init, hinit, h⟩ := bind_eq_ok.mp h
  cases finalizeTx with
  | none =>
      obtain rfl := Except.ok.inj h
      exact hinit
  | some finalizeTx =>
      obtain ⟨final, -, h⟩ := bind_eq_ok.mp h
      obtain rfl := Except.ok.inj h
      exact hinit

/-- The parts of a send with a finalize. -/
lemma tryParseSendParts_some_eq_ok_iff {p : Primitives} {initTx finalizeTx : ParsedMessage}
    {decryptionKey : Bytes} {rvk? : Option RVKWrapper} {init : InitInstructions}
    {data : Option FinalizeInstructions} :
    tryParseSendParts accs p initTx (some finalizeTx) decryptionKey rvk? = .ok (init, data) ↔
      initOfMessage accs rvk? initTx = .ok init ∧
        ∃ final, tryParseVariableInstructionsFinalizeVerificationFromDecryptionKey p decryptionKey
          finalizeTx.instructions = .ok final ∧ data = some final := by
  constructor
  · intro h
    obtain ⟨init', hinit, h⟩ := bind_eq_ok.mp h
    obtain ⟨final, hfinal, h⟩ := bind_eq_ok.mp h
    obtain ⟨rfl, rfl⟩ := Prod.mk.inj (Except.ok.inj h)
    exact ⟨hinit, final, hfinal, rfl⟩
  · rintro ⟨hinit, final, hfinal, rfl⟩
    exact bind_eq_ok.mpr ⟨init, hinit, bind_eq_ok.mpr ⟨final, hfinal, rfl⟩⟩

namespace ResponseConverter

/-- What the owner makes of a finalize and its init. -/
lemma txResponseToSendTx_eq_ok_iff {tx₀ : NoncedTxResponse} {finalize initTx : SigResponse}
    {tx : ElusivTransaction} (hfinalize : hasInit accs tx₀.idPubKey finalize.fst.message = false ∧
      hasFinalize accs tx₀.idPubKey finalize.fst.message = true)
    (hinit : hasInit accs tx₀.idPubKey initTx.fst.message = true) :
    txResponseToSendTx rvk accs tx₀ [finalize, initTx] = .ok tx ↔
      ∃ init final, initOfMessage accs (some rvk) initTx.fst.message = .ok init ∧
        tryParseVariableInstructionsFinalizeVerificationFromDecryptionKey rvk.primitives
          (rvk.generateDecryptionKey tx₀.nonce) finalize.fst.message.instructions = .ok final ∧
        tx = sendOfParts accs tx₀.nonce finalize.snd init (some final) := by
  have hfirst : [finalize.fst.message, initTx.fst.message].find? (hasInit accs tx₀.idPubKey)
      = some initTx.fst.message := by
    rw [List.find?_cons, hfinalize.1, List.find?_cons, hinit]
  have hsecond : [finalize.fst.message, initTx.fst.message].find? (hasFinalize accs tx₀.idPubKey)
      = some finalize.fst.message := by
    rw [List.find?_cons, hfinalize.2]
  rw [txResponseToSendTx, tryParseRawSend, tryParseRawSendFromDecryptionKey_eq_ok_iff,
    findSendInitTx_fst, findSendFinalizeTx_fst, List.map_cons, List.map_singleton, hfirst, hsecond]
  constructor
  · rintro ⟨_, heq, init, data, hparts, _, hhead, rfl⟩
    obtain rfl := Option.some.inj heq
    obtain rfl := Option.some.inj hhead
    obtain ⟨hinits, final, hfinal, rfl⟩ := tryParseSendParts_some_eq_ok_iff.mp hparts
    exact ⟨init, final, hinits, hfinal, rfl⟩
  · rintro ⟨init, final, hinits, hfinal, rfl⟩
    exact ⟨_, rfl, init, some final, tryParseSendParts_some_eq_ok_iff.mpr ⟨hinits, final, hfinal, rfl⟩,
      finalize.snd, rfl, rfl⟩

/-- What the owner makes of an init alone. -/
lemma txResponseToSendTx_pending_iff {tx₀ : NoncedTxResponse} {initTx : SigResponse}
    {tx : ElusivTransaction} (hinit : hasInit accs tx₀.idPubKey initTx.fst.message = true ∧
      hasFinalize accs tx₀.idPubKey initTx.fst.message = false) :
    txResponseToSendTx rvk accs tx₀ [initTx] = .ok tx ↔
      ∃ init, initOfMessage accs (some rvk) initTx.fst.message = .ok init ∧
        tx = sendOfParts accs tx₀.nonce initTx.snd init none := by
  have hfirst : [initTx.fst.message].find? (hasInit accs tx₀.idPubKey)
      = some initTx.fst.message := by
    rw [List.find?_cons, hinit.1]
  have hnone : [initTx.fst.message].find? (hasFinalize accs tx₀.idPubKey) = none := by
    rw [List.find?_cons, hinit.2]
    rfl
  rw [txResponseToSendTx, tryParseRawSend, tryParseRawSendFromDecryptionKey_eq_ok_iff,
    findSendInitTx_fst, findSendFinalizeTx_fst, List.map_singleton, hfirst, hnone]
  constructor
  · rintro ⟨_, heq, init, data, hparts, _, hhead, rfl⟩
    obtain rfl := Option.some.inj heq
    obtain rfl := Option.some.inj hhead
    have hinits := initOfMessage_of_parts hparts
    obtain rfl : data = none := by
      have hsome := isSome_of_tryParseSendParts hparts
      exact Option.not_isSome_iff_eq_none.mp (by rw [hsome]; exact Bool.false_ne_true)
    exact ⟨init, hinits, rfl⟩
  · rintro ⟨init, hinits, rfl⟩
    exact ⟨_, rfl, init, none, bind_eq_ok.mpr ⟨init, hinits, rfl⟩, initTx.snd, rfl, rfl⟩

end ResponseConverter

end Parsing

/-! ## The whole method -/

section Whole

variable {rvk : RVKWrapper} {accs : ProgramAccounts} {idPubKey : PublicKey} {nonce : ℕ}
  {events : List TxEvent} {pairing : Pairing}

/-- The instructions of a message can be read. -/
def TxEvent.WellFormed (rvk : RVKWrapper) (accs : ProgramAccounts) (nonce : ℕ) (idPubKey : PublicKey) :
    TxEvent → Prop
  | unrelated _ => True
  | store response => ∃ tx,
      ResponseConverter.txResponseToStoreTx rvk ⟨[], nonce, idPubKey⟩ response = .ok tx
  | init _ _ response => ∃ init, initOfMessage accs (some rvk) response.fst.message = .ok init
  | finalize _ _ response => ∃ final,
      tryParseVariableInstructionsFinalizeVerificationFromDecryptionKey rvk.primitives
        (rvk.generateDecryptionKey nonce) response.fst.message.instructions = .ok final

/-- What a pairing makes: a topup what its message says, a send what its init says, with what its finalize
adds. -/
def Pairing.Makes (rvk : RVKWrapper) (accs : ProgramAccounts) (nonce : ℕ) (idPubKey : PublicKey) :
    Pairing → ElusivTransaction → Prop
  | topup store, tx => ResponseConverter.txResponseToStoreTx rvk ⟨[], nonce, idPubKey⟩ store = .ok tx
  | processed finalize initTx, tx => ∃ init final,
      initOfMessage accs (some rvk) initTx.fst.message = .ok init ∧
      tryParseVariableInstructionsFinalizeVerificationFromDecryptionKey rvk.primitives
        (rvk.generateDecryptionKey nonce) finalize.fst.message.instructions = .ok final ∧
      tx = sendOfParts accs nonce finalize.snd init (some final)
  | pending initTx, tx => ∃ init, initOfMessage accs (some rvk) initTx.fst.message = .ok init ∧
      tx = sendOfParts accs nonce initTx.snd init none

namespace ResponseConverter

/-- A pairing parses to what it makes. -/
lemma parsePairing_eq_ok_iff (h : Chronology accs idPubKey events) (hamong : pairing.Among events)
    {responses : List SigResponse} {tx : ElusivTransaction} :
    parsePairing rvk accs ⟨responses, nonce, idPubKey⟩ pairing = .ok tx ↔
      pairing.Makes rvk accs nonce idPubKey tx := by
  cases pairing with
  | topup store => rfl
  | processed finalize initTx =>
      obtain ⟨send, acc, acc', hfinalize, hinit⟩ := hamong
      have hkinds := has_of_finalize (h.oneKind_of_mem hfinalize)
      have hinitKind := has_of_init (h.oneKind_of_mem hinit)
      exact @txResponseToSendTx_eq_ok_iff _ _ ⟨responses, nonce, idPubKey⟩ _ _ _ hkinds hinitKind.1
  | pending initTx =>
      obtain ⟨send, acc, hinit⟩ := hamong
      have hinitKind := has_of_init (h.oneKind_of_mem hinit)
      exact @txResponseToSendTx_pending_iff _ _ ⟨responses, nonce, idPubKey⟩ _ _ hinitKind

/-- Messages that can be read make a transaction. -/
lemma exists_makes (hamong : pairing.Among events)
    (hwell : ∀ event ∈ events, event.WellFormed rvk accs nonce idPubKey) :
    ∃ tx, pairing.Makes rvk accs nonce idPubKey tx := by
  cases pairing with
  | topup store => exact hwell _ hamong
  | processed finalize initTx =>
      obtain ⟨send, acc, acc', hfinalize, hinit⟩ := hamong
      obtain ⟨final, hfinal⟩ := hwell _ hfinalize
      obtain ⟨init, hinits⟩ := hwell _ hinit
      exact ⟨_, init, final, hinits, hfinal, rfl⟩
  | pending initTx =>
      obtain ⟨send, acc, hinit⟩ := hamong
      obtain ⟨init, hinits⟩ := hwell _ hinit
      exact ⟨_, init, hinits, rfl⟩

/-- One transaction comes back for every pairing. -/
lemma exists_txs (h : Chronology accs idPubKey events)
    (hwell : ∀ event ∈ events, event.WellFormed rvk accs nonce idPubKey) (hpairings : pairings events ≠ []) :
    ∃ txs, txResponseToElusivTxs rvk accs ⟨events.map TxEvent.response, nonce, idPubKey⟩ = .ok txs ∧
      List.Forall₂ (fun pairing tx => Yields pairing tx ∧ pairing.Makes rvk accs nonce idPubKey tx)
        (pairings events) txs := by
  have hne : events ≠ [] := by
    rintro rfl
    exact hpairings rfl
  have hok : ((pairings events).mapM (parsePairing rvk accs
      ⟨events.map TxEvent.response, nonce, idPubKey⟩)).isOk = true := by
    refine isOk_mapM.mpr fun pairing hmem => ?_
    have hamong := among_of_mem_pairings hmem
    obtain ⟨tx, hmakes⟩ := exists_makes hamong hwell
    rw [(parsePairing_eq_ok_iff h hamong).mpr hmakes]
    rfl
  have htxs := eq_ok_value hok
  refine ⟨_, (txResponseToElusivTxs_history h nonce hne hpairings).trans htxs, ?_⟩
  refine ((List.forall₂_and_left _ _).mpr ⟨fun pairing hmem => hmem, forall₂_of_mapM_eq_ok htxs⟩).imp ?_
  rintro pairing tx ⟨hmem, hparse⟩
  exact ⟨@yields_of_mem_pairings rvk accs ⟨_, nonce, idPubKey⟩ _ h _ hmem _ hparse,
    (parsePairing_eq_ok_iff h (among_of_mem_pairings hmem)).mp hparse⟩

/-- **One topup for every store, one processed send for every finalize, from it and the init of its own
send, and one pending send for every init without a finalize — and nothing else.**  A history that has none
of them is refused.  Where the messages can be read, exactly these transactions are returned, in this order. -/
theorem txResponseToElusivTxs_pairs (h : Chronology accs idPubKey events) (nonce : ℕ) :
    (txResponseToElusivTxs rvk accs ⟨events.map TxEvent.response, nonce, idPubKey⟩
        = if events = [] then .error (.error "TxResponse contains null or is empty")
          else if pairings events = [] then .error (.error INVALID_TX_TYPE)
          else (pairings events).mapM
            (parsePairing rvk accs ⟨events.map TxEvent.response, nonce, idPubKey⟩)) ∧
      (∀ send acc response, .finalize send acc response ∈ events → ∃ initTx,
        .init send acc initTx ∈ events ∧
          pairingOf events (.finalize send acc response) = [.processed response initTx]) ∧
      (∀ pairing ∈ pairings events, ∀ res,
        parsePairing rvk accs ⟨events.map TxEvent.response, nonce, idPubKey⟩ pairing = .ok res →
          Yields pairing res) ∧
      ((∀ event ∈ events, event.WellFormed rvk accs nonce idPubKey) → pairings events ≠ [] →
        ∃ txs, txResponseToElusivTxs rvk accs ⟨events.map TxEvent.response, nonce, idPubKey⟩ = .ok txs ∧
          List.Forall₂ (fun pairing tx => Yields pairing tx ∧ pairing.Makes rvk accs nonce idPubKey tx)
            (pairings events) txs) := by
  refine ⟨?_, ?_, fun pairing hmem res hres => yields_of_mem_pairings h hmem hres, exists_txs h⟩
  · have hloop := @startParsing_history rvk accs ⟨events.map TxEvent.response, nonce, idPubKey⟩ events h rfl
    rw [txResponseToElusivTxs]
    dsimp only
    rw [hloop]
    show (if _ then _ else if _ then _ else _) = _
    simp only [List.length_map, List.length_eq_zero_iff, List.mapM_map]
    rfl
  · intro send acc response hmem
    obtain ⟨newer, older, rfl⟩ := List.append_of_mem hmem
    obtain ⟨between, initTx, earlier, rfl, -, hinit⟩ := exists_initOf h
    refine ⟨initTx, ?_, ?_⟩
    · exact List.mem_append_right _ (List.mem_cons_of_mem _
        (List.mem_append_right _ List.mem_cons_self))
    · rw [pairingOf, hinit]
      rfl

end ResponseConverter

end Whole

/-! ### Two sends on one verification account -/

namespace PlainMessages

abbrev rvk : RVKWrapper := ForeignTransaction.rvk

abbrev idKey : PublicKey := rvk.getIdentifierKey 0

def other : PublicKey := ElusivTransaction.bareKey 21

def initIx (amount : ℤ) : InitVerificationInstructionLegacy :=
  { verAccIndex := 0
    vKeyId := 0
    treeIndices := [0, 0]
    commitmentCount := 1
    roots := [Format.leBytes 32 1]
    nullifierHashes := [Format.leBytes 32 2]
    commitmentHash := Format.leBytes 32 3
    feeVersion := 0
    sendAmount := amount
    fee := 1
    recipientIsAssociatedTokenAccount := false
    hashedInputs := Format.leBytes 32 4
    skipNullifierPDA := false
    isSolanaPayTransfer := false
    commIndex := 0
    tokenId := .LAMPORTS }

def finalizeIx : FinalizeVerificationInstruction :=
  { amount := 6
    tokenId := .LAMPORTS
    mtIndex := 0
    encryptedOwner := rvk.primitives.encryptAES256CTRWithKey
      ⟨rvk.generateDecryptionKey 0, List.replicate 16 0, (ElusivTransaction.bareKey 9).bytes⟩
    verificationAccountIndex := 0
    owner := ElusivTransaction.bareKey 9 }

/-- An instruction of the program, as a node reports it. -/
def reported (accounts : List PublicKey) (bytes : Bytes) : PartiallyDecodedInstruction :=
  { programId := plainAccounts.elusivProgramId
    accounts := accounts
    data := bytesToBs58 bytes }

def rawInit (verificationAcc : PublicKey) (amount : ℤ) : PartiallyDecodedInstruction :=
  reported [ElusivTransaction.bareKey 7, verificationAcc, other, other, other, idKey]
    ((initIx amount).wire fun _ => false)

def rawFinalize (verificationAcc : PublicKey) : PartiallyDecodedInstruction :=
  reported [ElusivTransaction.bareKey 8, idKey, plainAccounts.systemProgramId, other, other, verificationAcc]
    (finalizeIx.compile false 0)

/-- A transaction of one instruction. -/
def response (raw : PartiallyDecodedInstruction) (sig : ConfirmedSignatureInfo) : SigResponse :=
  ⟨⟨⟨[.partiallyDecoded raw]⟩, none⟩, sig⟩

lemma initIx_inRange {amount : ℤ} (hlow : 0 ≤ amount) (hhigh : amount ≤ MAX_UINT64) :
    (initIx amount).InRange where
  base :=
    { verAccIndex_lt := show 0 < 256 by decide
      vKeyId_le := Nat.zero_le _
      treeIndices_length := rfl
      treeIndices_le := show ∀ t ∈ [0, 0], t ≤ MAX_UINT32 by decide
      commitmentCount_le := show 1 ≤ MAX_UINT32 by decide
      roots_length := rfl
      nullifierHashes_length := rfl
      length_root := List.forall_mem_singleton.mpr (Format.length_leBytes _ _)
      length_nullifierHash := List.forall_mem_singleton.mpr (Format.length_leBytes _ _)
      length_hash := Format.length_leBytes _ _
      feeVersion_le := Nat.zero_le _
      sendAmount_nonneg := hlow
      sendAmount_le := hhigh
      fee_nonneg := show (0 : ℤ) ≤ 1 by decide
      fee_le := show (1 : ℤ) ≤ MAX_UINT64 by decide
      length_hashedInputs := Format.length_leBytes _ _ }
  commIndex_le := Nat.zero_le _

lemma finalizeIx_inRange : finalizeIx.InRange where
  amount_nonneg := by decide
  amount_le := by decide
  mtIndex_le := by decide
  length_iv := by decide
  length_cipherText := by decide
  verificationAccountIndex_lt := by decide

/-- What belongs to the key is told by the first byte. -/
lemma isIdentifierIxWithCode_reported {accounts : List PublicKey} (hmem : idKey ∈ accounts) (bytes : Bytes)
    (code : ℕ) : isIdentifierIxWithCode plainAccounts (reported accounts bytes) idKey code
      = (bytes[0]? == some (UInt8.ofNat code)) := by
  have hidentifier : isIdentifierIx plainAccounts (reported accounts bytes) idKey = true := by
    rw [isIdentifierIx, Bool.and_eq_true]
    exact ⟨beq_self_eq_true _, List.find?_isSome.mpr ⟨idKey, hmem, beq_self_eq_true _⟩⟩
  rw [isIdentifierIxWithCode, hidentifier, Bool.true_and, reported, bs58ToBytes_bytesToBs58]

section Kinds

variable (send : ℕ) (acc : PublicKey) (amount : ℤ) (sig : ConfirmedSignatureInfo)

lemma code_rawInit (code : ℕ) : isIdentifierIxWithCode plainAccounts (rawInit acc amount) idKey code
      = (some (UInt8.ofNat INIT_VERIFICATION_IX_CODE) == some (UInt8.ofNat code)) :=
  isIdentifierIxWithCode_reported (by simp) _ _

lemma code_rawFinalize (code : ℕ) : isIdentifierIxWithCode plainAccounts (rawFinalize acc) idKey code
      = (some (UInt8.ofNat FINALIZE_VERIFICATION_IX_CODE) == some (UInt8.ofNat code)) :=
  isIdentifierIxWithCode_reported (by simp) _ _

lemma oneKind_init :
    (TxEvent.init send acc (response (rawInit acc amount) sig)).OneKind plainAccounts idKey := by
  have hinit : isInitVerificationIx plainAccounts (rawInit acc amount) idKey = true :=
    code_rawInit acc amount _
  have hfinalize : isFinalizeVerificationIx plainAccounts (rawInit acc amount) idKey = false :=
    code_rawInit acc amount _
  have hstore : isStoreIx plainAccounts (rawInit acc amount) idKey = false := by
    rw [isStoreIx, isStoreBaseCommIx, isComputeHashIx, code_rawInit, code_rawInit]
    decide
  refine ⟨?_, ?_, ?_⟩
  · show (isStoreIx plainAccounts (rawInit acc amount) idKey || false) = false
    rw [hstore]
    rfl
  · show ([rawInit acc amount].find? fun ix => isInitVerificationIx plainAccounts ix idKey).bind _ = _
    rw [List.find?_singleton, if_pos hinit]
    rfl
  · show ([rawInit acc amount].find? fun ix => isFinalizeVerificationIx plainAccounts ix idKey) = _
    rw [List.find?_singleton, if_neg (by rw [hfinalize]; decide)]

lemma oneKind_finalize :
    (TxEvent.finalize send acc (response (rawFinalize acc) sig)).OneKind plainAccounts idKey := by
  have hinit : isInitVerificationIx plainAccounts (rawFinalize acc) idKey = false :=
    code_rawFinalize acc _
  have hfinalize : isFinalizeVerificationIx plainAccounts (rawFinalize acc) idKey = true :=
    code_rawFinalize acc _
  have hstore : isStoreIx plainAccounts (rawFinalize acc) idKey = false := by
    rw [isStoreIx, isStoreBaseCommIx, isComputeHashIx, code_rawFinalize, code_rawFinalize]
    decide
  refine ⟨?_, ?_, ?_⟩
  · show (isStoreIx plainAccounts (rawFinalize acc) idKey || false) = false
    rw [hstore]
    rfl
  · show ([rawFinalize acc].find? fun ix => isInitVerificationIx plainAccounts ix idKey) = _
    rw [List.find?_singleton, if_neg (by rw [hinit]; decide)]
  · show ([rawFinalize acc].find? fun ix => isFinalizeVerificationIx plainAccounts ix idKey).bind _ = _
    rw [List.find?_singleton, if_pos hfinalize]
    rfl

end Kinds

lemma parseInitInstruction_rawInit (acc : PublicKey) {amount : ℤ} (hlow : 0 ≤ amount)
    (hhigh : amount ≤ MAX_UINT64) (rvk? : Option RVKWrapper) :
    parseInitInstruction rvk? (rawInit acc amount) = .ok (some (.legacy (initIx amount))) := by
  have hrange := initIx_inRange hlow hhigh
  have hroots : (initIx amount).SharedRoots fun _ => false :=
    fun _ _ h => absurd h Bool.false_ne_true
  have hlegacy : InitVerificationInstructionLegacy.parseInstruction (rawInit acc amount)
      = .ok (some (initIx amount)) := by
    refine InitVerificationInstructionLegacy.parse_compile hrange ?_ hroots rfl
    exact { hrange.base with
      commitmentCount_pos := show 0 < 1 by decide
      root_ne_zero := List.forall_mem_singleton.mpr (by decide) }
  have hraw : (rawInit acc amount).data = bytesToBs58 ((initIx amount).wire fun _ => false) := rfl
  rw [parseInitInstruction_legacy hrange hraw, hlegacy]
  rfl

def initInstructions (amount : ℤ) : InitInstructions :=
  { initIx := .legacy (initIx amount)
    idAcc := some idKey
    wardenAcc := some (ElusivTransaction.bareKey 7) }

def finalizeInstructions : FinalizeInstructions :=
  { finalizeIx := finalizeIx
    idAcc := some idKey
    recipientAcc := some (ElusivTransaction.bareKey 8)
    refKeyAcc := some plainAccounts.systemProgramId }

lemma initOfMessage_rawInit (acc : PublicKey) {amount : ℤ} (hlow : 0 ≤ amount) (hhigh : amount ≤ MAX_UINT64)
    (rvk? : Option RVKWrapper) (sig : ConfirmedSignatureInfo) :
    initOfMessage plainAccounts rvk? (response (rawInit acc amount) sig).fst.message
      = .ok (initInstructions amount) := by
  show tryParseVariableInstructionsInitVerification rvk? [rawInit acc amount] = _
  rw [tryParseVariableInstructionsInitVerification,
    bind_of_ok (parseInitInstruction_rawInit acc hlow hhigh rvk?)]
  rfl

lemma parse_rawFinalize (acc : PublicKey) (sig : ConfirmedSignatureInfo) :
    tryParseVariableInstructionsFinalizeVerificationFromDecryptionKey rvk.primitives
      (rvk.generateDecryptionKey 0) (response (rawFinalize acc) sig).fst.message.instructions
        = .ok finalizeInstructions := by
  have hparse : FinalizeVerificationInstruction.parseInstructionFromViewingKey rvk.primitives
      (rawFinalize acc) (rvk.generateDecryptionKey 0) = .ok (some finalizeIx) :=
    FinalizeVerificationInstruction.parse_compile rvk.primitives finalizeIx_inRange rfl false
      (Nat.zero_le _) rfl
  show tryParseVariableInstructionsFinalizeVerificationFromDecryptionKey rvk.primitives
    (rvk.generateDecryptionKey 0) [.partiallyDecoded (rawFinalize acc)] = _
  rw [tryParseVariableInstructionsFinalizeVerificationFromDecryptionKey, bind_of_ok hparse]
  rfl

def landedInit (verificationAcc : PublicKey) (amount : ℤ) (signature : String) : SigResponse :=
  response (rawInit verificationAcc amount) ⟨signature, none, none⟩

def landedFinalize (verificationAcc : PublicKey) (signature : String) : SigResponse :=
  response (rawFinalize verificationAcc) ⟨signature, none, none⟩

def accA : PublicKey := ElusivTransaction.bareKey 20

def accB : PublicKey := ElusivTransaction.bareKey 21

/-- The first send is finalized before the second takes its verification account.  The third is pending. -/
def twoSends : List TxEvent :=
  [.finalize 1 accA (landedFinalize accA "6"), .init 2 accB (landedInit accB 300 "5"),
    .init 1 accA (landedInit accA 200 "4"), .store ForeignTransaction.topup,
    .unrelated ForeignTransaction.foreign, .finalize 0 accA (landedFinalize accA "1"),
    .init 0 accA (landedInit accA 100 "0")]

lemma oneKind_topup : (TxEvent.store ForeignTransaction.topup).OneKind plainAccounts idKey :=
  ⟨ForeignTransaction.isStoreTx_topupMessage, ForeignTransaction.find_topupMessage (by decide),
    ForeignTransaction.find_topupMessage (by decide)⟩

lemma chronology_twoSends : Chronology plainAccounts idKey twoSends := by
  have hfirst := @Chronology.finalize _ _ _ _ _ _ [] _
    (.init .nil (oneKind_init 0 accA 100 ⟨"0", none, none⟩) (by simp)) (oneKind_finalize 0 accA ⟨"1", none, none⟩) (by simp) (by simp)
  have hforeign : (TxEvent.unrelated ForeignTransaction.foreign).OneKind plainAccounts idKey := rfl
  have hsecond := Chronology.init (.init (.store (.unrelated hfirst hforeign) oneKind_topup)
    (oneKind_init 1 accA 200 ⟨"4", none, none⟩) (by simp)) (oneKind_init 2 accB 300 ⟨"5", none, none⟩)
    (by simp)
  have hne : accA ≠ accB := by decide
  exact @Chronology.finalize _ _ _ _ _ _ [_] _ hsecond (oneKind_finalize 1 accA ⟨"6", none, none⟩)
    (by simp [hne]) (by simp)

lemma wellFormed_twoSends : ∀ event ∈ twoSends, event.WellFormed rvk plainAccounts 0 idKey := by
  have hinit : ∀ {send acc sig} {amount : ℤ}, 0 ≤ amount → amount ≤ MAX_UINT64 →
      (TxEvent.init send acc (landedInit acc amount sig)).WellFormed rvk plainAccounts 0 idKey :=
    fun hlow hhigh => ⟨_, initOfMessage_rawInit _ hlow hhigh _ _⟩
  have hfinalize : ∀ {send acc sig},
      (TxEvent.finalize send acc (landedFinalize acc sig)).WellFormed rvk plainAccounts 0 idKey :=
    ⟨_, parse_rawFinalize _ _⟩
  simp only [twoSends, List.forall_mem_cons]
  exact ⟨hfinalize, hinit (by decide) (by decide), hinit (by decide) (by decide),
    ⟨_, ForeignTransaction.parse_topup⟩, trivial, hfinalize, hinit (by decide) (by decide),
    List.forall_mem_nil _⟩

end PlainMessages

open PlainMessages in
/-- Each processed send has the amount of its own init. -/
theorem ResponseConverter.txResponseToElusivTxs_pairs_twoSends :
    ∃ txs, txResponseToElusivTxs rvk plainAccounts ⟨twoSends.map TxEvent.response, 0, idKey⟩ = .ok txs ∧
      txs.map (fun tx => (tx.txType, tx.transactionStatus, tx.amount))
        = [(.SEND, some .PROCESSED, 200), (.SEND, some .PENDING, 300), (.TOPUP, some .PENDING, 5),
          (.SEND, some .PROCESSED, 100)] := by
  have hpairings : pairings twoSends = [.processed (landedFinalize accA "6") (landedInit accA 200 "4"),
      .pending (landedInit accB 300 "5"), .topup ForeignTransaction.topup,
      .processed (landedFinalize accA "1") (landedInit accA 100 "0")] := rfl
  obtain ⟨txs, htxs, hall⟩ := (txResponseToElusivTxs_pairs chronology_twoSends 0).2.2.2
    wellFormed_twoSends (by rw [hpairings]; exact List.cons_ne_nil _ _)
  refine ⟨txs, htxs, ?_⟩
  have hinit : ∀ {acc sig init} {amount : ℤ}, 0 ≤ amount → amount ≤ MAX_UINT64 →
      initOfMessage plainAccounts (some rvk) (landedInit acc amount sig).fst.message = .ok init →
        init = initInstructions amount :=
    fun hlow hhigh h => Except.ok.inj (h.symm.trans (initOfMessage_rawInit _ hlow hhigh _ _))
  rw [hpairings] at hall
  cases hall with
  | cons hsecond hall =>
  cases hall with
  | cons hthird hall =>
  cases hall with
  | cons htopup hall =>
  cases hall with
  | cons hfirst hall =>
  cases hall
  obtain ⟨-, init, final, hinits, -, rfl⟩ := hsecond
  obtain rfl := hinit (by decide) (by decide) hinits
  obtain ⟨-, init, hinits, rfl⟩ := hthird
  obtain rfl := hinit (by decide) (by decide) hinits
  obtain ⟨-, htopup⟩ := htopup
  obtain rfl := Except.ok.inj (htopup.symm.trans ForeignTransaction.parse_topup)
  obtain ⟨-, init, final, hinits, -, rfl⟩ := hfirst
  obtain rfl := hinit (by decide) (by decide) hinits
  rfl

end ElusivSdk
