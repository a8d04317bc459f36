import ElusivSdk.Compliance.ViewingKey
import ElusivSdk.TxManagers.PairedMessages

/-!
# What a third party sees of a send

The owner finds the send of a nonce among the transactions that did not fail, and pairs its finalize with
its init.  A third party with the keys of the nonce takes the newest signature on the identifier key, the
newest init and the newest finalize, whether they failed or not.

* `KeyChain`, `Serves` — the transactions on an identifier key, and a node that reports them.
* `SendTerms`, `statedTerms` — what an init says about its send.
* `ViewingFits` — the newest transaction is the finalize of the send, and the newest init says the same.
* **`getSendTxWithViewingKey_agrees_iff`** — both see the same send exactly then.
* `attempt_viewed_as_send` — a failed attempt that is viewed as the send.
-/

namespace ElusivSdk

open Program IdentifierTxFetcher InstructionParsing ResponseConverter TransactionParsing

/-! ## Transactions on an identifier key -/

/-- All transactions on an identifier key, the newest first, and the history of those that did not fail. -/
structure KeyChain (accs : ProgramAccounts) (idKey : PublicKey) (entries : List SigResponse)
    (events : List TxEvent) : Prop where
  chronology : Chronology accs idKey events
  successful : entries.filter (fun entry => entry.snd.err.isNone) = events.map TxEvent.response

/-- A node that reports all of them. -/
structure Serves (conn : ViewingConnection) (idKey : PublicKey) (entries : List SigResponse) : Prop where
  signaturesForAddress : conn.getSignaturesForAddress idKey = entries.map SigResponse.snd
  confirmedSignatures :
    conn.getConfirmedSignaturesForAddress2 idKey = entries.map SigResponse.snd
  transactions : ∀ entry ∈ entries, conn.getParsedTransaction entry.snd.signature = some entry.fst

/-! ## What an init says -/

structure SendTerms where
  amount : ℤ
  fee : ℤ
  extraFee : ℤ
  tokenType : TokenType
deriving DecidableEq

def termsOf (accs : ProgramAccounts) (init : InitInstructions) : SendTerms :=
  { amount := init.initIx.base.sendAmount
    fee := init.initIx.base.fee
    extraFee := (getExtraFee accs init.initIx).amount
    tokenType := init.initIx.getTokenType }

def statedTerms (accs : ProgramAccounts) (rvk : Option RVKWrapper) (message : ParsedMessage) :
    Except Failure SendTerms := do
  let init ← initOfMessage accs rvk message
  pure (termsOf accs init)

lemma statedTerms_eq_ok_iff {accs : ProgramAccounts} {rvk : Option RVKWrapper} {message : ParsedMessage}
    {terms : SendTerms} : statedTerms accs rvk message = .ok terms ↔
      ∃ init, initOfMessage accs rvk message = .ok init ∧ termsOf accs init = terms := by
  constructor
  · intro h
    obtain ⟨init, hinit, h⟩ := bind_eq_ok.mp h
    exact ⟨init, hinit, Except.ok.inj h⟩
  · rintro ⟨init, hinit, rfl⟩
    exact bind_eq_ok.mpr ⟨init, hinit, rfl⟩

/-! ## The two paths -/

section Paths

variable {serialization : Serialization} {accs : ProgramAccounts} {conn : ViewingConnection}
  {rvk : RVKWrapper} {nonce : ℕ} {idKey : PublicKey} {entries : List SigResponse}
  {events : List TxEvent}

/-- The third party parses all transactions together. -/
lemma getSendTxWithViewingKeyInner_eq (hserves : Serves conn idKey entries) (p : Primitives)
    (viewingKey : Bytes) :
    getSendTxWithViewingKeyInner serialization accs conn p idKey viewingKey
      = tryParseRawSendFromDecryptionKey accs p (entries.map fun entry => entry.fst.message)
          (entries.map SigResponse.snd) viewingKey idKey none 0
        >>= showSend serialization accs conn (-1) := by
  have hresponses : conn.getParsedTransactions
      ((entries.map SigResponse.snd).map ConfirmedSignatureInfo.signature)
      = (entries.map SigResponse.fst).map some := by
    rw [RPCConnection.getParsedTransactions, List.map_map, List.map_map, List.map_map]
    exact List.map_congr_left fun entry hentry => hserves.transactions entry hentry
  rw [getSendTxWithViewingKeyInner, hserves.signaturesForAddress, hresponses, List.filterMap_map,
    Function.id_comp, List.filterMap_some, if_neg (by simp), List.map_map]
  rfl

lemma mapM_served {conn : RPCConnection} {l : List SigResponse}
    (h : ∀ entry ∈ l, conn.getParsedTransaction entry.snd.signature = some entry.fst) :
    ((l.map SigResponse.snd).mapM fun sig =>
      (conn.getParsedTransaction sig.signature).map fun tx => (⟨tx, sig⟩ : SigResponse)) = some l := by
  induction l with
  | nil => rfl
  | cons entry l ih =>
      rw [List.map_cons, List.mapM_cons, h entry List.mem_cons_self,
        ih fun entry' hentry' => h entry' (List.mem_cons_of_mem _ hentry')]
      rfl

/-- The owner converts the history of those that did not fail. -/
lemma convertNonce_eq (hchain : KeyChain accs (rvk.getIdentifierKey nonce) entries events)
    (hserves : Serves conn (rvk.getIdentifierKey nonce) entries) (hne : events ≠ []) :
    convertNonce rvk accs conn.toRPCConnection nonce
      = txResponseToElusivTxs rvk accs
        ⟨events.map TxEvent.response, nonce, rvk.getIdentifierKey nonce⟩ := by
  have hsigs : conn.getTxSigsForIdKeyFromBlockchain (rvk.getIdentifierKey nonce)
      = (events.map TxEvent.response).map SigResponse.snd := by
    rw [RPCConnection.getTxSigsForIdKeyFromBlockchain, hserves.confirmedSignatures, List.filter_map,
      ← hchain.successful]
    rfl
  have hserved : ∀ entry ∈ events.map TxEvent.response,
      conn.getParsedTransaction entry.snd.signature = some entry.fst := by
    rw [← hchain.successful]
    exact fun entry hentry => hserves.transactions entry (List.mem_of_mem_filter hentry)
  have hresponses : responsesOf conn.toRPCConnection
      { sigs := (events.map TxEvent.response).map SigResponse.snd
        nonce := nonce
        idKey := rvk.getIdentifierKey nonce }
      = some ⟨events.map TxEvent.response, nonce, rvk.getIdentifierKey nonce⟩ := by
    rw [responsesOf, mapM_served hserved]
    rfl
  rw [convertNonce, hsigs, convertSigs, hresponses]
  refine if_neg ?_
  rw [List.length_map]
  exact fun hnil => hne (List.length_eq_zero_iff.mp hnil)

/-- The processed send of the owner is the one of the only finalize. -/
lemma exists_parsePairing {send : ℕ} {acc : PublicKey} {finalize : SigResponse}
    {txs : List ElusivTransaction} {tx : ElusivTransaction}
    (hchain : KeyChain accs (rvk.getIdentifierKey nonce) entries events)
    (hserves : Serves conn (rvk.getIdentifierKey nonce) entries)
    (hfinalize : .finalize send acc finalize ∈ events)
    (honly : ∀ send' acc' finalize', .finalize send' acc' finalize' ∈ events →
      send' = send ∧ finalize' = finalize)
    (hfetch : convertNonce rvk accs conn.toRPCConnection nonce = .ok txs) (hmem : tx ∈ txs)
    (hsend : tx.txType = .SEND) (hprocessed : tx.transactionStatus = some .PROCESSED) :
    ∃ initTx, initOf events send = some initTx ∧
      txResponseToSendTx rvk accs ⟨events.map TxEvent.response, nonce, rvk.getIdentifierKey nonce⟩
        [finalize, initTx] = .ok tx := by
  have hne : events ≠ [] := List.ne_nil_of_mem hfinalize
  have hpairings : pairings events ≠ [] := by
    obtain ⟨newer, older, rfl⟩ := List.append_of_mem hfinalize
    obtain ⟨between, initTx, earlier, rfl, -, hinit⟩ := exists_initOf hchain.chronology
    refine List.ne_nil_of_mem (a := .processed finalize initTx) (List.mem_flatMap.mpr ⟨_, hfinalize, ?_⟩)
    rw [pairingOf, hinit]
    exact List.mem_singleton_self _
  rw [convertNonce_eq hchain hserves hne,
    txResponseToElusivTxs_history hchain.chronology nonce hne hpairings] at hfetch
  obtain ⟨pairing, hpairing, hparse⟩ := exists_of_mem_mapM hfetch hmem
  have hyield := @yields_of_mem_pairings rvk accs ⟨_, nonce, _⟩ _ hchain.chronology _ hpairing _ hparse
  cases pairing with
  | topup store => exact absurd (hyield.symm.trans hsend) (by decide)
  | pending init => exact absurd (hyield.2.symm.trans hprocessed) (by decide)
  | processed finalize' initTx =>
      obtain ⟨event, hevent, hof⟩ := List.mem_flatMap.mp hpairing
      cases event with
      | unrelated response => cases hof
      | store response => cases List.mem_singleton.mp hof
      | init send' acc' response =>
          rw [pairingOf] at hof
          split_ifs at hof
          · cases hof
          · cases List.mem_singleton.mp hof
      | finalize send' acc' response =>
          obtain ⟨rfl, rfl⟩ := honly send' acc' response hevent
          obtain ⟨initTx', hinit, heq⟩ := List.mem_map.mp hof
          injection heq with hfinal hinitTx
          subst hfinal hinitTx
          exact ⟨initTx', Option.mem_toList.mp hinit, hparse⟩

lemma find?_messages (p : ParsedMessage → Bool) (entries : List SigResponse) :
    (entries.map fun entry => entry.fst.message).find? p
      = (entries.find? fun entry => p entry.fst.message).map fun entry => entry.fst.message := by
  rw [List.find?_map]
  rfl

/-- How a send is shown that has both of its parts. -/
lemma showSend_sendOfParts_iff {shownNonce : ℤ} {sig : ConfirmedSignatureInfo} {init : InitInstructions}
    {final : FinalizeInstructions} {view : SendTxWrapper × PublicKey} :
    showSend serialization accs conn shownNonce
        (sendOfParts accs nonce sig init (some final)) = .ok view ↔
      ∃ amount fee extraFee recipient,
        serialization.bigIntToNumber ((termsOf accs init).amount - (termsOf accs init).extraFee)
          = .ok amount ∧
        serialization.bigIntToNumber (termsOf accs init).fee = .ok fee ∧
        serialization.bigIntToNumber (termsOf accs init).extraFee = .ok extraFee ∧
        getOwnerOfRecipient accs conn final.recipientAcc (termsOf accs init).tokenType = .ok recipient ∧
        view = (
          { amount := amount, sig := sig, tokenType := (termsOf accs init).tokenType, fee := fee
            extraFee := extraFee, recipient := recipient
            isSolanaPayTransfer := init.initIx.base.isSolanaPayTransfer
            transactionStatus := some .PROCESSED, nonce := shownNonce, warden := init.wardenAcc
            reference := final.refKeyAcc.filter fun refKey => refKey ≠ accs.systemProgramId
            memo := sig.memo }, final.finalizeIx.owner) := by
  constructor
  · intro h
    obtain ⟨sendTx, hwrap, h⟩ := bind_eq_ok.mp h
    obtain ⟨amount, hamount, hwrap⟩ := bind_eq_ok.mp hwrap
    obtain ⟨fee, hfee, hwrap⟩ := bind_eq_ok.mp hwrap
    obtain ⟨extraFee, hextra, hwrap⟩ := bind_eq_ok.mp hwrap
    obtain rfl := Except.ok.inj hwrap
    obtain ⟨recipient, hrecipient, h⟩ := bind_eq_ok.mp h
    obtain rfl := Except.ok.inj h
    exact ⟨amount, fee, extraFee, recipient, hamount, hfee, hextra, hrecipient, rfl⟩
  · rintro ⟨amount, fee, extraFee, recipient, hamount, hfee, hextra, hrecipient, rfl⟩
    exact bind_eq_ok.mpr ⟨_, bind_eq_ok.mpr ⟨amount, hamount, bind_eq_ok.mpr ⟨fee, hfee,
      bind_eq_ok.mpr ⟨extraFee, hextra, rfl⟩⟩⟩, bind_eq_ok.mpr ⟨recipient, hrecipient, rfl⟩⟩

end Paths

/-! ## Agreement -/

/-- The same amount, fee, extra fee, token, recipient, signature, memo and owner. -/
structure SameSend (view own : SendTxWrapper × PublicKey) : Prop where
  amount_eq : view.1.amount = own.1.amount
  fee_eq : view.1.fee = own.1.fee
  extraFee_eq : view.1.extraFee = own.1.extraFee
  tokenType_eq : view.1.tokenType = own.1.tokenType
  recipient_eq : view.1.recipient = own.1.recipient
  sig_eq : view.1.sig = own.1.sig
  memo_eq : view.1.memo = own.1.memo
  owner_eq : view.2 = own.2

/-- The newest transaction on the key is the finalize of the send, and the newest init on the key, failed or
not, says in the clear what the init of the send says. -/
structure ViewingFits (accs : ProgramAccounts) (rvk : RVKWrapper) (idKey : PublicKey)
    (entries : List SigResponse) (events : List TxEvent) (send : ℕ) (finalize : SigResponse) : Prop where
  newest : entries.head?.map SigResponse.snd = some finalize.snd
  sameTerms : ∃ newestInit initTx terms,
    entries.find? (fun entry => hasInit accs idKey entry.fst.message) = some newestInit ∧
      initOf events send = some initTx ∧ statedTerms accs none newestInit.fst.message = .ok terms ∧
      statedTerms accs (some rvk) initTx.fst.message = .ok terms

section Agreement

variable {serialization : Serialization} {accs : ProgramAccounts} {conn : ViewingConnection}
  {hex : HexCodec} {rvk : RVKWrapper} {nonce send : ℕ} {acc : PublicKey} {finalize : SigResponse}
  {entries : List SigResponse} {events : List TxEvent} {txs : List ElusivTransaction}
  {tx : ElusivTransaction} {key : ViewingKey}

/-- Sends that are shown alike have the same terms and the same signature. -/
lemma terms_eq_of_sameSend {shownNonce shownNonce' : ℤ} {nonce nonce' : ℕ}
    {sig sig' : ConfirmedSignatureInfo} {init init' : InitInstructions} {final final' : FinalizeInstructions}
    {view own : SendTxWrapper × PublicKey}
    (hview : showSend serialization accs conn shownNonce
      (sendOfParts accs nonce sig init (some final)) = .ok view)
    (hown : showSend serialization accs conn shownNonce'
      (sendOfParts accs nonce' sig' init' (some final')) = .ok own)
    (hsame : SameSend view own) : sig = sig' ∧ termsOf accs init = termsOf accs init' := by
  obtain ⟨amount, fee, extraFee, _, hamount, hfee, hextra, -, rfl⟩ := showSend_sendOfParts_iff.mp hview
  obtain ⟨amount', fee', extraFee', _, hamount', hfee', hextra', -, rfl⟩ :=
    showSend_sendOfParts_iff.mp hown
  have heq_amount : amount = amount' := hsame.amount_eq
  have heq_fee : fee = fee' := hsame.fee_eq
  have heq_extra : extraFee = extraFee' := hsame.extraFee_eq
  have hexact := @Serialization.bigIntToNumber_exact serialization
  rw [hexact hamount, hexact hamount'] at heq_amount
  rw [hexact hfee, hexact hfee'] at heq_fee
  rw [hexact hextra, hexact hextra'] at heq_extra
  rw [heq_extra] at heq_amount
  refine ⟨hsame.sig_eq, ?_⟩
  rw [SendTerms.mk.injEq]
  exact ⟨sub_left_inj.mp heq_amount, heq_fee, heq_extra, hsame.tokenType_eq⟩

/-- Where both see the same, the newest transactions are those of the send. -/
lemma ViewingFits.of_sameSend {idKey : PublicKey} {p : Primitives} {viewingKey : Bytes}
    {initTx : SigResponse} {init : InitInstructions} {final : FinalizeInstructions}
    {parsed : ElusivTransaction} {view own : SendTxWrapper × PublicKey}
    (hinit : initOf events send = some initTx)
    (hinits : initOfMessage accs (some rvk) initTx.fst.message = .ok init)
    (hparsed : tryParseRawSendFromDecryptionKey accs p (entries.map fun entry => entry.fst.message)
      (entries.map SigResponse.snd) viewingKey idKey none 0 = .ok parsed)
    (hview : showSend serialization accs conn (-1) parsed = .ok view)
    (hown : showSend serialization accs conn nonce
      (sendOfParts accs nonce finalize.snd init (some final)) = .ok own)
    (hsame : SameSend view own) : ViewingFits accs rvk idKey entries events send finalize := by
  obtain ⟨newestMessage, hfind, init', data, hparts, sig, hhead, rfl⟩ :=
    tryParseRawSendFromDecryptionKey_eq_ok_iff.mp hparsed
  rw [findSendInitTx_fst, find?_messages] at hfind
  obtain ⟨newestInit, hnewest, rfl⟩ := Option.map_eq_some_iff.mp hfind
  cases data with
  | none =>
      -- without a finalize there is no owner
      obtain ⟨sendTx, -, hview⟩ := bind_eq_ok.mp hview
      nomatch hview
  | some final' =>
      obtain ⟨rfl, hterms⟩ := terms_eq_of_sameSend hview hown hsame
      refine ⟨(List.head?_map ..).symm.trans hhead, newestInit, initTx, termsOf accs init, hnewest, hinit,
        ?_, ?_⟩
      · exact statedTerms_eq_ok_iff.mpr ⟨init', initOfMessage_of_parts hparts, hterms⟩
      · exact statedTerms_eq_ok_iff.mpr ⟨init, hinits, rfl⟩

/-- Where the newest transactions are those of the send, it is parsed, and shown as the owner's. -/
lemma ViewingFits.exists_view {idKey : PublicKey} {p : Primitives} {viewingKey : Bytes}
    {initTx : SigResponse} {init : InitInstructions} {final : FinalizeInstructions}
    {own : SendTxWrapper × PublicKey}
    (hfits : ViewingFits accs rvk idKey entries events send finalize)
    (hserves : Serves conn idKey entries) (hmem : finalize ∈ entries)
    (hkind : hasFinalize accs idKey finalize.fst.message = true)
    (hinit : initOf events send = some initTx)
    (hinits : initOfMessage accs (some rvk) initTx.fst.message = .ok init)
    (hfinal : tryParseVariableInstructionsFinalizeVerificationFromDecryptionKey p viewingKey
      finalize.fst.message.instructions = .ok final)
    (hown : showSend serialization accs conn nonce
      (sendOfParts accs nonce finalize.snd init (some final)) = .ok own) :
    ∃ view, getSendTxWithViewingKeyInner serialization accs conn p idKey viewingKey = .ok view ∧
      SameSend view own := by
  obtain ⟨hnewest, newestInit, initTx', terms, hfind, hinit', hclear, hdecrypted⟩ := hfits
  obtain rfl := Option.some.inj (hinit.symm.trans hinit')
  obtain ⟨init', hinits', rfl⟩ := statedTerms_eq_ok_iff.mp hclear
  obtain ⟨init'', hinits'', hterms⟩ := statedTerms_eq_ok_iff.mp hdecrypted
  obtain rfl := Except.ok.inj (hinits.symm.trans hinits'')
  obtain ⟨entry, hhead, hsnd⟩ := Option.map_eq_some_iff.mp hnewest
  obtain ⟨rest, rfl⟩ := List.head?_eq_some_iff.mp hhead
  -- one signature, one transaction
  have hfst : entry.fst = finalize.fst := by
    have hentry := hserves.transactions entry List.mem_cons_self
    rw [hsnd, hserves.transactions finalize hmem] at hentry
    exact (Option.some.inj hentry).symm
  have hfindFinal : (((entry :: rest).map fun e => e.fst.message).find? (hasFinalize accs idKey))
      = some finalize.fst.message := by
    rw [List.map_cons, List.find?_cons, hfst, hkind]
  have hparsed : tryParseRawSendFromDecryptionKey accs p ((entry :: rest).map fun e => e.fst.message)
      ((entry :: rest).map SigResponse.snd) viewingKey idKey none 0
      = .ok (sendOfParts accs 0 finalize.snd init' (some final)) := by
    refine tryParseRawSendFromDecryptionKey_eq_ok_iff.mpr ⟨newestInit.fst.message, ?_, init', some final,
      ?_, finalize.snd, congrArg some hsnd, rfl⟩
    · rw [findSendInitTx_fst, find?_messages, hfind]
      rfl
    · rw [findSendFinalizeTx_fst, hfindFinal]
      exact tryParseSendParts_some_eq_ok_iff.mpr ⟨hinits', final, hfinal, rfl⟩
  obtain ⟨amount, fee, extraFee, recipient, hamount, hfee, hextra, hrecipient, rfl⟩ :=
    showSend_sendOfParts_iff.mp hown
  rw [hterms] at hamount hfee hextra hrecipient
  rw [getSendTxWithViewingKeyInner_eq hserves]
  refine ⟨_, bind_eq_ok.mpr ⟨_, hparsed, showSend_sendOfParts_iff.mpr
    ⟨amount, fee, extraFee, recipient, hamount, hfee, hextra, hrecipient, rfl⟩⟩, ?_⟩
  rw [hterms]
  exact ⟨rfl, rfl, rfl, rfl, rfl, rfl, rfl, rfl⟩

/-- **A third party with the viewing key sees the send that the owner sees — exactly when** the newest
transaction on the identifier key is the finalize of the send, and the newest init, which may be that of a
failed attempt, says what the init of the send says. -/
theorem getSendTxWithViewingKey_agrees_iff
    (hchain : KeyChain accs (rvk.getIdentifierKey nonce) entries events)
    (hserves : Serves conn (rvk.getIdentifierKey nonce) entries)
    (hfinalize : .finalize send acc finalize ∈ events)
    (honly : ∀ send' acc' finalize', .finalize send' acc' finalize' ∈ events →
      send' = send ∧ finalize' = finalize)
    (hfetch : convertNonce rvk accs conn.toRPCConnection nonce = .ok txs) (hmem : tx ∈ txs)
    (hsend : tx.txType = .SEND) (hprocessed : tx.transactionStatus = some .PROCESSED)
    (hkey : getViewingKey hex rvk .SEND nonce = .ok key) :
    (∃ view own, getSendTxWithViewingKey serialization accs conn hex rvk.primitives key = .ok view ∧
        showSend serialization accs conn nonce tx = .ok own ∧ SameSend view own) ↔
      (∃ own, showSend serialization accs conn nonce tx = .ok own) ∧
        ViewingFits accs rvk (rvk.getIdentifierKey nonce) entries events send finalize := by
  obtain ⟨initTx, hinit, hparse⟩ :=
    exists_parsePairing hchain hserves hfinalize honly hfetch hmem hsend hprocessed
  obtain ⟨acc', hinitMem⟩ := init_mem_of_initOf hinit
  have hkinds := has_of_finalize (hchain.chronology.oneKind_of_mem hfinalize)
  have hinitKind := (has_of_init (hchain.chronology.oneKind_of_mem hinitMem)).1
  -- the responses are read off `hparse` before the kinds are compared with them
  obtain ⟨init, final, hinits, hfinal, rfl⟩ :=
    (txResponseToSendTx_eq_ok_iff (by exact hkinds) (by exact hinitKind)).mp hparse
  rw [getSendTxWithViewingKey_getViewingKey serialization accs conn hex rvk.primitives rvk nonce hkey]
  constructor
  · rintro ⟨view, own, hview, hown, hsame⟩
    rw [getSendTxWithViewingKeyInner_eq hserves] at hview
    obtain ⟨parsed, hparsed, hshow⟩ := bind_eq_ok.mp hview
    exact ⟨⟨own, hown⟩, .of_sameSend hinit hinits hparsed hshow hown hsame⟩
  · rintro ⟨⟨own, hown⟩, hfits⟩
    have hentry : finalize ∈ entries := by
      have hresponse : finalize ∈ events.map TxEvent.response := List.mem_map.mpr ⟨_, hfinalize, rfl⟩
      rw [← hchain.successful] at hresponse
      exact List.mem_of_mem_filter hresponse
    obtain ⟨view, hview, hsame⟩ :=
      hfits.exists_view hserves hentry hkinds.2 hinit hinits hfinal hown
    exact ⟨view, own, hview, hown, hsame⟩

end Agreement

/-! ### A send and a failed attempt -/

namespace ViewedSend

open PlainMessages

def verificationAcc : PublicKey := ElusivTransaction.bareKey 20

def initTx : SigResponse := response (rawInit verificationAcc 5) ⟨"init", none, none⟩

def finalizeTx : SigResponse := response (rawFinalize verificationAcc) ⟨"finalize", none, some "rent"⟩

def attempt : SigResponse := response (rawInit verificationAcc 9) ⟨"attempt", some "failed", none⟩

def events : List TxEvent :=
  [.finalize 0 verificationAcc finalizeTx, .init 0 verificationAcc initTx]

/-- Nobody has a token account. -/
def conn (entries : List SigResponse) : ViewingConnection where
  getConfirmedSignaturesForAddress2 key := if key = idKey then entries.map SigResponse.snd else []
  getSignaturesForAddress key := if key = idKey then entries.map SigResponse.snd else []
  getParsedTransaction signature :=
    (entries.find? fun entry => entry.snd.signature == signature).map SigResponse.fst
  getAccount _ := .error .tokenAccountNotFound
  isOnCurve _ := true

lemma chronology : Chronology plainAccounts idKey events :=
  @Chronology.finalize _ _ _ _ _ _ [] [] (.init .nil (oneKind_init 0 verificationAcc 5 _) (by simp))
    (oneKind_finalize 0 verificationAcc _) (by simp) (by simp)

/-- One signature, one transaction. -/
lemma serves {entries : List SigResponse}
    (hentries : (entries.map fun entry => entry.snd.signature).Nodup) :
    Serves (conn entries) idKey entries where
  signaturesForAddress := if_pos rfl
  confirmedSignatures := if_pos rfl
  transactions := by
    intro entry hentry
    have hsome : (entries.find? fun entry' => entry'.snd.signature == entry.snd.signature).isSome :=
      List.find?_isSome.mpr ⟨entry, hentry, beq_self_eq_true _⟩
    obtain ⟨found, hfound⟩ := Option.isSome_iff_exists.mp hsome
    have hsig := List.find?_some (p := fun entry' : SigResponse =>
      entry'.snd.signature == entry.snd.signature) hfound
    obtain rfl := List.inj_on_of_nodup_map hentries (List.mem_of_find?_eq_some hfound) hentry
      (eq_of_beq hsig)
    exact congrArg (Option.map SigResponse.fst) hfound

/-- The send as its owner finds it. -/
def sendTx : ElusivTransaction :=
  sendOfParts plainAccounts 0 finalizeTx.snd (initInstructions 5) (some finalizeInstructions)

lemma hasInit_initTx : hasInit plainAccounts idKey initTx.fst.message = true :=
  (has_of_init (oneKind_init 0 verificationAcc 5 initTx.snd)).1

lemma has_finalizeTx : hasInit plainAccounts idKey finalizeTx.fst.message = false ∧
    hasFinalize plainAccounts idKey finalizeTx.fst.message = true :=
  has_of_finalize (oneKind_finalize 0 verificationAcc finalizeTx.snd)

lemma initOfMessage_initTx (rvk? : Option RVKWrapper) :
    initOfMessage plainAccounts rvk? initTx.fst.message = .ok (initInstructions 5) :=
  initOfMessage_rawInit verificationAcc (by decide) (by decide) rvk? initTx.snd

lemma txResponseToSendTx_sendTx :
    txResponseToSendTx rvk plainAccounts ⟨events.map TxEvent.response, 0, idKey⟩ [finalizeTx, initTx]
      = .ok sendTx :=
  (txResponseToSendTx_eq_ok_iff has_finalizeTx hasInit_initTx).mpr ⟨initInstructions 5,
    finalizeInstructions, initOfMessage_initTx _, parse_rawFinalize verificationAcc _, rfl⟩

lemma pairings_events : pairings events = [.processed finalizeTx initTx] := rfl

lemma convertNonce_sendTx {entries : List SigResponse} (hchain : KeyChain plainAccounts idKey entries events)
    (hserves : Serves (conn entries) idKey entries) :
    convertNonce rvk plainAccounts (conn entries).toRPCConnection 0 = .ok [sendTx] := by
  rw [convertNonce_eq hchain hserves (by simp [events]), txResponseToElusivTxs_history
    hchain.chronology 0 (by simp [events]) (by simp [pairings_events]), pairings_events, List.mapM_cons,
    parsePairing, txResponseToSendTx_sendTx]
  rfl

/-- How a send is shown whose amount and signature are known. -/
def shownAs (nonce amount : ℤ) (sig : ConfirmedSignatureInfo) : SendTxWrapper × PublicKey :=
  ({ amount := amount
     sig := sig
     tokenType := .LAMPORTS
     fee := 1
     extraFee := 0
     recipient := some (ElusivTransaction.bareKey 8)
     isSolanaPayTransfer := false
     transactionStatus := some .PROCESSED
     nonce := nonce
     warden := some (ElusivTransaction.bareKey 7)
     reference := none
     memo := sig.memo }, ElusivTransaction.bareKey 9)

lemma showSend_init {nonce : ℕ} {amount : ℤ} (hamount : amount ≤ MAX_SAFE_INTEGER)
    (entries : List SigResponse) (shownNonce : ℤ) (sig : ConfirmedSignatureInfo) :
    showSend plainSerialization plainAccounts (conn entries) shownNonce
      (sendOfParts plainAccounts nonce sig (initInstructions amount) (some finalizeInstructions))
        = .ok (shownAs shownNonce amount sig) := by
  refine showSend_sendOfParts_iff.mpr
    ⟨amount, 1, 0, some (ElusivTransaction.bareKey 8), ?_, rfl, rfl, rfl, rfl⟩
  show plainSerialization.bigIntToNumber (amount - 0) = _
  rw [sub_zero]
  exact if_pos hamount

lemma keyChain {entries : List SigResponse}
    (h : entries.filter (fun entry => entry.snd.err.isNone) = [finalizeTx, initTx]) :
    KeyChain plainAccounts idKey entries events :=
  ⟨chronology, h⟩

lemma viewed_attempt {key : ViewingKey} (hkey : getViewingKey plainHex rvk .SEND 0 = .ok key)
    (hserves : Serves (conn [attempt, finalizeTx, initTx]) idKey [attempt, finalizeTx, initTx]) :
    getSendTxWithViewingKey plainSerialization plainAccounts (conn [attempt, finalizeTx, initTx]) plainHex
      rvk.primitives key = .ok (shownAs (-1) 9 attempt.snd) := by
  obtain ⟨hattempt, hother⟩ : hasInit plainAccounts idKey attempt.fst.message = true ∧
      hasFinalize plainAccounts idKey attempt.fst.message = false :=
    has_of_init (oneKind_init 0 verificationAcc 9 attempt.snd)
  rw [getSendTxWithViewingKey_getViewingKey _ _ _ _ _ _ _ hkey, getSendTxWithViewingKeyInner_eq hserves]
  refine bind_eq_ok.mpr ⟨_, tryParseRawSendFromDecryptionKey_eq_ok_iff.mpr ⟨attempt.fst.message, ?_,
    initInstructions 9, some finalizeInstructions, ?_, attempt.snd, rfl, rfl⟩,
    showSend_init (by decide) _ _ _⟩
  · rw [findSendInitTx_fst, List.map_cons, List.find?_cons, hattempt]
  · rw [findSendFinalizeTx_fst, List.map_cons, List.find?_cons, hother, List.map_cons, List.find?_cons,
      has_finalizeTx.2]
    exact tryParseSendParts_some_eq_ok_iff.mpr
      ⟨initOfMessage_rawInit _ (by decide) (by decide) _ _, _, parse_rawFinalize _ _, rfl⟩

/-- The newest init is that of the send when nothing is newer. -/
lemma find?_hasInit (older : List SigResponse) : (finalizeTx :: initTx :: older).find? (fun entry =>
    hasInit plainAccounts idKey entry.fst.message) = some initTx :=
  let p := fun entry : SigResponse => hasInit plainAccounts idKey entry.fst.message
  have hfinalize : ¬p finalizeTx := ne_true_of_eq_false has_finalizeTx.1
  (List.find?_cons_of_neg hfinalize).trans (List.find?_cons_of_pos (p := p) hasInit_initTx)

end ViewedSend

open PlainMessages ViewedSend in
theorem getSendTxWithViewingKey_agrees_iff_newest : ∃ key,
    getViewingKey plainHex rvk .SEND 0 = .ok key ∧ ∃ view own,
      getSendTxWithViewingKey plainSerialization plainAccounts (conn [finalizeTx, initTx, attempt]) plainHex
        rvk.primitives key = .ok view ∧
      showSend plainSerialization plainAccounts (conn [finalizeTx, initTx, attempt]) 0 sendTx = .ok own ∧
      SameSend view own := by
  have hchain := @keyChain [finalizeTx, initTx, attempt] rfl
  have hserves : Serves (conn [finalizeTx, initTx, attempt]) idKey _ := serves (by decide)
  have honly : ∀ send' acc' finalize', .finalize send' acc' finalize' ∈ events →
      send' = 0 ∧ finalize' = finalizeTx := by
    intro send' acc' finalize' hmem
    rcases List.mem_pair.mp hmem with heq | heq
    · injection heq with hsend _ hresponse
      exact ⟨hsend, hresponse⟩
    · nomatch heq
  have hterms : ∀ rvk?, statedTerms plainAccounts rvk? initTx.fst.message
      = .ok (termsOf plainAccounts (initInstructions 5)) := fun rvk? =>
    statedTerms_eq_ok_iff.mpr ⟨_, initOfMessage_initTx rvk?, rfl⟩
  refine ⟨_, rfl, (getSendTxWithViewingKey_agrees_iff hchain hserves List.mem_cons_self honly
    (convertNonce_sendTx hchain hserves) List.mem_cons_self rfl rfl rfl).mpr ⟨?_, ?_⟩⟩
  · exact ⟨_, showSend_init (by decide) _ _ _⟩
  · exact ⟨rfl, initTx, initTx, _, find?_hasInit [attempt], rfl, hterms none, hterms (some rvk)⟩

open PlainMessages ViewedSend in
/-- After a failed attempt at another send, which the owner's fetch leaves out, a third party sees its amount
and its signature. -/
theorem attempt_viewed_as_send : ∃ key, getViewingKey plainHex rvk .SEND 0 = .ok key ∧
    KeyChain plainAccounts idKey [attempt, finalizeTx, initTx] events ∧
    Serves (conn [attempt, finalizeTx, initTx]) idKey [attempt, finalizeTx, initTx] ∧
    convertNonce rvk plainAccounts (conn [attempt, finalizeTx, initTx]).toRPCConnection 0 = .ok [sendTx] ∧
    ∃ view own,
      getSendTxWithViewingKey plainSerialization plainAccounts (conn [attempt, finalizeTx, initTx]) plainHex
        rvk.primitives key = .ok view ∧
      showSend plainSerialization plainAccounts (conn [attempt, finalizeTx, initTx]) 0 sendTx = .ok own ∧
      view.1.amount = 9 ∧ own.1.amount = 5 ∧
      view.1.sig.signature = "attempt" ∧ own.1.sig.signature = "finalize" ∧
      view.1.memo = none ∧ own.1.memo = some "rent" := by
  have hchain := @keyChain [attempt, finalizeTx, initTx] rfl
  have hserves : Serves (conn [attempt, finalizeTx, initTx]) idKey _ := serves (by decide)
  exact ⟨_, rfl, hchain, hserves, convertNonce_sendTx hchain hserves, _, _, viewed_attempt rfl hserves,
    showSend_init (by decide) _ _ _, rfl, rfl, rfl, rfl, rfl, rfl⟩

end ElusivSdk
