import ElusivSdk.Compliance.ViewingAgreement
import ElusivSdk.TxManagers.CacheCoherence
import ElusivSdk.TxManagers.ErrorIsolation

/-!
# The chain of messages and the chain of transactions

A node reports signatures and messages.  They are filtered, regrouped by nonce, paired and parsed, and what
comes out is cached.  The managers are proved correct on a `History`, which grows by whole transactions;
here the messages arrive one after the other.

* `pairings_cons`, `pairings_finalize` — what one more message does to the pairings of its nonce.
* `parse_finalized` — a finalize changes nothing of its send but what it adds.
* `RawChain`, `Arrives` — messages on the identifier keys and a manager that asks nodes for them.
* `Represents` — every nonce parses to what the history has of it.
* **`RawChain.refines`** — every run of messages and calls is a run of a `ManagedChain`, with the same
  calls, and every node that reports the chain answers from its history.
-/

namespace ElusivSdk

open Program InstructionParsing TransactionParsing ResponseConverter IdentifierTxFetcher Transition

/-! ## One more message -/

section Pairings

variable {accs : ProgramAccounts} {idPubKey : PublicKey} {events : List TxEvent}

/-- What a message that ends no send leaves of the other pairings. -/
lemma pairings_cons {event : TxEvent} (h : Chronology accs idPubKey (event :: events))
    (hother : ∀ send, event.isFinalizeOf send = false) :
    pairings (event :: events) = pairingOf (event :: events) event ++ pairings events := by
  rw [pairings, List.flatMap_cons, pairings]
  refine congrArg _ (List.flatMap_congr fun older holder => ?_)
  cases older with
  | unrelated response | store response => rfl
  | init send acc response =>
      rw [pairingOf, pairingOf, isFinalized, List.any_cons, hother, Bool.false_or, isFinalized]
  | finalize send acc response =>
      rw [pairingOf, pairingOf, initOf, List.findSome?_cons]
      have hnone : event.initOf? send = none := by
        cases event with
        | unrelated response | store response | finalize send' acc' response => rfl
        | init send' acc' response' =>
            -- the init of a send that is finalized is older
            refine if_neg fun heq => ?_
            subst heq
            obtain ⟨initTx, hinit⟩ := h.tail.init_mem holder
            exact h.init_new acc initTx hinit
      rw [hnone]
      rfl

/-- A send is finalized once. -/
lemma finalize_once {send : ℕ} {acc : PublicKey} {response : SigResponse}
    (h : Chronology accs idPubKey (.finalize send acc response :: events)) :
    ∃ between initTx earlier, events = between ++ .init send acc initTx :: earlier ∧
      ∀ acc' response', .finalize send acc' response' ∉ between := by
  cases h with
  | finalize _ _ _ honce => exact ⟨_, _, _, rfl, honce⟩

/-- A finalize takes the place of the pending send of its init. -/
lemma pairings_finalize {send : ℕ} {acc : PublicKey} {response : SigResponse}
    (h : Chronology accs idPubKey (.finalize send acc response :: events)) :
    ∃ initTx newer older, pairings events = newer ++ .pending initTx :: older ∧
      pairings (.finalize send acc response :: events) = .processed response initTx :: (newer ++ older) ∧
      .init send acc initTx ∈ events := by
  obtain ⟨between, initTx, earlier, rfl, honce⟩ := finalize_once h
  have hinits := h.tail.init_not_mem
  have hearlier := h.tail.drop.init_new
  have hnot : isFinalized (between ++ .init send acc initTx :: earlier) send = false := by
    have holder := isFinalized_eq_false h.tail.drop.tail hearlier
    have hnewer : isFinalized between send = false := by
      rw [isFinalized, List.any_eq_false]
      intro event hevent hfinal
      cases event with
      | unrelated response' | store response' | init send' acc' response' => cases hfinal
      | finalize send' acc' response' =>
          obtain rfl := beq_iff_eq.mp hfinal
          exact honce acc' response' hevent
    rw [isFinalized] at holder hnewer
    rw [isFinalized, List.any_append, List.any_cons, holder, hnewer]
    rfl
  -- the others are paired as before
  have hsame : ∀ {others : List TxEvent}, (∀ acc' initTx', .init send acc' initTx' ∉ others) →
      others.flatMap (pairingOf
          (.finalize send acc response :: (between ++ .init send acc initTx :: earlier)))
        = others.flatMap (pairingOf (between ++ .init send acc initTx :: earlier)) := by
    intro others hne
    refine List.flatMap_congr fun event hevent => ?_
    cases event with
    | unrelated response' | store response' | finalize send' acc' response' => rfl
    | init send' acc' response' =>
        have hsend : (send == send') = false :=
          beq_eq_false_iff_ne.mpr fun heq => hne acc' response' (heq ▸ hevent)
        rw [pairingOf, pairingOf, isFinalized, List.any_cons, TxEvent.isFinalizeOf, hsend,
          Bool.false_or, isFinalized]
  have hinit : initOf (.finalize send acc response :: (between ++ .init send acc initTx :: earlier)) send
      = some initTx := initOf_eq hinits
  have htaken : pairingOf (.finalize send acc response ::
      (between ++ .init send acc initTx :: earlier)) (.init send acc initTx) = [] := by
    refine if_pos ?_
    rw [isFinalized, List.any_cons, TxEvent.isFinalizeOf, beq_self_eq_true, Bool.true_or]
  refine ⟨initTx, between.flatMap (pairingOf (between ++ .init send acc initTx :: earlier)),
    earlier.flatMap (pairingOf (between ++ .init send acc initTx :: earlier)), ?_, ?_, ?_⟩
  · rw [pairings, List.flatMap_append, List.flatMap_cons, pairingOf, hnot]
    rfl
  · rw [pairings, List.flatMap_cons, List.flatMap_append, List.flatMap_cons, htaken, hsame hinits,
      hsame hearlier, pairingOf, hinit]
    rfl
  · exact List.mem_append_right _ List.mem_cons_self

end Pairings

/-! ## A send before and after its finalize -/

section Parsing

variable {rvk : RVKWrapper} {accs : ProgramAccounts} {nonce : ℕ}

/-- The responses of a nonce, as its parses need them. -/
def responsesFor (rvk : RVKWrapper) (nonce : ℕ) : NoncedTxResponse :=
  ⟨[], nonce, rvk.getIdentifierKey nonce⟩

/-- A parse looks at its own messages only. -/
lemma parsePairing_responsesFor (responses : List SigResponse) :
    parsePairing rvk accs ⟨responses, nonce, rvk.getIdentifierKey nonce⟩
      = parsePairing rvk accs (responsesFor rvk nonce) := by
  funext pairing
  cases pairing <;> rfl

/-- What a finalize adds to its send. -/
def finalizeDataOf (final : FinalizeInstructions) (recipient refKey : PublicKey)
    (signature : ConfirmedSignatureInfo) : FinalizeData :=
  { recipient := recipient
    refKey := refKey
    owner := final.finalizeIx.owner
    encryptedOwner := final.finalizeIx.encryptedOwner
    signature := signature }

/-- **A finalize changes nothing of its send but what it adds.** -/
theorem parse_finalized {finalize initTx : SigResponse} {tx : ElusivTransaction}
    {final : FinalizeInstructions} {recipient refKey : PublicKey}
    (hinit : hasInit accs (rvk.getIdentifierKey nonce) initTx.fst.message = true ∧
      hasFinalize accs (rvk.getIdentifierKey nonce) initTx.fst.message = false)
    (hkind : hasInit accs (rvk.getIdentifierKey nonce) finalize.fst.message = false ∧
      hasFinalize accs (rvk.getIdentifierKey nonce) finalize.fst.message = true)
    (hpending : parsePairing rvk accs (responsesFor rvk nonce) (.pending initTx) = .ok tx)
    (hfinal : tryParseVariableInstructionsFinalizeVerificationFromDecryptionKey rvk.primitives
      (rvk.generateDecryptionKey nonce) finalize.fst.message.instructions = .ok final)
    (hrecipient : final.recipientAcc = some recipient) (hrefKey : final.refKeyAcc = some refKey) :
    (tx.txType = .SEND ∧ tx.transactionStatus = some .PENDING) ∧
      parsePairing rvk accs (responsesFor rvk nonce) (.processed finalize initTx)
        = .ok (tx.finalize (finalizeDataOf final recipient refKey finalize.snd)) := by
  obtain ⟨init, hinits, rfl⟩ :=
    (@txResponseToSendTx_pending_iff rvk accs (responsesFor rvk nonce) _ _ hinit).mp hpending
  refine ⟨⟨rfl, rfl⟩, (@txResponseToSendTx_eq_ok_iff rvk accs (responsesFor rvk nonce) _ _ _ hkind
    hinit.1).mpr ⟨init, final, hinits, hfinal, ?_⟩⟩
  simp only [sendOfParts, ElusivTransaction.finalize, finalizeDataOf, responsesFor, Option.map_some,
    Option.bind_some, Option.isSome_some, hrecipient, hrefKey, if_true]

end Parsing

/-! ## Messages and calls -/

/-- The transactions on the identifier keys of a wallet, the newest first, and a manager of the wallet. -/
structure RawChain where
  events : ℕ → List TxEvent
  /-- One more than the newest nonce in use. -/
  length : ℕ
  manager : TxManager

inductive RawEvent
  /-- A transaction on the identifier key of a nonce. -/
  | arrive (nonce : ℕ) (event : TxEvent)
  /-- A call on the manager, which asks a node. -/
  | call (conn : RPCConnection) (q : Query)

/-- A node reports the chain; it may report failed transactions too. -/
structure Reports (rvk : RVKWrapper) (conn : RPCConnection) (events : ℕ → List TxEvent) : Prop where
  signatures : ∀ n, conn.getTxSigsForIdKeyFromBlockchain (rvk.getIdentifierKey n)
    = (events n).map fun event => event.response.snd
  transactions : ∀ n, ∀ event ∈ events n,
    conn.getParsedTransaction event.response.snd.signature = some event.response.fst

/-- The messages of the program parse.  Others come on nonces that are in use: alone on an identifier key
they make every fetch of the nonce fail. -/
def TxEvent.Parses (rvk : RVKWrapper) (accs : ProgramAccounts) (nonce : ℕ) (older : List TxEvent) :
    TxEvent → Prop
  | unrelated _ => pairings older ≠ []
  | store response => ∃ tx, parsePairing rvk accs (responsesFor rvk nonce) (.topup response) = .ok tx
  | init _ _ response => ∃ tx, parsePairing rvk accs (responsesFor rvk nonce) (.pending response) = .ok tx
  | finalize _ _ response => ∃ final recipient refKey,
      tryParseVariableInstructionsFinalizeVerificationFromDecryptionKey rvk.primitives
        (rvk.generateDecryptionKey nonce) response.fst.message.instructions = .ok final ∧
      final.recipientAcc = some recipient ∧ final.refKeyAcc = some refKey

namespace RawChain

variable (rvk : RVKWrapper) (accs : ProgramAccounts)

def start : RawChain :=
  { events := fun _ => []
    length := 0
    manager := .new }

/-- Fuel with which no loop of a call runs out of it. -/
def fuel (s : RawChain) : ℕ := s.length + DEFAULT_FETCH_BATCH_SIZE + 3

def step (s : RawChain) : RawEvent → Option RawChain
  | .arrive nonce event =>
      some { s with
        events := Function.update s.events nonce (event :: s.events nonce)
        length := max s.length (nonce + 1) }
  | .call conn q =>
      match exec (q.alone (getTxsFromNonces rvk accs conn) s.fuel) s.manager with
      | (.ok _, manager) => some { s with manager := manager }
      | (.error _, _) => none

/-- What arrives continues the history of its nonce, parses, and is on a nonce that is not cached and not
far above the newest one.  Nodes report what there is. -/
def Arrives (s : RawChain) : RawEvent → Prop
  | .arrive nonce event => Chronology accs (rvk.getIdentifierKey nonce) (event :: s.events nonce) ∧
      event.Parses rvk accs nonce (s.events nonce) ∧ s.manager.bucket nonce = [] ∧
      nonce < s.length + DEFAULT_FETCH_BATCH_SIZE
  | .call conn _ => Reports rvk conn s.events

/-- Every nonce parses to what the history has of it. -/
structure Represents (s : RawChain) (t : ManagedChain) : Prop where
  length_eq : t.chain.length = s.length
  manager_eq : t.manager = s.manager
  chronology : ∀ n, Chronology accs (rvk.getIdentifierKey n) (s.events n)
  parsed : ∀ n, List.Forall₂ (fun pairing tx =>
    parsePairing rvk accs (responsesFor rvk n) pairing = .ok tx) (pairings (s.events n)) (t.chain.txsAt n)
  used : ∀ n, s.events n ≠ [] → pairings (s.events n) ≠ []

variable {rvk accs} {s s' : RawChain} {t : ManagedChain}

lemma represents_start : Represents rvk accs start ⟨.ofList [] History.nil_not_confirmed, .new⟩ where
  length_eq := rfl
  manager_eq := rfl
  chronology _ := .nil
  parsed _ := .nil
  used _ h := absurd rfl h

/-- What one nonce converts to, from what a node reports. -/
lemma Represents.convertNonce_eq (hr : Represents rvk accs s t) {conn : RPCConnection}
    (hreports : Reports rvk conn s.events) (n : ℕ) :
    convertNonce rvk accs conn n = .ok (t.chain.txsAt n) := by
  have hserved : ∀ entry ∈ (s.events n).map TxEvent.response,
      conn.getParsedTransaction entry.snd.signature = some entry.fst := by
    rw [List.forall_mem_map]
    exact hreports.transactions n
  have hsigs : conn.getTxSigsForIdKeyFromBlockchain (rvk.getIdentifierKey n)
      = ((s.events n).map TxEvent.response).map SigResponse.snd := by
    rw [hreports.signatures, List.map_map]
    rfl
  have hresponses : responsesOf conn
      { sigs := ((s.events n).map TxEvent.response).map SigResponse.snd
        nonce := n
        idKey := rvk.getIdentifierKey n }
      = some ⟨(s.events n).map TxEvent.response, n, rvk.getIdentifierKey n⟩ := by
    rw [responsesOf, mapM_served hserved]
    rfl
  have hparsed := hr.parsed n
  rw [convertNonce, hsigs, convertSigs, hresponses]
  dsimp only
  by_cases hnil : s.events n = []
  · rw [hnil] at hparsed ⊢
    rw [List.forall₂_nil_left_iff.mp hparsed]
    rfl
  · rw [if_neg (by simpa using hnil),
      txResponseToElusivTxs_history (hr.chronology n) n hnil (hr.used n hnil), parsePairing_responsesFor]
    exact mapM_eq_ok_of_forall₂ hparsed

/-- **Every node that reports the chain answers from the history.** -/
theorem Represents.getTxsFromNonces_eq (hr : Represents rvk accs s t) {conn : RPCConnection}
    (hreports : Reports rvk conn s.events) : getTxsFromNonces rvk accs conn = t.chain.fetcher := by
  have hreadable : Readable rvk accs conn t.chain.length t.chain.txsAt :=
    ⟨hr.convertNonce_eq hreports, t.chain.ne_nil_of_newest, t.chain.eq_nil_of_length_le⟩
  exact hreadable.getTxsFromNonces_eq

/-! ## One step -/

lemma Represents.lt_length (hr : Represents rvk accs s t) {n : ℕ} (hne : s.events n ≠ []) :
    n < s.length := by
  by_contra hge
  have hparsed := hr.parsed n
  rw [t.chain.eq_nil_of_length_le n (hr.length_eq ▸ Nat.le_of_not_lt hge)] at hparsed
  exact hr.used n hne (List.forall₂_nil_right_iff.mp hparsed)

/-- The chain of transactions after one more message, when it parses to `txs` on the nonce. -/
lemma Represents.arrive (hr : Represents rvk accs s t) {nonce : ℕ} {event : TxEvent}
    (hchronology : Chronology accs (rvk.getIdentifierKey nonce) (event :: s.events nonce))
    (hused : pairings (event :: s.events nonce) ≠ []) {chain : History}
    (hlength : chain.length = max s.length (nonce + 1))
    (hother : ∀ n ≠ nonce, chain.txsAt n = t.chain.txsAt n)
    (hparsed : List.Forall₂ (fun pairing tx =>
      parsePairing rvk accs (responsesFor rvk nonce) pairing = .ok tx)
        (pairings (event :: s.events nonce)) (chain.txsAt nonce)) :
    Represents rvk accs
      { s with
        events := Function.update s.events nonce (event :: s.events nonce)
        length := max s.length (nonce + 1) } { t with chain := chain } := by
  refine ⟨hlength, hr.manager_eq, ?_, ?_, ?_⟩
  · intro n
    dsimp only
    by_cases hn : n = nonce
    · subst hn
      rwa [Function.update_self]
    · rw [Function.update_of_ne hn]
      exact hr.chronology n
  · intro n
    dsimp only
    by_cases hn : n = nonce
    · subst hn
      rwa [Function.update_self]
    · rw [Function.update_of_ne hn, hother n hn]
      exact hr.parsed n
  · intro n
    dsimp only
    by_cases hn : n = nonce
    · subst hn
      rw [Function.update_self]
      exact fun _ => hused
    · rw [Function.update_of_ne hn]
      exact hr.used n

/-- A store or an init lands, as what it parses to. -/
lemma Represents.land (hr : Represents rvk accs s t) {nonce : ℕ} {event : TxEvent} {pairing : Pairing}
    (hchronology : Chronology accs (rvk.getIdentifierKey nonce) (event :: s.events nonce))
    (hpairings : pairings (event :: s.events nonce) = pairing :: pairings (s.events nonce))
    {tx : ElusivTransaction} (htx : parsePairing rvk accs (responsesFor rvk nonce) pairing = .ok tx)
    (hparsed : Parsed nonce tx) :
    ∃ chain, t.chain.grow (.land tx 0) = some chain ∧ Represents rvk accs
      { s with
        events := Function.update s.events nonce (event :: s.events nonce)
        length := max s.length (nonce + 1) } { t with chain := chain } := by
  obtain rfl := hparsed.nonce_eq
  refine ⟨t.chain.land tx 0 hparsed.not_confirmed, dif_pos hparsed.not_confirmed, hr.arrive hchronology
    ?_ ?_ (fun n hn => History.txsAt_land_of_ne hn) ?_⟩
  · rw [hpairings]
    exact List.cons_ne_nil _ _
  · show max t.chain.length (tx.nonce + 1) = _
    rw [hr.length_eq]
  · rw [hpairings, History.txsAt_land_nonce]
    exact .cons htx (hr.parsed tx.nonce)

/-- A finalize finalizes the pending send of its init. -/
lemma Represents.finalize (hr : Represents rvk accs s t) {nonce send : ℕ} {acc : PublicKey}
    {response : SigResponse}
    (hchronology : Chronology accs (rvk.getIdentifierKey nonce)
      (.finalize send acc response :: s.events nonce))
    {final : FinalizeInstructions} {recipient refKey : PublicKey}
    (hfinal : tryParseVariableInstructionsFinalizeVerificationFromDecryptionKey rvk.primitives
      (rvk.generateDecryptionKey nonce) response.fst.message.instructions = .ok final)
    (hrecipient : final.recipientAcc = some recipient) (hrefKey : final.refKeyAcc = some refKey) :
    ∃ i chain, t.chain.grow (.finalize nonce i 0 (finalizeDataOf final recipient refKey response.snd))
        = some chain ∧ Represents rvk accs
      { s with
        events := Function.update s.events nonce (.finalize send acc response :: s.events nonce)
        length := max s.length (nonce + 1) } { t with chain := chain } := by
  obtain ⟨initTx, newer, older, hbefore, hafter, hmem⟩ := pairings_finalize hchronology
  have hkind := (hr.chronology nonce).oneKind_of_mem hmem
  have hparsed := hr.parsed nonce
  rw [hbefore] at hparsed
  -- the pending send stands at the place of its pairing
  have hnewer := List.forall₂_take newer.length hparsed
  have holder := List.forall₂_drop newer.length hparsed
  rw [List.take_left] at hnewer
  rw [List.drop_left] at holder
  obtain ⟨tx, rest, htx, hrest, hdrop⟩ := List.forall₂_cons_left_iff.mp holder
  obtain ⟨hpending, hprocessed⟩ := parse_finalized (has_of_init hkind)
    (has_of_finalize hchronology.oneKind) htx hfinal hrecipient hrefKey
  have hget : (t.chain.txsAt nonce)[newer.length]? = some tx := by
    rw [← List.head?_drop, hdrop, List.head?_cons]
  have herase : (t.chain.txsAt nonce).eraseIdx newer.length
      = (t.chain.txsAt nonce).take newer.length ++ rest := by
    rw [List.eraseIdx_eq_take_drop_succ, ← List.tail_drop, hdrop, List.tail_cons]
  obtain ⟨chain, hgrow, htxs⟩ := @History.grow_finalize t.chain nonce newer.length 0 tx hget hpending
    (finalizeDataOf final recipient refKey response.snd)
  refine ⟨newer.length, chain, hgrow, hr.arrive hchronology ?_ ?_ ?_ ?_⟩
  · rw [hafter]
    exact List.cons_ne_nil _ _
  · rw [(History.grow_spec hgrow).1, hr.length_eq]
    rfl
  · exact (History.grow_spec hgrow).2.2
  · rw [hafter, htxs, herase]
    exact .cons hprocessed (List.rel_append hnewer hrest)

/-- What a message or a call is for the managers: a message is at most one growth, of its own nonce, and a
call is the same call. -/
def Matched : RawEvent → List ManagerEvent → Prop
  | .arrive nonce _, es => es = [] ∨ ∃ g : Growth, g.nonce = nonce ∧ es = [.grow g]
  | .call _ q, es => es = [.call q]

/-- One message more. -/
lemma Represents.grows (hr : Represents rvk accs s t) {nonce : ℕ} {event : TxEvent}
    (hchronology : Chronology accs (rvk.getIdentifierKey nonce) (event :: s.events nonce))
    (hparses : event.Parses rvk accs nonce (s.events nonce)) :
    (∃ g : Growth, ∃ chain, g.nonce = nonce ∧ t.chain.grow g = some chain ∧ Represents rvk accs
      { s with
        events := Function.update s.events nonce (event :: s.events nonce)
        length := max s.length (nonce + 1) } { t with chain := chain }) ∨
    Represents rvk accs
      { s with
        events := Function.update s.events nonce (event :: s.events nonce)
        length := max s.length (nonce + 1) } t := by
  have hone := hchronology.oneKind
  cases event with
  | unrelated response =>
      right
      have hpairings : pairings (.unrelated response :: s.events nonce) = pairings (s.events nonce) :=
        pairings_cons hchronology fun _ => rfl
      have hne : s.events nonce ≠ [] := by
        intro hnil
        rw [TxEvent.Parses, hnil] at hparses
        exact hparses rfl
      have hlt := hr.lt_length hne
      refine @Represents.arrive rvk accs s t hr nonce _ hchronology (hpairings ▸ hparses) t.chain ?_
        (fun _ _ => rfl) ?_
      · rw [hr.length_eq]
        omega
      · rw [hpairings]
        exact hr.parsed nonce
  | store response =>
      left
      obtain ⟨tx, htx⟩ := hparses
      have hparsed : Parsed nonce tx := parsed_of_tryParseRawStore htx
      obtain ⟨chain, hgrow, hr'⟩ := hr.land hchronology (pairings_cons hchronology fun _ => rfl) htx hparsed
      exact ⟨.land tx 0, chain, hparsed.nonce_eq, hgrow, hr'⟩
  | init send acc response =>
      left
      obtain ⟨tx, htx⟩ := hparses
      have hparsed : Parsed nonce tx :=
        @parsed_of_txResponseToSendTx rvk accs (responsesFor rvk nonce) [response] tx htx
      have hnew : pairingOf (.init send acc response :: s.events nonce) (.init send acc response)
          = [.pending response] := by
        have hfinal := isFinalized_eq_false hchronology.tail hchronology.init_new
        rw [isFinalized] at hfinal
        rw [pairingOf, isFinalized, List.any_cons, hfinal]
        rfl
      have hpairings : pairings (.init send acc response :: s.events nonce)
          = .pending response :: pairings (s.events nonce) := by
        rw [pairings_cons hchronology fun _ => rfl, hnew]
        rfl
      obtain ⟨chain, hgrow, hr'⟩ := hr.land hchronology hpairings htx hparsed
      exact ⟨.land tx 0, chain, hparsed.nonce_eq, hgrow, hr'⟩
  | finalize send acc response =>
      left
      obtain ⟨final, recipient, refKey, hfinal, hrecipient, hrefKey⟩ := hparses
      obtain ⟨i, chain, hgrow, hr'⟩ := hr.finalize hchronology hfinal hrecipient hrefKey
      exact ⟨.finalize nonce i 0 _, chain, rfl, hgrow, hr'⟩

/-- **Every step is matched.** -/
theorem Represents.step (hr : Represents rvk accs s t) {e : RawEvent} (harrives : Arrives rvk accs s e)
    (hstep : step rvk accs s e = some s') : ∃ es t', Matched e es ∧
      run ManagedChain.step t es = some t' ∧ Allowed ManagedChain.step ManagedChain.Uncached t es ∧
      Represents rvk accs s' t' := by
  cases e with
  | arrive nonce event =>
      obtain ⟨hchronology, hparses, huncached, hnear⟩ := harrives
      obtain rfl := Option.some.inj hstep
      rcases hr.grows hchronology hparses with ⟨g, chain, rfl, hgrow, hr'⟩ | hr'
      · refine ⟨[.grow g], { t with chain := chain }, .inr ⟨g, rfl, rfl⟩, ?_, ⟨⟨?_, ?_⟩, ?_⟩, hr'⟩
        · rw [run, ManagedChain.step, hgrow]
          rfl
        · rw [hr.manager_eq]
          exact huncached
        · rw [hr.length_eq]
          exact hnear
        · exact fun _ _ => trivial
      · exact ⟨[], t, .inl rfl, rfl, trivial, hr'⟩
  | call conn q =>
      have hfetcher := hr.getTxsFromNonces_eq harrives
      have hfuel : t.fuel = s.fuel := congrArg (· + DEFAULT_FETCH_BATCH_SIZE + 3) hr.length_eq
      rw [RawChain.step, hfetcher, ← hfuel, ← hr.manager_eq] at hstep
      cases hexec : exec (q.alone t.chain.fetcher t.fuel) t.manager with
      | mk result manager =>
          rw [hexec] at hstep
          cases result with
          | error failure => cases hstep
          | ok txs =>
              obtain rfl := Option.some.inj hstep
              refine ⟨[.call q], { t with manager := manager }, rfl, ?_, ⟨trivial, fun _ _ => trivial⟩, ?_⟩
              · rw [run, ManagedChain.step, hexec]
                rfl
              · exact { hr with manager_eq := rfl }

/-- **Messages and calls are a run of the managers.**  Every run in which what arrives parses, in the order
of its nonce, is matched by a run of a chain of transactions that grows on nonces that are not cached; a
message is one growth of its nonce or none, and a call the same call.  Whatever node reports the chain, the
next call returns what the history holds. -/
theorem refines (rvk : RVKWrapper) (accs : ProgramAccounts) {es : List RawEvent} {s : RawChain}
    (hrun : run (step rvk accs) start es = some s)
    (harrives : Allowed (step rvk accs) (Arrives rvk accs) start es) :
    ∃ ess t, List.Forall₂ Matched es ess ∧
      run ManagedChain.step ⟨.ofList [] History.nil_not_confirmed, .new⟩ ess.flatten = some t ∧
      Allowed ManagedChain.step ManagedChain.Uncached ⟨.ofList [] History.nil_not_confirmed, .new⟩
        ess.flatten ∧ Represents rvk accs s t ∧
      ∀ conn, Reports rvk conn s.events → getTxsFromNonces rvk accs conn = t.chain.fetcher ∧
        ∀ q : Query, (exec (q.alone (getTxsFromNonces rvk accs conn) s.fuel) s.manager).1
          = .ok (t.chain.answer q) := by
  obtain ⟨ess, t, hmatched, hrun', hallowed, hr⟩ :=
    run_simulates (fun _ _ _ _ hr harrives hstep => hr.step harrives hstep) represents_start harrives hrun
  have hok : t.Ok := run_invariant (fun _ _ _ hs he hstep => hs.step he hstep)
    ⟨fun k hk => absurd hk (Nat.not_lt_zero k), coherent_new _⟩ hallowed hrun'
  refine ⟨ess, t, hmatched, hrun', hallowed, hr, fun conn hreports => ?_⟩
  have hfetcher := hr.getTxsFromNonces_eq hreports
  refine ⟨hfetcher, fun q => ?_⟩
  have hfuel : t.fuel = s.fuel := congrArg (· + DEFAULT_FETCH_BATCH_SIZE + 3) hr.length_eq
  obtain ⟨txs, m, hexec, rfl, -⟩ := (q.alone_spec hok.coherent hok.gaps (Nat.le_refl t.fuel)).run rfl
  rw [hfetcher, ← hfuel, ← hr.manager_eq, hexec]

end RawChain

/-! ### A send in the making -/

namespace RawSend

open PlainMessages RawChain ViewedSend

/-- A node that knows nothing yet. -/
def silentConn : RPCConnection where
  getConfirmedSignaturesForAddress2 _ := []
  getParsedTransaction _ := none

/-- A call on the empty chain, an init, a transaction of another program, and the finalize. -/
def sampleRun : List RawEvent :=
  [.call silentConn (.fetchTxs 1 none none), .arrive 0 (.init 0 verificationAcc initTx),
    .arrive 0 (.unrelated ForeignTransaction.foreign), .arrive 0 (.finalize 0 verificationAcc finalizeTx)]

lemma parses_initTx : ∃ tx, parsePairing rvk plainAccounts (responsesFor rvk 0) (.pending initTx) = .ok tx := by
  have hkind := has_of_init (oneKind_init 0 verificationAcc 5 initTx.snd)
  exact ⟨_, (@txResponseToSendTx_pending_iff rvk plainAccounts (responsesFor rvk 0) initTx _ hkind).mpr
    ⟨initInstructions 5, initOfMessage_initTx _, rfl⟩⟩

lemma arrives_sampleRun : Allowed (step rvk plainAccounts) (Arrives rvk plainAccounts) start sampleRun := by
  have hcall : step rvk plainAccounts start (.call silentConn (.fetchTxs 1 none none)) = some start := by
    have hexec : exec ((Query.fetchTxs 1 none none).alone (getTxsFromNonces rvk plainAccounts silentConn)
        start.fuel) start.manager = (.ok [], TxManager.new) := by
      rfl
    rw [step, hexec]
    rfl
  have hinit : Chronology plainAccounts idKey [.init 0 verificationAcc initTx] :=
    .init .nil (oneKind_init 0 verificationAcc 5 _) (by simp)
  have hforeign : Chronology plainAccounts idKey
      [.unrelated ForeignTransaction.foreign, .init 0 verificationAcc initTx] := .unrelated hinit rfl
  have hfinal : Chronology plainAccounts idKey [.finalize 0 verificationAcc finalizeTx,
      .unrelated ForeignTransaction.foreign, .init 0 verificationAcc initTx] :=
    @Chronology.finalize _ _ _ _ _ _ [_] [] hforeign
      (oneKind_finalize 0 verificationAcc _) (by simp) (by simp)
  refine ⟨⟨fun _ => rfl, fun _ _ hmem => absurd hmem List.not_mem_nil⟩, fun s hs => ?_⟩
  obtain rfl := Option.some.inj (hcall.symm.trans hs)
  refine ⟨⟨hinit, parses_initTx, rfl, by decide⟩, fun s hs => ?_⟩
  obtain rfl := Option.some.inj hs
  refine ⟨⟨hforeign, List.cons_ne_nil _ _, rfl, by decide⟩, fun s hs => ?_⟩
  obtain rfl := Option.some.inj hs
  exact ⟨⟨hfinal, ⟨finalizeInstructions, _, _, parse_rawFinalize _ _, rfl, rfl⟩, rfl, by decide⟩,
    fun _ _ => trivial⟩

/-- The three messages become one send. -/
theorem refines_sampleRun : ∃ (s : RawChain) (ess : List (List ManagerEvent)) (t : ManagedChain),
    run (step rvk plainAccounts) start sampleRun = some s ∧
    run ManagedChain.step ⟨.ofList [] History.nil_not_confirmed, .new⟩ ess.flatten = some t ∧
    Represents rvk plainAccounts s t ∧ t.chain.txsAt 0 = [sendTx] := by
  have hsome : ∃ s, run (step rvk plainAccounts) start sampleRun = some s ∧ s.events 0
      = [.finalize 0 verificationAcc finalizeTx, .unrelated ForeignTransaction.foreign,
        .init 0 verificationAcc initTx] := ⟨_, rfl, rfl⟩
  obtain ⟨s, hrun, hevents⟩ := hsome
  obtain ⟨ess, t, -, hrun', -, hr, -⟩ := refines rvk plainAccounts hrun arrives_sampleRun
  refine ⟨s, ess, t, hrun, hrun', hr, ?_⟩
  have hparsed := hr.parsed 0
  rw [hevents] at hparsed
  obtain ⟨tx, rest, htx, hrest, htxs⟩ := List.forall₂_cons_left_iff.mp hparsed
  rw [htxs, List.forall₂_nil_left_iff.mp hrest]
  have hsend : Except.ok tx = Except.ok sendTx := htx.symm.trans txResponseToSendTx_sendTx
  rw [Except.ok.inj hsend]

end RawSend

end ElusivSdk
