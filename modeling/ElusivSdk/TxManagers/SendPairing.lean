import ElusivSdk.TxBuilding.InstructionBuilding
import ElusivSdk.TxManagers.ResponseConverter

/-!
# Which init belongs to which finalize

The responses for one identifier key come from a history: stores, and sends that are started by an init and
may be ended by a finalize later, in any order, with other transactions among them.  A send takes a
verification account, which no other send takes before the finalize.  From the responses alone, the newest
first, `txResponseToElusivTxs` finds out which init a finalize belongs to.

* `TxEvent`, `Chronology` — the histories, with the send that an init or a finalize is part of.
* `Pairing`, `pairings` — what there is to be found.
* `findInitTx_eq` — the next init on the verification account is that of the send.
* **`startParsing_eq`** — the loop; an init is viewed exactly when a newer finalize has taken it.
* `txResponseToElusivTxs_history` — so the method starts one parse for every pairing.
-/

namespace ElusivSdk

open TransactionParsing

/-! ## Kinds of messages -/

section Messages

variable {accs : ProgramAccounts} {txMessage : ParsedMessage} {idPubKey : PublicKey}

lemma isSendTx_eq_false_iff : isSendTx accs txMessage idPubKey = false ↔
    getSendInitIx accs txMessage idPubKey = none ∧ getSendFinalizeIx accs txMessage idPubKey = none := by
  rw [isSendTx, getSendInitIx, getSendFinalizeIx, List.any_eq_false, List.find?_eq_none,
    List.find?_eq_none]
  constructor
  · intro h
    refine ⟨fun ix hix hinit => h ix hix ?_, fun ix hix hfinalize => h ix hix ?_⟩
    · rw [InstructionParsing.isSendIx, hinit, Bool.true_or]
    · rw [InstructionParsing.isSendIx, hfinalize, Bool.or_true]
  · rintro ⟨hinit, hfinalize⟩ ix hix hsend
    rcases Bool.or_eq_true_iff.mp hsend with h | h
    · exact hinit ix hix h
    · exact hfinalize ix hix h

lemma isElusivTx_eq_false_iff : isElusivTx accs txMessage idPubKey = false ↔
    isStoreTx accs txMessage idPubKey = false ∧ getSendInitIx accs txMessage idPubKey = none ∧
      getSendFinalizeIx accs txMessage idPubKey = none := by
  rw [isElusivTx, Bool.or_eq_false_iff, isSendTx_eq_false_iff]

end Messages

/-! ## Histories -/

/-- A transaction on chain, with the send it is part of and its verification account. -/
inductive TxEvent
  | unrelated (response : SigResponse)
  | store (response : SigResponse)
  | init (send : ℕ) (verificationAcc : PublicKey) (response : SigResponse)
  | finalize (send : ℕ) (verificationAcc : PublicKey) (response : SigResponse)
deriving DecidableEq

namespace TxEvent

def response : TxEvent → SigResponse
  | unrelated response | store response | init _ _ response | finalize _ _ response => response

def isElusiv : TxEvent → Bool
  | unrelated _ => false
  | _ => true

/-- A transaction carries one kind of instruction for the identifier key, or none. -/
def OneKind (accs : ProgramAccounts) (idPubKey : PublicKey) : TxEvent → Prop
  | unrelated response => isElusivTx accs response.fst.message idPubKey = false
  | store response => isStoreTx accs response.fst.message idPubKey = true ∧
      getSendInitIx accs response.fst.message idPubKey = none ∧
      getSendFinalizeIx accs response.fst.message idPubKey = none
  | init _ verificationAcc response => isStoreTx accs response.fst.message idPubKey = false ∧
      (getSendInitIx accs response.fst.message idPubKey).bind
        InitVerificationInstructionBase.getVerificationAcc = some verificationAcc ∧
      getSendFinalizeIx accs response.fst.message idPubKey = none
  | finalize _ verificationAcc response => isStoreTx accs response.fst.message idPubKey = false ∧
      getSendInitIx accs response.fst.message idPubKey = none ∧
      (getSendFinalizeIx accs response.fst.message idPubKey).bind
        FinalizeVerificationInstruction.getVerificationAcc = some verificationAcc

instance (accs : ProgramAccounts) (idPubKey : PublicKey) : DecidablePred (OneKind accs idPubKey)
  | unrelated _ => instDecidableEqBool _ _
  | store _ | init _ _ _ | finalize _ _ _ => instDecidableAnd

/-- The init of a send. -/
def initOf? (send : ℕ) : TxEvent → Option SigResponse
  | init send' _ response => if send' = send then some response else none
  | _ => none

def isFinalizeOf (send : ℕ) : TxEvent → Bool
  | finalize send' _ _ => send' == send
  | _ => false

end TxEvent

/-- The histories on an identifier key, the newest transaction first; every rule adds the next one. -/
inductive Chronology (accs : ProgramAccounts) (idPubKey : PublicKey) : List TxEvent → Prop
  | nil : Chronology accs idPubKey []
  | unrelated {response : SigResponse} {events : List TxEvent} (h : Chronology accs idPubKey events)
      (hkind : (TxEvent.unrelated response).OneKind accs idPubKey) :
      Chronology accs idPubKey (.unrelated response :: events)
  | store {response : SigResponse} {events : List TxEvent} (h : Chronology accs idPubKey events)
      (hkind : (TxEvent.store response).OneKind accs idPubKey) :
      Chronology accs idPubKey (.store response :: events)
  /-- A send is started once. -/
  | init {send : ℕ} {acc : PublicKey} {response : SigResponse} {events : List TxEvent}
      (h : Chronology accs idPubKey events)
      (hkind : (TxEvent.init send acc response).OneKind accs idPubKey)
      (hnew : ∀ acc' response', .init send acc' response' ∉ events) :
      Chronology accs idPubKey (.init send acc response :: events)
  /-- It is ended once, after its init, and no init since has taken its verification account. -/
  | finalize {send : ℕ} {acc : PublicKey} {response initTx : SigResponse}
      {between earlier : List TxEvent}
      (h : Chronology accs idPubKey (between ++ .init send acc initTx :: earlier))
      (hkind : (TxEvent.finalize send acc response).OneKind accs idPubKey)
      (hreuse : ∀ send' initTx', .init send' acc initTx' ∉ between)
      (honce : ∀ acc' response', .finalize send acc' response' ∉ between) :
      Chronology accs idPubKey (.finalize send acc response :: between ++ .init send acc initTx :: earlier)

lemma TxEvent.OneKind.isElusivTx_eq {accs : ProgramAccounts} {idPubKey : PublicKey} {event : TxEvent}
    (h : event.OneKind accs idPubKey) :
    isElusivTx accs event.response.fst.message idPubKey = event.isElusiv := by
  cases event with
  | unrelated response => exact h
  | store response =>
      show (isStoreTx accs response.fst.message idPubKey || _) = true
      rw [h.1, Bool.true_or]
  | init send acc response =>
      refine Bool.eq_true_of_not_eq_false fun hfalse => ?_
      have hnone : getSendInitIx accs response.fst.message idPubKey = none :=
        (isElusivTx_eq_false_iff.mp hfalse).2.1
      have hsome := h.2.1
      rw [hnone] at hsome
      nomatch hsome
  | finalize send acc response =>
      refine Bool.eq_true_of_not_eq_false fun hfalse => ?_
      have hnone : getSendFinalizeIx accs response.fst.message idPubKey = none :=
        (isElusivTx_eq_false_iff.mp hfalse).2.2
      have hsome := h.2.2
      rw [hnone] at hsome
      nomatch hsome

namespace Chronology

variable {accs : ProgramAccounts} {idPubKey : PublicKey} {events newer older : List TxEvent}

lemma tail {event : TxEvent} (h : Chronology accs idPubKey (event :: events)) :
    Chronology accs idPubKey events := by
  cases h with
  | unrelated h | store h | init h | finalize h => exact h

lemma drop (h : Chronology accs idPubKey (newer ++ older)) : Chronology accs idPubKey older := by
  induction newer with
  | nil => exact h
  | cons event newer ih => exact ih h.tail

lemma oneKind {event : TxEvent} (h : Chronology accs idPubKey (event :: events)) :
    event.OneKind accs idPubKey := by
  cases h with
  | unrelated _ hkind | store _ hkind | init _ hkind | finalize _ hkind => exact hkind

lemma oneKind_of_mem {event : TxEvent} (h : Chronology accs idPubKey events) (hmem : event ∈ events) :
    event.OneKind accs idPubKey := by
  obtain ⟨newer, older, rfl⟩ := List.append_of_mem hmem
  exact h.drop.oneKind

/-- The init of a send is new. -/
lemma init_new {send : ℕ} {acc : PublicKey} {initTx : SigResponse}
    (h : Chronology accs idPubKey (.init send acc initTx :: events)) (acc' : PublicKey)
    (initTx' : SigResponse) : .init send acc' initTx' ∉ events := by
  cases h with
  | init _ _ hnew => exact hnew acc' initTx'

/-- A finalize comes after its init, and no init between them has its verification account. -/
lemma finalize_after {send : ℕ} {acc : PublicKey} {response : SigResponse}
    (h : Chronology accs idPubKey (.finalize send acc response :: events)) :
    ∃ between initTx earlier, events = between ++ .init send acc initTx :: earlier ∧
      ∀ send' initTx', .init send' acc initTx' ∉ between := by
  cases h with
  | finalize _ _ hreuse _ => exact ⟨_, _, _, rfl, hreuse⟩

/-- A send has no second init. -/
lemma init_not_mem {send : ℕ} {acc : PublicKey} {initTx : SigResponse}
    (h : Chronology accs idPubKey (newer ++ .init send acc initTx :: older)) (acc' : PublicKey)
    (initTx' : SigResponse) : .init send acc' initTx' ∉ newer := by
  induction newer with
  | nil => exact List.not_mem_nil
  | cons event newer ih =>
      rw [List.mem_cons, not_or]
      refine ⟨?_, ih h.tail⟩
      rintro rfl
      exact h.init_new acc initTx (List.mem_append_right _ List.mem_cons_self)

/-- A finalize comes after the init of its send. -/
lemma init_mem {send : ℕ} {acc : PublicKey} {response : SigResponse}
    (h : Chronology accs idPubKey events) (hmem : .finalize send acc response ∈ events) :
    ∃ initTx, .init send acc initTx ∈ events := by
  induction h with
  | nil => nomatch hmem
  | unrelated h hkind ih | store h hkind ih | init h hkind hnew ih =>
      obtain ⟨initTx, hinit⟩ := ih ((List.mem_cons.mp hmem).resolve_left nofun)
      exact ⟨initTx, List.mem_cons_of_mem _ hinit⟩
  | @finalize send' acc' response' initTx' between earlier h hkind hreuse honce ih =>
      rcases List.mem_cons.mp hmem with heq | hmem
      · injection heq with hsend hacc
        subst hsend hacc
        exact ⟨initTx', List.mem_cons_of_mem _ (List.mem_append_right _ List.mem_cons_self)⟩
      · obtain ⟨initTx, hinit⟩ := ih hmem
        exact ⟨initTx, List.mem_cons_of_mem _ hinit⟩

/-- Other transactions may be left out. -/
lemma filter_isElusiv (h : Chronology accs idPubKey events) :
    Chronology accs idPubKey (events.filter TxEvent.isElusiv) := by
  induction h with
  | nil => exact .nil
  | unrelated h hkind ih => exact ih
  | store h hkind ih => exact .store ih hkind
  | init h hkind hnew ih =>
      exact .init ih hkind fun acc' response' hmem => hnew acc' response' (List.mem_of_mem_filter hmem)
  | @finalize send acc response initTx between earlier h hkind hreuse honce ih =>
      rw [List.filter_append] at ih
      have heq : (TxEvent.finalize send acc response :: between ++ .init send acc initTx :: earlier).filter
          TxEvent.isElusiv = .finalize send acc response :: between.filter TxEvent.isElusiv
            ++ .init send acc initTx :: earlier.filter TxEvent.isElusiv := by
        rw [List.cons_append, List.filter_cons_of_pos rfl, List.filter_append,
          List.filter_cons_of_pos rfl]
        rfl
      rw [heq]
      exact .finalize ih hkind (fun send' initTx' hmem => hreuse send' initTx' (List.mem_of_mem_filter hmem))
        fun acc' response' hmem => honce acc' response' (List.mem_of_mem_filter hmem)

end Chronology

/-! ## What there is to be found -/

/-- What one parse is made from. -/
inductive Pairing
  | topup (store : SigResponse)
  | processed (finalize init : SigResponse)
  | pending (init : SigResponse)
deriving DecidableEq

def initOf (events : List TxEvent) (send : ℕ) : Option SigResponse :=
  events.findSome? (TxEvent.initOf? send)

def isFinalized (events : List TxEvent) (send : ℕ) : Bool := events.any (TxEvent.isFinalizeOf send)

def pairingOf (events : List TxEvent) : TxEvent → List Pairing
  | .unrelated _ => []
  | .store response => [.topup response]
  | .init send _ response => if isFinalized events send then [] else [.pending response]
  | .finalize send _ response => (initOf events send).toList.map (.processed response)

/-- One topup for every store, one processed send for every finalize, with the init of the send, and one
pending send for every init of a send that is not finalized. -/
def pairings (events : List TxEvent) : List Pairing := events.flatMap (pairingOf events)

namespace ResponseConverter

variable {rvk : RVKWrapper} {accs : ProgramAccounts} {tx : NoncedTxResponse}

def parsePairing (rvk : RVKWrapper) (accs : ProgramAccounts) (tx : NoncedTxResponse) :
    Pairing → Except Failure ElusivTransaction
  | .topup store => txResponseToStoreTx rvk tx store
  | .processed finalize init => txResponseToSendTx rvk accs tx [finalize, init]
  | .pending init => txResponseToSendTx rvk accs tx [init]

/-- An event that is not an init on the verification account is passed over. -/
lemma findInitTx_cons_of_ne {acc : PublicKey} {event : TxEvent} (h : event.OneKind accs tx.idPubKey)
    (hne : ∀ send initTx, event ≠ .init send acc initTx) (j : ℕ) (rest : List (SigResponse × ℕ)) :
    findInitTx accs tx (some acc) ((event.response, j) :: rest)
      = findInitTx accs tx (some acc) rest := by
  rw [findInitTx]
  cases event with
  | unrelated response =>
      rw [show getSendInitIx accs (TxEvent.unrelated response).response.fst.message tx.idPubKey = none from
        (isElusivTx_eq_false_iff.mp h).2.1]
  | store response =>
      rw [show getSendInitIx accs (TxEvent.store response).response.fst.message tx.idPubKey = none from h.2.1]
  | finalize send acc' response =>
      rw [show getSendInitIx accs (TxEvent.finalize send acc' response).response.fst.message tx.idPubKey
        = none from h.2.1]
  | init send acc' response =>
      obtain ⟨ix, hix, hacc⟩ := Option.bind_eq_some_iff.mp h.2.1
      have hneq : acc' ≠ acc := by
        rintro rfl
        exact hne send response rfl
      rw [show getSendInitIx accs (TxEvent.init send acc' response).response.fst.message tx.idPubKey
        = some ix from hix]
      dsimp only
      rw [hacc]
      exact if_neg hneq

lemma findInitTx_cons_self {send : ℕ} {acc : PublicKey} {initTx : SigResponse}
    (h : (TxEvent.init send acc initTx).OneKind accs tx.idPubKey) (j : ℕ)
    (rest : List (SigResponse × ℕ)) :
    findInitTx accs tx (some acc) ((initTx, j) :: rest) = .ok (some (initTx, j)) := by
  obtain ⟨ix, hix, hacc⟩ := Option.bind_eq_some_iff.mp h.2.1
  rw [findInitTx, hix]
  dsimp only
  rw [hacc]
  exact if_pos rfl

/-- **The next init on the verification account is that of the send.** -/
lemma findInitTx_eq {send : ℕ} {acc : PublicKey} {initTx : SigResponse}
    {between earlier : List TxEvent}
    (h : Chronology accs tx.idPubKey (between ++ .init send acc initTx :: earlier))
    (hreuse : ∀ send' initTx', .init send' acc initTx' ∉ between) (n : ℕ) :
    findInitTx accs tx (some acc)
        (((between ++ .init send acc initTx :: earlier).map TxEvent.response).zipIdx n)
      = .ok (some (initTx, n + between.length)) := by
  induction between generalizing n with
  | nil => exact findInitTx_cons_self h.oneKind n _
  | cons event between ih =>
      rw [List.cons_append, List.map_cons, List.zipIdx_cons, findInitTx_cons_of_ne h.oneKind
        fun send' initTx' heq => hreuse send' initTx' (heq ▸ List.mem_cons_self),
        ih h.tail (fun send' initTx' hmem => hreuse send' initTx' (List.mem_cons_of_mem _ hmem)),
        List.length_cons, Nat.add_assoc, Nat.add_comm 1]

/-! ## The loop -/

/-- The inits that a newer finalize has taken. -/
def Taken (newer older : List TxEvent) (j : ℕ) : Prop :=
  ∃ send acc initTx, older[j]? = some (.init send acc initTx) ∧ isFinalized newer send = true

/-- The viewed inits are the taken ones. -/
def ViewedTaken (newer older : List TxEvent) (viewed : List Bool) : Prop :=
  viewed.length = (newer ++ older).length ∧
    ∀ j, viewed.getD (newer.length + j) false = true ↔ Taken newer older j

lemma isFinalized_append (newer : List TxEvent) (event : TxEvent) (send : ℕ) :
    isFinalized (newer ++ [event]) send = (isFinalized newer send || event.isFinalizeOf send) := by
  rw [isFinalized, isFinalized, List.any_append, List.any_cons, List.any_nil, Bool.or_false]

/-- A transaction that ends no send takes no init. -/
lemma ViewedTaken.next {newer older : List TxEvent} {event : TxEvent} {viewed : List Bool}
    (h : ViewedTaken newer (event :: older) viewed) (hevent : ∀ send, event.isFinalizeOf send = false) :
    ViewedTaken (newer ++ [event]) older viewed := by
  refine ⟨by rw [h.1, List.append_assoc]; rfl, fun j => ?_⟩
  have hj := h.2 (j + 1)
  rw [Taken, List.getElem?_cons_succ] at hj
  rw [Taken, List.length_append, List.length_singleton, Nat.add_assoc, Nat.add_comm 1, hj]
  simp only [isFinalized_append, hevent, Bool.or_false]

/-- A send has one init, so it is where it is. -/
lemma eq_length_of_getElem? {between earlier : List TxEvent} {send : ℕ} {acc : PublicKey}
    {initTx : SigResponse} (hbetween : ∀ acc' initTx', .init send acc' initTx' ∉ between)
    (hearlier : ∀ acc' initTx', .init send acc' initTx' ∉ earlier) {acc' : PublicKey}
    {initTx' : SigResponse} {j : ℕ}
    (h : (between ++ .init send acc initTx :: earlier)[j]? = some (.init send acc' initTx')) :
    j = between.length := by
  rcases lt_trichotomy j between.length with hlt | heq | hgt
  · rw [List.getElem?_append_left hlt] at h
    exact absurd (List.mem_of_getElem? h) (hbetween acc' initTx')
  · exact heq
  · rw [List.getElem?_append_right hgt.le, List.getElem?_cons] at h
    rw [if_neg (Nat.sub_ne_zero_of_lt hgt)] at h
    exact absurd (List.mem_of_getElem? h) (hearlier acc' initTx')

/-- A finalize takes the init of its send. -/
lemma ViewedTaken.set {newer between earlier : List TxEvent} {send : ℕ} {acc acc' : PublicKey}
    {response initTx : SigResponse} {viewed : List Bool}
    (h : ViewedTaken newer
      (.finalize send acc response :: (between ++ .init send acc' initTx :: earlier)) viewed)
    (hbetween : ∀ acc'' initTx', .init send acc'' initTx' ∉ between)
    (hearlier : ∀ acc'' initTx', .init send acc'' initTx' ∉ earlier) :
    ViewedTaken (newer ++ [.finalize send acc response]) (between ++ .init send acc' initTx :: earlier)
      (viewed.set (newer.length + 1 + between.length) true) := by
  refine ⟨by rw [List.length_set, h.1, List.append_assoc]; rfl, fun j => ?_⟩
  have hlength : newer.length + 1 + between.length < viewed.length := by
    rw [h.1, List.length_append, List.length_cons, List.length_append, List.length_cons]
    omega
  have hj := h.2 (j + 1)
  rw [Taken, List.getElem?_cons_succ] at hj
  rw [Taken, List.length_append, List.length_singleton, Nat.add_assoc newer.length 1 j, Nat.add_comm 1 j,
    List.getD_eq_getElem?_getD, List.getElem?_set]
  by_cases hindex : j = between.length
  · subst hindex
    rw [if_pos (by omega), if_pos hlength]
    refine iff_of_true rfl ⟨send, acc', initTx, ?_, ?_⟩
    · rw [List.getElem?_append_right le_rfl, Nat.sub_self, List.getElem?_cons_zero]
    · rw [isFinalized_append, TxEvent.isFinalizeOf, beq_self_eq_true, Bool.or_true]
  · rw [if_neg (by omega), ← List.getD_eq_getElem?_getD, hj]
    constructor
    · rintro ⟨send', acc'', initTx', hinit, hfinal⟩
      exact ⟨send', acc'', initTx', hinit, by rw [isFinalized_append, hfinal, Bool.true_or]⟩
    · rintro ⟨send', acc'', initTx', hinit, hfinal⟩
      refine ⟨send', acc'', initTx', hinit, ?_⟩
      rw [isFinalized_append, Bool.or_eq_true, TxEvent.isFinalizeOf, beq_iff_eq] at hfinal
      rcases hfinal with hfinal | rfl
      · exact hfinal
      · exact absurd (eq_length_of_getElem? hbetween hearlier hinit) hindex

/-- What a store starts. -/
lemma start_store {response : SigResponse}
    (h : (TxEvent.store response).OneKind accs tx.idPubKey) (remaining : List (SigResponse × ℕ))
    (viewed : List Bool) :
    startStore rvk accs tx response = [parsePairing rvk accs tx (.topup response)] ∧
      startFinalized rvk accs tx response remaining viewed = .ok ([], viewed) ∧
      startPending rvk accs tx response = [] := by
  refine ⟨if_pos h.1, ?_, ?_⟩
  · rw [startFinalized, h.2.2]
  · rw [startPending, h.2.1]
    rfl

/-- What an init starts that is not viewed. -/
lemma start_init {send : ℕ} {acc : PublicKey} {response : SigResponse}
    (h : (TxEvent.init send acc response).OneKind accs tx.idPubKey) (remaining : List (SigResponse × ℕ))
    (viewed : List Bool) :
    startStore rvk accs tx response = [] ∧
      startFinalized rvk accs tx response remaining viewed = .ok ([], viewed) ∧
      startPending rvk accs tx response = [parsePairing rvk accs tx (.pending response)] := by
  obtain ⟨ix, hix, -⟩ := Option.bind_eq_some_iff.mp h.2.1
  refine ⟨?_, ?_, ?_⟩
  · rw [startStore, h.1, if_neg Bool.false_ne_true]
  · rw [startFinalized, h.2.2]
  · rw [startPending, hix]
    rfl

/-- What a finalize starts, with the init of its send. -/
lemma start_finalize {send : ℕ} {acc : PublicKey} {response initTx : SigResponse}
    {between earlier : List TxEvent}
    (h : Chronology accs tx.idPubKey
      (.finalize send acc response :: (between ++ .init send acc initTx :: earlier)))
    (hreuse : ∀ send' initTx', .init send' acc initTx' ∉ between) (n : ℕ) (viewed : List Bool) :
    startStore rvk accs tx response = [] ∧
      startFinalized rvk accs tx response ((response, n)
          :: ((between ++ .init send acc initTx :: earlier).map TxEvent.response).zipIdx (n + 1)) viewed
        = .ok ([parsePairing rvk accs tx (.processed response initTx)],
            viewed.set (n + 1 + between.length) true) ∧
      startPending rvk accs tx response = [] := by
  have hkind : (TxEvent.finalize send acc response).OneKind accs tx.idPubKey := h.oneKind
  obtain ⟨ix, hix, hacc⟩ := Option.bind_eq_some_iff.mp hkind.2.2
  refine ⟨?_, ?_, ?_⟩
  · rw [startStore, hkind.1, if_neg Bool.false_ne_true]
  · have hfind : findInitTx accs tx (some acc) ((response, n)
        :: ((between ++ .init send acc initTx :: earlier).map TxEvent.response).zipIdx (n + 1))
        = .ok (some (initTx, n + 1 + between.length)) :=
      (findInitTx_cons_of_ne hkind nofun n _).trans (findInitTx_eq h.tail hreuse (n + 1))
    rw [startFinalized, hix]
    dsimp only
    rw [hacc, hfind]
    rfl
  · rw [startPending, hkind.2.1]
    rfl

/-- The init of a send is found in the history. -/
lemma initOf_eq {newer older : List TxEvent} {send : ℕ} {acc : PublicKey} {initTx : SigResponse}
    (h : ∀ acc' initTx', .init send acc' initTx' ∉ newer) :
    initOf (newer ++ .init send acc initTx :: older) send = some initTx := by
  have hnone : newer.findSome? (TxEvent.initOf? send) = none := by
    rw [List.findSome?_eq_none_iff]
    intro event hmem
    cases event with
    | unrelated response | store response | finalize send' acc' response => rfl
    | init send' acc' response =>
        refine if_neg ?_
        rintro rfl
        exact h acc' response hmem
  rw [initOf, List.findSome?_append, hnone, List.findSome?_cons, TxEvent.initOf?, if_pos rfl]
  rfl

/-- The init of a finalize, among the older transactions. -/
lemma exists_initOf {accs : ProgramAccounts} {idPubKey : PublicKey} {newer older : List TxEvent}
    {send : ℕ} {acc : PublicKey} {response : SigResponse}
    (h : Chronology accs idPubKey (newer ++ .finalize send acc response :: older)) :
    ∃ between initTx earlier, older = between ++ .init send acc initTx :: earlier ∧
      (∀ send' initTx', .init send' acc initTx' ∉ between) ∧
      initOf (newer ++ .finalize send acc response :: older) send = some initTx := by
  obtain ⟨between, initTx, earlier, rfl, hreuse⟩ := h.drop.finalize_after
  have hassoc : newer ++ .finalize send acc response :: (between ++ .init send acc initTx :: earlier)
      = (newer ++ .finalize send acc response :: between) ++ .init send acc initTx :: earlier := by
    rw [List.append_assoc, List.cons_append]
  refine ⟨between, initTx, earlier, rfl, hreuse, ?_⟩
  rw [hassoc]
  exact initOf_eq (hassoc ▸ h).init_not_mem

/-- A send whose init is new is not finalized. -/
lemma isFinalized_eq_false {accs : ProgramAccounts} {idPubKey : PublicKey} {events : List TxEvent}
    (h : Chronology accs idPubKey events) {send : ℕ}
    (hnew : ∀ acc initTx, .init send acc initTx ∉ events) : isFinalized events send = false := by
  rw [isFinalized, List.any_eq_false]
  intro event hmem hfinal
  cases event with
  | unrelated response | store response | init send' acc response => nomatch hfinal
  | finalize send' acc response =>
      obtain rfl := beq_iff_eq.mp hfinal
      obtain ⟨initTx, hinit⟩ := h.init_mem hmem
      exact hnew acc initTx hinit

lemma ViewedTaken.getD_eq_false {newer older : List TxEvent} {event : TxEvent} {viewed : List Bool}
    (h : ViewedTaken newer (event :: older) viewed)
    (hevent : ∀ send acc initTx, event = .init send acc initTx → isFinalized newer send = false) :
    viewed.getD newer.length false = false := by
  refine Bool.eq_false_of_not_eq_true fun htrue => ?_
  obtain ⟨send, acc, initTx, hinit, hfinal⟩ := (h.2 0).mp htrue
  rw [hevent send acc initTx (Option.some.inj hinit)] at hfinal
  exact Bool.false_ne_true hfinal

/-- **The loop starts one parse for every pairing.**  By induction on the older transactions; what the
newer ones have taken is viewed. -/
theorem startParsing_eq {newer older : List TxEvent}
    (h : Chronology accs tx.idPubKey (newer ++ older))
    (helusiv : ∀ event ∈ older, event.isElusiv = true) {viewed : List Bool}
    (hviewed : ViewedTaken newer older viewed) :
    startParsing rvk accs tx ((older.map TxEvent.response).zipIdx newer.length) viewed
      = .ok ((older.flatMap (pairingOf (newer ++ older))).map (parsePairing rvk accs tx)) := by
  induction older generalizing newer viewed with
  | nil => rfl
  | cons event older ih =>
      have hsplit : newer ++ event :: older = (newer ++ [event]) ++ older :=
        List.append_cons newer event older
      have hnext : ∀ {viewed'}, ViewedTaken (newer ++ [event]) older viewed' →
          startParsing rvk accs tx ((older.map TxEvent.response).zipIdx (newer.length + 1)) viewed'
            = .ok ((older.flatMap (pairingOf (newer ++ event :: older))).map
              (parsePairing rvk accs tx)) := by
        intro viewed' hviewed'
        have hih := ih (hsplit ▸ h) (fun e he => helusiv e (List.mem_cons_of_mem _ he)) hviewed'
        rw [List.length_append, List.length_singleton, ← hsplit] at hih
        exact hih
      have hkind := h.drop.oneKind
      rw [List.map_cons, List.zipIdx_cons, startParsing, List.flatMap_cons, List.map_append]
      cases event with
      | unrelated response => nomatch helusiv _ List.mem_cons_self
      | store response =>
          obtain ⟨hstore, hfinalized, hpending⟩ := @start_store rvk accs tx response hkind
            ((response, newer.length) :: (older.map TxEvent.response).zipIdx (newer.length + 1)) viewed
          rw [hviewed.getD_eq_false nofun, if_neg Bool.false_ne_true, TxEvent.response, hfinalized]
          show (startParsing rvk accs tx _ viewed >>= fun others => _) = _
          rw [hnext (hviewed.next fun _ => rfl), hstore, hpending]
          rfl
      | init send acc response =>
          obtain ⟨hstore, hfinalized, hpending⟩ := @start_init rvk accs tx send acc response hkind
            ((response, newer.length) :: (older.map TxEvent.response).zipIdx (newer.length + 1)) viewed
          have hrest := hnext (hviewed.next fun _ => rfl)
          have hfinal : isFinalized (newer ++ .init send acc response :: older) send
              = isFinalized newer send := by
            have holder := isFinalized_eq_false h.drop.tail h.drop.init_new
            rw [isFinalized] at holder
            rw [isFinalized, isFinalized, List.any_append, List.any_cons, holder]
            exact Bool.or_false _
          rw [pairingOf, hfinal]
          cases htaken : isFinalized newer send with
          | true =>
              have hview : viewed.getD newer.length false = true :=
                (hviewed.2 0).mpr ⟨send, acc, response, rfl, htaken⟩
              rw [hview, if_pos rfl, if_pos rfl]
              exact hrest
          | false =>
              rw [hviewed.getD_eq_false fun send' acc' initTx' heq => by injection heq with hs; rw [← hs, htaken],
                if_neg Bool.false_ne_true, if_neg Bool.false_ne_true, TxEvent.response, hfinalized]
              show (startParsing rvk accs tx _ viewed >>= fun others => _) = _
              rw [hrest, hstore, hpending]
              rfl
      | finalize send acc response =>
          obtain ⟨between, initTx, earlier, rfl, hreuse, hinit⟩ := exists_initOf h
          obtain ⟨hstore, hfinalized, hpending⟩ := @start_finalize rvk accs tx send acc response
            initTx between earlier h.drop hreuse newer.length viewed
          have holder := h.drop.tail
          rw [hviewed.getD_eq_false nofun, if_neg Bool.false_ne_true, TxEvent.response, hfinalized,
            pairingOf, hinit]
          show (startParsing rvk accs tx _ _ >>= fun others => _) = _
          rw [hnext (hviewed.set holder.init_not_mem holder.drop.init_new), hstore, hpending]
          rfl

/-! ## The whole method -/

/-- What one parse yields. -/
def Yields (pairing : Pairing) (res : ElusivTransaction) : Prop :=
  match pairing with
  | .topup _ => res.txType = .TOPUP
  | .processed _ _ => res.txType = .SEND ∧ res.transactionStatus = some .PROCESSED
  | .pending _ => res.txType = .SEND ∧ res.transactionStatus = some .PENDING

lemma yields_topup {store : SigResponse} {res : ElusivTransaction}
    (h : parsePairing rvk accs tx (.topup store) = .ok res) : Yields (.topup store) res :=
  txType_of_tryParseRawStore h

/-- A send without a finalize is pending. -/
lemma yields_pending {init : SigResponse} {res : ElusivTransaction}
    (hkind : getSendFinalizeIx accs init.fst.message tx.idPubKey = none)
    (h : parsePairing rvk accs tx (.pending init) = .ok res) : Yields (.pending init) res := by
  rw [parsePairing, txResponseToSendTx] at h
  have hstatus := status_of_tryParseRawSend h
  have hnone : findSendFinalizeTx accs tx.idPubKey [init.fst.message] = none := by
    rw [findSendFinalizeTx, List.find?_eq_none]
    intro t ht
    obtain rfl := List.mem_singleton.mp ht
    rw [getSendFinalizeIx, List.find?_eq_none] at hkind
    rw [List.any_eq_true]
    rintro ⟨ix, hix, hfinalize⟩
    exact hkind ix hix hfinalize
  rw [List.map_singleton, hnone] at hstatus
  exact hstatus

/-- A send with a finalize is processed. -/
lemma yields_processed {finalize init : SigResponse} {res : ElusivTransaction}
    (hkind : (getSendFinalizeIx accs finalize.fst.message tx.idPubKey).isSome = true)
    (h : parsePairing rvk accs tx (.processed finalize init) = .ok res) :
    Yields (.processed finalize init) res := by
  rw [parsePairing, txResponseToSendTx] at h
  have hstatus := status_of_tryParseRawSend h
  have hsome : (findSendFinalizeTx accs tx.idPubKey
      [finalize.fst.message, init.fst.message]).isSome = true := by
    rw [getSendFinalizeIx, List.find?_isSome] at hkind
    rw [findSendFinalizeTx, List.find?_isSome]
    exact ⟨(finalize.fst.message, 0), List.mem_cons_self, List.any_eq_true.mpr hkind⟩
  rw [show [finalize, init].map (fun t => t.fst.message)
    = [finalize.fst.message, init.fst.message] from rfl, hsome] at hstatus
  exact hstatus

/-- Other transactions have no part in the pairings. -/
lemma pairings_filter_isElusiv (events : List TxEvent) :
    pairings (events.filter TxEvent.isElusiv) = pairings events := by
  have hinit : ∀ send, initOf (events.filter TxEvent.isElusiv) send = initOf events send := by
    intro send
    rw [initOf, initOf]
    induction events with
    | nil => rfl
    | cons event events ih =>
        cases event with
        | unrelated response =>
            rw [List.filter_cons_of_neg Bool.false_ne_true, List.findSome?_cons, ih]
            rfl
        | store response | init send' acc response | finalize send' acc response =>
            rw [List.filter_cons_of_pos rfl, List.findSome?_cons, List.findSome?_cons, ih]
  have hfinal : ∀ send, isFinalized (events.filter TxEvent.isElusiv) send = isFinalized events send := by
    intro send
    rw [isFinalized, isFinalized, List.any_filter]
    refine congrArg events.any (funext fun event => ?_)
    cases event <;> rfl
  have hpairing : ∀ event, pairingOf (events.filter TxEvent.isElusiv) event = pairingOf events event := by
    intro event
    cases event with
    | unrelated response | store response => rfl
    | init send acc response => rw [pairingOf, pairingOf, hfinal]
    | finalize send acc response => rw [pairingOf, pairingOf, hinit]
  have hskip : ∀ others : List TxEvent, (others.filter TxEvent.isElusiv).flatMap (pairingOf events)
      = others.flatMap (pairingOf events) := by
    intro others
    induction others with
    | nil => rfl
    | cons event others ih =>
        cases event with
        | unrelated response => rw [List.filter_cons_of_neg Bool.false_ne_true, ih]; rfl
        | store response | init send acc response | finalize send acc response =>
            rw [List.filter_cons_of_pos rfl, List.flatMap_cons, List.flatMap_cons, ih]
  rw [pairings, funext hpairing, hskip, pairings]

/-- The loop, over a whole history. -/
lemma startParsing_history {events : List TxEvent} (h : Chronology accs tx.idPubKey events)
    (hresponse : tx.txResponse = events.map TxEvent.response) :
    startParsing rvk accs tx (getElusivTxs accs tx).zipIdx
        (List.replicate (getElusivTxs accs tx).length false)
      = .ok ((pairings events).map (parsePairing rvk accs tx)) := by
  have helusiv : getElusivTxs accs tx = (events.filter TxEvent.isElusiv).map TxEvent.response := by
    rw [getElusivTxs, hresponse, List.filter_map]
    refine congrArg (List.map TxEvent.response) (List.filter_congr fun event hmem => ?_)
    exact (h.oneKind_of_mem hmem).isElusivTx_eq
  have hviewed : ViewedTaken [] (events.filter TxEvent.isElusiv)
      (List.replicate (events.filter TxEvent.isElusiv).length false) := by
    refine ⟨by rw [List.length_replicate, List.nil_append], fun j => iff_of_false ?_ ?_⟩
    · rw [List.getD_eq_getElem?_getD, List.getElem?_replicate]
      split_ifs <;> exact Bool.false_ne_true
    · rintro ⟨send, acc, initTx, -, hfinal⟩
      nomatch hfinal
  have hloop := @startParsing_eq rvk accs tx [] _ h.filter_isElusiv
    (fun event hmem => (List.mem_filter.mp hmem).2) _ hviewed
  rw [helusiv, List.length_map, ← pairings_filter_isElusiv]
  exact hloop

/-- The method, over a whole history. -/
lemma txResponseToElusivTxs_history {rvk : RVKWrapper} {accs : ProgramAccounts} {idPubKey : PublicKey}
    {events : List TxEvent} (h : Chronology accs idPubKey events) (nonce : ℕ) (hne : events ≠ [])
    (hpairings : pairings events ≠ []) :
    txResponseToElusivTxs rvk accs ⟨events.map TxEvent.response, nonce, idPubKey⟩
      = (pairings events).mapM (parsePairing rvk accs ⟨events.map TxEvent.response, nonce, idPubKey⟩) := by
  have hloop := @startParsing_history rvk accs ⟨events.map TxEvent.response, nonce, idPubKey⟩ events h rfl
  rw [txResponseToElusivTxs]
  dsimp only
  rw [hloop]
  show (if _ then _ else if _ then _ else _) = _
  simp only [List.length_map, List.length_eq_zero_iff, List.mapM_map, hne, hpairings]
  rfl

/-- What a pairing of a history yields, by what it is made from. -/
lemma yields_of_mem_pairings {rvk : RVKWrapper} {accs : ProgramAccounts} {tx : NoncedTxResponse}
    {events : List TxEvent} (h : Chronology accs tx.idPubKey events) {pairing : Pairing}
    (hmem : pairing ∈ pairings events) {res : ElusivTransaction}
    (hres : parsePairing rvk accs tx pairing = .ok res) : Yields pairing res := by
  obtain ⟨event, hevent, hpairing⟩ := List.mem_flatMap.mp hmem
  have hkind := h.oneKind_of_mem hevent
  cases event with
  | unrelated response => nomatch hpairing
  | store response =>
      obtain rfl := List.mem_singleton.mp hpairing
      exact yields_topup hres
  | init send acc response =>
      rw [pairingOf] at hpairing
      split_ifs at hpairing
      · nomatch hpairing
      · obtain rfl := List.mem_singleton.mp hpairing
        exact yields_pending hkind.2.2 hres
  | finalize send acc response =>
      obtain ⟨initTx, -, rfl⟩ := List.mem_map.mp hpairing
      obtain ⟨ix, hix, -⟩ := Option.bind_eq_some_iff.mp hkind.2.2
      exact yields_processed (Option.isSome_of_mem hix) hres

end ResponseConverter

end ElusivSdk
