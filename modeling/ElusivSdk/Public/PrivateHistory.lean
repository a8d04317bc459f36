import ElusivSdk.Public.ElusivViewer
import ElusivSdk.TxBuilding.SpentOnce
import ElusivSdk.TxBuilding.SendCharge
import ElusivSdk.TxManagers.FetchOrder
import ElusivSdk.Utils.PubKeyUtils

/-!
# What the history tells

An application shows what `getPrivateTransactions` returns.  The entries come from the chain, and for the
recipient of a send the owner of the account is asked for.

* `viewerConnection`, `getOwnerFromAcc_isOk_iff` — the viewer over the token package, and when it finds an
  owner.
* `exec_getPrivateTransactions` — the call returns exactly when every recipient is found, with one entry for
  each fetched transaction.
* `Client.AskedFor`, `Client.askedFor_of_run` — everything on the chain of a client was asked for.
* **`Client.told`** — the history says what was asked for, and adds up to the private balance.
-/

namespace ElusivSdk

open Descending InstructionBuilding Program TransactionBuilding Transition

/-! ## Owners -/

section Owners

variable (accs : ProgramAccounts) (tokens : TokenConnection)

/-- `acc` is an owner, or an account that is open, or it has an open account of its own. -/
def TokenConnection.KnowsOwner (acc : PublicKey) (tokenType : TokenType) : Prop :=
  tokenType = .LAMPORTS ∨ tokens.isOnCurve acc = true ∨ (tokens.getAccount acc).isOk = true ∨
    (∃ error, tokens.getAccount acc = .error error ∧ error.isMissing = true) ∧
      (tokens.getAccount (accs.getAssociatedTokenAcc acc tokenType)).isOk = true

def viewerConnection (serialization : Serialization) : ViewerConnection where
  serialization := serialization
  systemProgramId := accs.systemProgramId
  getOwnerFromAcc := getOwnerFromAcc accs tokens

variable {accs tokens}

/-- **When an owner is found.**  One closed account is enough for the call to throw. -/
theorem getOwnerFromAcc_isOk_iff {acc : PublicKey} {tokenType : TokenType} :
    (getOwnerFromAcc accs tokens acc tokenType).isOk = true ↔
      tokens.KnowsOwner accs acc tokenType := by
  rw [getOwnerFromAcc, TokenConnection.KnowsOwner]
  by_cases hlamports : tokenType = .LAMPORTS
  · simp [hlamports, Except.isOk, Except.toBool]
  cases hcurve : tokens.isOnCurve acc with
  | true => simp [Except.isOk, Except.toBool]
  | false =>
      cases haccount : tokens.getAccount acc with
      | ok owner => simp [hlamports, Except.isOk, Except.toBool]
      | error error =>
          cases hmissing : error.isMissing with
          | false => simp [hlamports, hmissing, Except.isOk, Except.toBool]
          | true =>
              -- the associated account of `acc` decides
              have hata : getAssociatedTokenAcc accs tokens acc tokenType true
                  = .ok (accs.getAssociatedTokenAcc acc tokenType) := by
                rw [getAssociatedTokenAcc, if_neg hlamports]
                rfl
              simp only [hlamports, hmissing, hata, decide_false, Bool.or_false, Bool.false_eq_true,
                if_false, if_true, false_or]
              show (Except.isOk (tokenAccExists tokens _ >>= _)) = true ↔ _
              rw [tokenAccExists]
              cases tokens.getAccount (accs.getAssociatedTokenAcc acc tokenType) with
              | ok owner =>
                  simp [hmissing, Except.isOk, Except.toBool, bind, Except.bind, pure, Except.pure]
              | error error' =>
                  cases hmissing' : error'.isMissing <;>
                    simp [hmissing', Except.isOk, Except.toBool, bind, Except.bind]

end Owners

/-! ## The call -/

namespace ViewerConnection

variable {conn : ViewerConnection} {status status' : Option TransactionStatus} {tx : ElusivTransaction}
  {w : PrivateTxWrapper}

/-- An owner of the recipient is found. -/
def Resolves (conn : ViewerConnection) (tx : ElusivTransaction) : Prop :=
  ∀ fields recipient, tx.body = .send fields → fields.recipient = some recipient →
    (conn.getOwnerFromAcc recipient tx.tokenType).isOk = true

/-- How an entry comes from its transaction. -/
def EntryOf (conn : ViewerConnection) (tx : ElusivTransaction) (w : PrivateTxWrapper) : Prop :=
  ∃ status wrapped, conn.toPrivateTxWrapper status tx = .ok wrapped ∧ conn.showOwner wrapped = .ok w

/-- The transaction is signed, and its numbers can be shown. -/
def Shows (conn : ViewerConnection) (tx : ElusivTransaction) : Prop :=
  tx.signature.isSome = true ∧ ∀ n ∈ tx.shownNumbers, (conn.serialization.bigIntToNumber n).isOk = true

lemma isOk_bigIntToNumber {serialization : Serialization} {n : ℤ} :
    (serialization.bigIntToNumber n).isOk = true ↔ serialization.bigIntToNumber n = .ok n := by
  constructor
  · intro h
    have hvalue := eq_ok_value h
    rwa [serialization.bigIntToNumber_exact hvalue] at hvalue
  · intro h
    rw [h]
    rfl

lemma toPrivateTxWrapper_isOk : (conn.toPrivateTxWrapper status tx).isOk = true ↔ conn.Shows tx := by
  rw [Shows, Option.isSome_iff_exists]
  simp only [isOk_bigIntToNumber]
  constructor
  · intro h
    obtain ⟨sig, hsig, hnumbers, -⟩ := toPrivateTxWrapper_eq_ok_iff.mp (eq_ok_value h)
    exact ⟨⟨sig, hsig⟩, hnumbers⟩
  · rintro ⟨⟨sig, hsig⟩, hnumbers⟩
    rw [toPrivateTxWrapper_eq_ok_iff.mpr ⟨sig, hsig, hnumbers, rfl⟩]
    rfl

/-- The status is written over it. -/
lemma toPrivateTxWrapper_withStatus (h : conn.toPrivateTxWrapper status tx = .ok w) :
    conn.toPrivateTxWrapper status' tx = .ok { w with transactionStatus := status' } := by
  obtain ⟨sig, hsig, hnumbers, rfl⟩ := toPrivateTxWrapper_eq_ok_iff.mp h
  refine toPrivateTxWrapper_eq_ok_iff.mpr ⟨sig, hsig, hnumbers, ?_⟩
  rw [wrapperOf, wrapperOf]
  cases tx.body <;> rfl

lemma resolves_send {fields : SendFields} (htx : tx.body = .send fields) : conn.Resolves tx ↔
    ∀ recipient, fields.recipient = some recipient →
      (conn.getOwnerFromAcc recipient tx.tokenType).isOk = true := by
  constructor
  · intro h recipient hrecipient
    exact h fields recipient htx hrecipient
  · intro h fields' recipient htx' hrecipient
    obtain rfl := TxBody.send.inj (htx.symm.trans htx')
    exact h recipient hrecipient

lemma isOk_showOwner (h : conn.toPrivateTxWrapper status tx = .ok w) :
    (conn.showOwner w).isOk = true ↔ conn.Resolves tx := by
  obtain ⟨sig, -, -, rfl⟩ := toPrivateTxWrapper_eq_ok_iff.mp h
  cases htx : tx.body with
  | store fields =>
      rw [wrapperOf, htx]
      refine iff_of_true rfl fun fields' recipient hsend _ => ?_
      rw [htx] at hsend
      cases hsend
  | send fields =>
      rw [resolves_send htx, wrapperOf, htx, showOwner]
      cases hrecipient : fields.recipient with
      | none => simp [hrecipient, Except.isOk, Except.toBool, pure, Except.pure]
      | some recipient =>
          simp only [hrecipient, Option.some.injEq, forall_eq']
          cases conn.getOwnerFromAcc recipient tx.tokenType <;> rfl

/-- What is wrapped, and the first one's status written over. -/
lemma forall₂_modifyHead {statusOf : ElusivTransaction → Option TransactionStatus}
    {txs : List ElusivTransaction} {wrapped : List PrivateTxWrapper}
    (h : List.Forall₂ (fun tx w => conn.toPrivateTxWrapper (statusOf tx) tx = .ok w) txs wrapped) :
    List.Forall₂ (fun tx w => ∃ status, conn.toPrivateTxWrapper status tx = .ok w) txs
      (wrapped.modifyHead fun w => { w with transactionStatus := status' }) := by
  cases h with
  | nil => exact List.Forall₂.nil
  | cons hw hws =>
      refine List.Forall₂.cons ⟨status', toPrivateTxWrapper_withStatus hw⟩ (hws.imp fun tx w hw => ?_)
      exact ⟨_, hw⟩

/-- The owners are looked up in what is wrapped. -/
lemma forall₂_showOwner {txs : List ElusivTransaction} {wrapped : List PrivateTxWrapper}
    (h : List.Forall₂ (fun tx w => ∃ status, conn.toPrivateTxWrapper status tx = .ok w) txs wrapped) :
    ∀ {ws : List PrivateTxWrapper}, wrapped.mapM conn.showOwner = .ok ws →
      List.Forall₂ conn.EntryOf txs ws := by
  induction h with
  | nil =>
      intro ws hws
      obtain rfl := Except.ok.inj hws
      exact List.Forall₂.nil
  | cons hw _ ih =>
      intro ws hws
      rw [List.mapM_cons] at hws
      obtain ⟨w', hw', hws⟩ := bind_eq_ok.mp hws
      obtain ⟨ws', hws', hws⟩ := bind_eq_ok.mp hws
      obtain rfl := Except.ok.inj hws
      obtain ⟨status, hw⟩ := hw
      exact List.Forall₂.cons ⟨status, _, hw, hw'⟩ (ih hws')

end ViewerConnection

section Call

variable {conn : ViewerConnection} {scheme : CommitmentScheme}
  {getTxsFromNonces : List (ℕ × Bool) → Except Failure (List ElusivTransaction)} {fuel count : ℕ}
  {tokenType : Option TokenType} {m m' : TxManager} {txs : List ElusivTransaction}

/-- **What a call returns**: an entry for each transaction that was fetched, when all of them can be shown
and an owner is found for every recipient. -/
theorem exec_getPrivateTransactions
    (hfetch : exec (fetchTxs getTxsFromNonces fuel count tokenType none) m = (.ok txs, m')) :
    ∃ r, exec (getPrivateTransactions conn scheme getTxsFromNonces fuel count tokenType) m = (r, m') ∧
      (r.isOk = true ↔ ∀ tx ∈ txs, conn.Shows tx ∧ conn.Resolves tx) ∧
      ∀ ws, r = .ok ws → List.Forall₂ conn.EntryOf txs ws := by
  rw [getPrivateTransactions, exec_bind, hfetch]
  cases txs with
  | nil => exact ⟨_, rfl, iff_of_true rfl (by simp), fun ws hws => by
      obtain rfl := Except.ok.inj hws
      exact List.Forall₂.nil⟩
  | cons latestTx rest =>
      simp only [exec_bind, exec_get, exec_lift]
      cases hwrapped : (latestTx :: rest).mapM fun tx => conn.toPrivateTxWrapper (m'.statusOf tx) tx with
      | error failure =>
          refine ⟨_, rfl, iff_of_false Bool.false_ne_true fun hall => ?_, fun ws hws => by cases hws⟩
          have hok := isOk_mapM.mpr fun tx htx =>
            @ViewerConnection.toPrivateTxWrapper_isOk conn (m'.statusOf tx) tx |>.mpr (hall tx htx).1
          rw [hwrapped] at hok
          exact Bool.false_ne_true hok
      | ok wrapped =>
          have hshows : ∀ tx ∈ latestTx :: rest, conn.Shows tx := by
            have hok : ((latestTx :: rest).mapM fun tx =>
                conn.toPrivateTxWrapper (m'.statusOf tx) tx).isOk = true := by
              rw [hwrapped]
              rfl
            exact fun tx htx => ViewerConnection.toPrivateTxWrapper_isOk.mp (isOk_mapM.mp hok tx htx)
          have hentries := fun status' => @ViewerConnection.forall₂_modifyHead conn status' _ _ _
            (forall₂_of_mapM_eq_ok hwrapped)
          refine ⟨_, rfl, ?_, fun ws hws => ViewerConnection.forall₂_showOwner (hentries _) hws⟩
          rw [isOk_mapM, forall₂_congr fun tx htx => and_iff_right (hshows tx htx)]
          refine (forall_mem_iff_of_forall₂ ?_ (hentries _)).symm
          rintro tx w ⟨status, hw⟩
          exact (ViewerConnection.isOk_showOwner hw).symm

end Call

/-! ## What was asked for -/

namespace ClientEvent

def topupAsked : ClientEvent → Option TopupRequest
  | .topup _ request _ _ _ _ => some request
  | _ => none

/-- What the chain took for a topup, and its signature. -/
def topupPaid : ClientEvent → Option (ℤ × ConfirmedSignatureInfo)
  | .topup _ _ _ fee signature _ | .topupMerged fee signature => some (fee, signature)
  | _ => none

/-- The send that is asked for, or the merge for a topup, and how a warden finalizes it. -/
def sendAsked (accs : ProgramAccounts) (owner : PublicKey) :
    ClientEvent → Option (SendRequest × FinalizeData)
  | .topup _ request _ _ _ data =>
      some (mergeRequest accs request.tokenType owner request.warden none, data)
  | .send request _ data => some (request, data)
  | _ => none

/-- The warden finalizes what it was asked to; 32 zeros stand for no reference key. -/
def finalizedAsAsked (accs : ProgramAccounts) (owner : PublicKey) (e : ClientEvent) : Bool :=
  (e.sendAsked accs owner).all fun asked =>
    asked.2.recipient == realRecipient asked.1 &&
      asked.2.refKey == asked.1.refKey.getD (ElusivTransaction.bareKey 0)

end ClientEvent

namespace Client

section Asked

variable {poseidon : Poseidon} (circuits : Circuits poseidon) (serialization : Serialization)
  (seedWrapper : SeedWrapper) (accs : ProgramAccounts) (owner : PublicKey) (events : List ClientEvent)

/-- The transaction was built as one of the events asked, and landed. -/
inductive AskedFor (sends : List (SendTx × ElusivTransaction)) : ElusivTransaction → Prop
  | topup {e e' : ClientEvent} {request : TopupRequest} {fee : ℤ} {signature : ConfirmedSignatureInfo}
      {params : FetchedParams} {mergeFee : Option ℤ} {storeTx : StoreTx} (asked : e ∈ events)
      (request_eq : e.topupAsked = some request) (paid : e' ∈ events)
      (payment_eq : e'.topupPaid = some (fee, signature))
      (built : buildTopup serialization seedWrapper accs poseidon request params mergeFee = .ok storeTx) :
      AskedFor sends (storeTx.landed fee signature)
  | send {e : ClientEvent} {request : SendRequest} {data : FinalizeData} {params : FetchedParams}
      {send : SendTx × Fee} {tx : ElusivTransaction} (asked : e ∈ events)
      (request_eq : e.sendAsked accs owner = some (request, data))
      (built : buildSend circuits serialization seedWrapper request params = .ok send)
      (landed : landedSend serialization seedWrapper send data = .ok tx)
      (sent : (send.1, tx) ∈ sends) : AskedFor sends tx

/-- Everything on the chain was asked for, and the topup that waits for its merge was, too. -/
structure AllAsked (s : Client) : Prop where
  merged : ∀ merged, s.merged = some merged → ∃ e ∈ events, e.topupAsked = some merged.request
  txs : ∀ n, ∀ tx ∈ s.chain.txsAt n,
    AskedFor circuits serialization seedWrapper accs owner events s.sends tx

variable {circuits serialization seedWrapper accs owner events} {s s' : Client}

lemma AskedFor.mono {sends sends' : List (SendTx × ElusivTransaction)} (hsub : sends ⊆ sends')
    {tx : ElusivTransaction}
    (h : AskedFor circuits serialization seedWrapper accs owner events sends tx) :
    AskedFor circuits serialization seedWrapper accs owner events sends' tx := by
  cases h with
  | topup he hrequest he' hpaid hbuilt => exact .topup he hrequest he' hpaid hbuilt
  | send he hrequest hbuilt hlanded hsent => exact .send he hrequest hbuilt hlanded (hsub hsent)

/-- No topup waits. -/
lemma merged_of_none (hnone : s.merged = none) :
    ∀ merged, s.merged = some merged → ∃ e ∈ events, e.topupAsked = some merged.request := by
  intro merged hmerged
  rw [hnone] at hmerged
  cases hmerged

lemma allAsked_start : AllAsked circuits serialization seedWrapper accs owner events start :=
  ⟨merged_of_none rfl, fun _ _ htx => absurd htx List.not_mem_nil⟩

lemma AllAsked.land (hs : AllAsked circuits serialization seedWrapper accs owner events s)
    {sends : List (SendTx × ElusivTransaction)} (hsub : s.sends ⊆ sends) {tx : ElusivTransaction}
    (htx : AskedFor circuits serialization seedWrapper accs owner events sends tx)
    {chain : History} (hgrow : s.chain.grow (.land tx 0) = some chain) :
    ∀ n, ∀ x ∈ chain.txsAt n,
      AskedFor circuits serialization seedWrapper accs owner events sends x := by
  intro n x hx
  rw [History.grow] at hgrow
  split_ifs at hgrow with hstatus
  obtain rfl := Option.some.inj hgrow
  rcases History.mem_land hx with rfl | hold
  · exact htx
  · exact (hs.txs n x hold).mono hsub

/-- A send that was asked for lands, or it does not. -/
lemma AllAsked.landSend (hs : AllAsked circuits serialization seedWrapper accs owner events s)
    {e : ClientEvent} (he : e ∈ events) {request : SendRequest} {data : FinalizeData}
    (hasked : e.sendAsked accs owner = some (request, data)) {params : FetchedParams}
    {send : SendTx × Fee}
    (hbuilt : buildSend circuits serialization seedWrapper request params = .ok send)
    {merged : Option MergedTopup}
    (hmerged : ∀ topup, merged = some topup → ∃ e ∈ events, e.topupAsked = some topup.request)
    (h : landSend serialization seedWrapper s send data merged = some s') :
    AllAsked circuits serialization seedWrapper accs owner events s' := by
  rcases landSend_cases h with rfl | ⟨tx, chain, hlanded, hgrow, rfl⟩
  · exact hs
  · exact ⟨hmerged, hs.land (List.subset_cons_self _ _)
      (.send he hasked hbuilt hlanded List.mem_cons_self) hgrow⟩

/-- **One step lands what its event asks for.** -/
lemma AllAsked.step (hs : AllAsked circuits serialization seedWrapper accs owner events s)
    {e : ClientEvent} (he : e ∈ events)
    (h : Client.step circuits serialization seedWrapper accs owner s e = some s') :
    AllAsked circuits serialization seedWrapper accs owner events s' := by
  cases e with
  | query q =>
      obtain rfl := Option.some.inj h
      exact ⟨hs.merged, hs.txs⟩
  | giveUp =>
      obtain rfl := Option.some.inj h
      exact ⟨merged_of_none rfl, hs.txs⟩
  | topup manualMerge request answers fee signature data =>
      rw [Client.step] at h
      split_ifs at h
      split at h
      · obtain rfl := Option.some.inj h
        exact ⟨hs.merged, hs.txs⟩
      · rename_i storeTx params m hexec
        obtain ⟨-, hbuilt⟩ := buildTopUpTx_eq_ok hexec
        obtain ⟨chain, hgrow, rfl⟩ := Option.map_eq_some_iff.mp h
        exact ⟨hs.merged, hs.land (List.Subset.refl _)
          (.topup he rfl he rfl (buildTopupOrMerge_topup hbuilt).2) hgrow⟩
      · rename_i send params m hexec
        obtain ⟨-, hbuilt⟩ := buildTopUpTx_eq_ok hexec
        have hs' : AllAsked circuits serialization seedWrapper accs owner events
            { s with manager := m } := ⟨hs.merged, hs.txs⟩
        refine hs'.landSend he rfl (buildTopupOrMerge_merge hbuilt) (fun topup htopup => ?_) h
        obtain rfl := Option.some.inj htopup
        exact ⟨_, he, rfl⟩
  | topupMerged fee signature =>
      obtain ⟨merged, hmerged, rfl | ⟨storeTx, hbuild, hland⟩⟩ := topupMerged_cases h
      · exact ⟨merged_of_none rfl, hs.txs⟩
      · obtain ⟨e₀, he₀, hasked⟩ := hs.merged merged hmerged
        obtain ⟨chain, hgrow, rfl⟩ := Option.map_eq_some_iff.mp hland
        exact ⟨merged_of_none rfl, hs.land (List.Subset.refl _)
          (.topup he₀ hasked he rfl hbuild) hgrow⟩
  | send request answers data =>
      rw [Client.step] at h
      split_ifs at h
      split at h
      · obtain rfl := Option.some.inj h
        exact ⟨hs.merged, hs.txs⟩
      · rename_i send m hexec
        obtain ⟨params, -, hbuilt⟩ := buildFetchedSend_eq_ok hexec
        have hs' : AllAsked circuits serialization seedWrapper accs owner events
            { s with manager := m } := ⟨hs.merged, hs.txs⟩
        refine hs'.landSend he rfl hbuilt (fun topup htopup => ?_) h
        cases htopup

/-- **Everything on the chain of a client was asked for.** -/
theorem askedFor_of_run
    (hrun : run (Client.step circuits serialization seedWrapper accs owner) start events = some s) :
    ∀ n, ∀ tx ∈ s.chain.txsAt n,
      AskedFor circuits serialization seedWrapper accs owner events s.sends tx := by
  have hallowed : Allowed (Client.step circuits serialization seedWrapper accs owner)
      (fun _ e => e ∈ events) start events := by
    refine allowed_iff.mpr ?_
    rintro es₁ e es₂ t rfl -
    simp
  exact (run_invariant (I := AllAsked circuits serialization seedWrapper accs owner events)
    (fun _ _ _ hs he hstep => hs.step he hstep) allAsked_start hallowed hrun).txs

end Asked

end Client

/-! ## What an entry says -/

namespace PrivateTxWrapper

/-- What an entry adds to the private balance. -/
def value (w : PrivateTxWrapper) : ℤ :=
  match w.details with
  | .topUp _ => w.amount
  | .send _ _ _ extraFee _ => -(w.amount + extraFee + w.fee)

/-- The entry of a topup. -/
structure TellsTopup (w : PrivateTxWrapper) (request : TopupRequest) (fee : ℤ)
    (signature : ConfirmedSignatureInfo) : Prop where
  amount_eq : (w.amount : ℚ) = request.amount
  fee_eq : w.fee = fee
  sig_eq : w.sig = signature
  tokenType_eq : w.tokenType = request.tokenType
  warden_eq : w.warden = some request.warden
  details_eq : w.details = .topUp (some request.owner)

/-- The entry of a send, whose build disclosed `fee`.  The rent of a missing account is in the amount. -/
structure TellsSend (w : PrivateTxWrapper) (conn : ViewerConnection) (request : SendRequest)
    (params : FetchedParams) (fee : Fee) (signature : ConfirmedSignatureInfo) : Prop where
  amount_eq : (w.amount : ℚ) = request.amount + chargedRent request params
  fee_eq : w.fee = getComputationFeeTotal fee.toBasicFee
  sig_eq : w.sig = signature
  tokenType_eq : w.tokenType = request.tokenType
  warden_eq : w.warden = some request.warden
  details_eq : ∃ taOwner,
    conn.getOwnerFromAcc (realRecipient request) request.tokenType = .ok taOwner ∧
    w.details = .send (some taOwner) request.isSolanaPayTransfer
      (request.refKey.filter fun refKey => refKey ≠ conn.systemProgramId) request.extraFee.amount
      signature.memo

end PrivateTxWrapper

namespace ViewerConnection

variable {conn : ViewerConnection} {tx : ElusivTransaction} {w : PrivateTxWrapper}
  {signature : ConfirmedSignatureInfo}

lemma EntryOf.store (h : conn.EntryOf tx w) (hsignature : tx.signature = some signature)
    {fields : StoreFields} (htx : tx.body = .store fields) :
    ∃ status, w = { txType := tx.txType, amount := tx.amount, fee := tx.fee, sig := signature,
                    tokenType := tx.tokenType, transactionStatus := status, warden := tx.warden,
                    nonce := tx.nonce, details := .topUp fields.sender } := by
  obtain ⟨status, wrapped, hwrapped, hw⟩ := h
  obtain ⟨sig, hsig, -, rfl⟩ := toPrivateTxWrapper_eq_ok_iff.mp hwrapped
  obtain rfl := Option.some.inj (hsignature.symm.trans hsig)
  rw [wrapperOf, htx] at hw
  obtain rfl := Except.ok.inj hw
  exact ⟨status, rfl⟩

lemma EntryOf.send (h : conn.EntryOf tx w) (hsignature : tx.signature = some signature)
    {fields : SendFields} (htx : tx.body = .send fields) {recipient : PublicKey}
    (hrecipient : fields.recipient = some recipient) :
    ∃ status taOwner, conn.getOwnerFromAcc recipient tx.tokenType = .ok taOwner ∧
      w = { txType := tx.txType, amount := tx.amount - fields.extraFee.amount, fee := tx.fee,
            sig := signature, tokenType := tx.tokenType, transactionStatus := status,
            warden := tx.warden, nonce := tx.nonce,
            details := .send (some taOwner) fields.isSolanaPayTransfer
              (fields.refKey.filter fun refKey => refKey ≠ conn.systemProgramId)
              fields.extraFee.amount fields.memo } := by
  obtain ⟨status, wrapped, hwrapped, hw⟩ := h
  obtain ⟨sig, hsig, -, rfl⟩ := toPrivateTxWrapper_eq_ok_iff.mp hwrapped
  obtain rfl := Option.some.inj (hsignature.symm.trans hsig)
  rw [wrapperOf, htx] at hw
  simp only [showOwner, hrecipient] at hw
  obtain ⟨taOwner, howner, hw⟩ := bind_eq_ok.mp hw
  obtain rfl := Except.ok.inj hw
  exact ⟨status, taOwner, howner, rfl⟩

end ViewerConnection

section Built

variable {poseidon : Poseidon} {circuits : Circuits poseidon} {serialization : Serialization}
  {seedWrapper : SeedWrapper} {accs : ProgramAccounts} {params : FetchedParams}

/-- What a topup takes over from its request. -/
lemma buildTopup_asked {request : TopupRequest} {mergeFee : Option ℤ} {storeTx : StoreTx}
    (h : buildTopup serialization seedWrapper accs poseidon request params mergeFee = .ok storeTx) :
    request.amount = storeTx.amount ∧ storeTx.tokenType = request.tokenType ∧
      storeTx.sender = request.owner ∧ storeTx.warden = request.warden := by
  obtain ⟨⟨store, fee⟩, hstore, h⟩ := bind_eq_ok.mp h
  obtain ⟨txData, -, h⟩ := bind_eq_ok.mp h
  obtain rfl := Except.ok.inj h
  have hbuilt := topupStore_spec hstore
  rw [topupStore] at hstore
  split at hstore
  · cases hstore
  obtain ⟨amount, -, hstore⟩ := bind_eq_ok.mp hstore
  rw [buildStoreTx] at hstore
  dsimp only at hstore
  split at hstore
  · cases hstore
  obtain ⟨storeFee, -, hstore⟩ := bind_eq_ok.mp hstore
  obtain ⟨rfl, rfl⟩ := Prod.mk.inj (Except.ok.inj hstore)
  exact ⟨hbuilt.amount_eq, rfl, rfl, rfl⟩

/-- What a send takes over from its request. -/
lemma buildSend_asked {request : SendRequest} {send : SendTx × Fee}
    (h : buildSend circuits serialization seedWrapper request params = .ok send) :
    send.1.tokenType = request.tokenType ∧ send.1.warden = request.warden ∧
      send.1.isSolanaPayTransfer = request.isSolanaPayTransfer ∧
      send.1.extraFee = request.extraFee := by
  obtain ⟨amount, -, h⟩ := bind_eq_ok.mp h
  rw [buildSendTx] at h
  dsimp only at h
  split_ifs at h
  obtain ⟨sendFee, -, h⟩ := bind_eq_ok.mp h
  obtain ⟨metadata, -, h⟩ := bind_eq_ok.mp h
  obtain ⟨proof, -, h⟩ := bind_eq_ok.mp h
  obtain rfl := Except.ok.inj h
  exact ⟨rfl, rfl, rfl, rfl⟩

/-- What a send takes over from its finalize transaction. -/
lemma landedSend_body {send : SendTx × Fee} {data : FinalizeData} {tx : ElusivTransaction}
    (h : landedSend serialization seedWrapper send data = .ok tx) :
    tx.signature = some data.signature ∧ tx.warden = some send.1.warden ∧
      ∃ fields, tx.body = .send fields ∧ fields.recipient = some data.recipient ∧
        fields.refKey = some data.refKey ∧ fields.memo = data.signature.memo ∧
        fields.isSolanaPayTransfer = send.1.isSolanaPayTransfer ∧ fields.extraFee = send.1.extraFee := by
  obtain ⟨json, -, h⟩ := bind_eq_ok.mp h
  obtain ⟨metadata, -, h⟩ := bind_eq_ok.mp h
  obtain rfl := Except.ok.inj h
  exact ⟨rfl, rfl, _, rfl, rfl, rfl, rfl, rfl, rfl⟩

end Built

namespace Client

section Entries

variable {poseidon : Poseidon} (circuits : Circuits poseidon) (serialization : Serialization)
  (seedWrapper : SeedWrapper) (accs : ProgramAccounts) (owner : PublicKey) (events : List ClientEvent)
  (sends : List (SendTx × ElusivTransaction)) (conn : ViewerConnection)

/-- The entry says what one of the events asked for.  The transaction of the entry is the one that was built
for this event, and the fee of a send is the one that its build disclosed. -/
inductive TellsAsked (tx : ElusivTransaction) (w : PrivateTxWrapper) : Prop
  | topup {e e' : ClientEvent} {request : TopupRequest} {fee : ℤ} {signature : ConfirmedSignatureInfo}
      {params : FetchedParams} {mergeFee : Option ℤ} {storeTx : StoreTx} (asked : e ∈ events)
      (request_eq : e.topupAsked = some request) (paid : e' ∈ events)
      (payment_eq : e'.topupPaid = some (fee, signature))
      (built : buildTopup serialization seedWrapper accs poseidon request params mergeFee = .ok storeTx)
      (landed : storeTx.landed fee signature = tx) (tells : w.TellsTopup request fee signature)
  | send {e : ClientEvent} {request : SendRequest} {data : FinalizeData} {params : FetchedParams}
      {send : SendTx × Fee} (asked : e ∈ events)
      (request_eq : e.sendAsked accs owner = some (request, data))
      (built : buildSend circuits serialization seedWrapper request params = .ok send)
      (landed : landedSend serialization seedWrapper send data = .ok tx) (sent : (send.1, tx) ∈ sends)
      (tells : w.TellsSend conn request params send.2 data.signature)

/-- The entry of a transaction. -/
structure Entry (tx : ElusivTransaction) (w : PrivateTxWrapper) : Prop where
  nonce_eq : w.nonce = tx.nonce
  tokenType_eq : w.tokenType = tx.tokenType
  value_eq : w.value = tx.value
  tells : TellsAsked circuits serialization seedWrapper accs owner events sends conn tx w

variable {circuits serialization seedWrapper accs owner events sends conn} {tx : ElusivTransaction}
  {w : PrivateTxWrapper}

lemma AskedFor.signature_isSome
    (h : AskedFor circuits serialization seedWrapper accs owner events sends tx) :
    tx.signature.isSome = true := by
  cases h with
  | topup => rfl
  | send _ _ _ hlanded => rw [(landedSend_body hlanded).1, Option.isSome_some]

/-- **The entry of what was asked for says so.**  32 zeros are the address of the system program. -/
theorem AskedFor.entry (h : AskedFor circuits serialization seedWrapper accs owner events sends tx)
    (hfinal : ∀ e ∈ events, e.finalizedAsAsked accs owner = true)
    (hsystem : conn.systemProgramId = ElusivTransaction.bareKey 0) (hw : conn.EntryOf tx w) :
    Entry circuits serialization seedWrapper accs owner events sends conn tx w := by
  cases h with
  | @topup e e' request fee signature params mergeFee storeTx he hrequest he' hpaid hbuilt =>
      obtain ⟨hamount, htoken, hsender, hwarden⟩ := buildTopup_asked hbuilt
      obtain ⟨status, rfl⟩ := hw.store rfl rfl
      refine ⟨rfl, rfl, rfl, .topup he hrequest he' hpaid hbuilt rfl
        ⟨hamount.symm, rfl, rfl, htoken, congrArg some hwarden, ?_⟩⟩
      rw [← hsender]
  | @send e request data params send _ he hrequest hbuilt hlanded hsent =>
      obtain ⟨htoken, hwarden, hpay, hextra⟩ := buildSend_asked hbuilt
      obtain ⟨hsignature, hwarden', fields, hbody, hrecipient, hrefKey, hmemo, hpay', hextra'⟩ :=
        landedSend_body hlanded
      have hlandedAs := (landedSend_eq_ok (fun _ _ => true) hbuilt hlanded).2.1
      have htokenType := hlandedAs.tokenType_eq.trans htoken
      obtain ⟨amount, hasked, -, hamount, -⟩ :=
        @buildSend_fees _ _ _ _ _ request send.1 send.2 hbuilt
      obtain ⟨hrecipientAsked, hrefKeyAsked⟩ : data.recipient = realRecipient request ∧
          data.refKey = request.refKey.getD (ElusivTransaction.bareKey 0) := by
        have hfinalized := hfinal e he
        rw [ClientEvent.finalizedAsAsked, hrequest] at hfinalized
        simpa using hfinalized
      obtain ⟨status, taOwner, howner, rfl⟩ := hw.send hsignature hbody hrecipient
      rw [hrecipientAsked, htokenType] at howner
      refine ⟨rfl, rfl, ?_, .send he hrequest hbuilt hlanded hsent
        ⟨?_, hlandedAs.fee_eq, rfl, htokenType, ?_, taOwner, howner, ?_⟩⟩
      · show -(tx.amount - fields.extraFee.amount + fields.extraFee.amount + tx.fee) = _
        rw [ElusivTransaction.value, hlandedAs.txType_eq]
        ring
      · show ((tx.amount - fields.extraFee.amount : ℤ) : ℚ) = _
        rw [hlandedAs.amount_eq, hamount, hextra', hextra, hasked]
        push_cast
        ring
      · rw [← hwarden]
        exact hwarden'
      · show WrapperDetails.send _ _ _ _ _ = _
        rw [hextra', hextra, hpay', hpay, hmemo, hrefKey, hrefKeyAsked, hsystem]
        cases request.refKey with
        | none => simp
        | some refKey => rfl

end Entries

end Client

/-! ## What the entries add up to -/

namespace History

variable {h : History} (hsingle : ∀ n, (h.txsAt n).length ≤ 1)
include hsingle

lemma matching_strict (tokenType : Option TokenType) (before : Option ℤ) :
    (h.matching tokenType before).Pairwise fun x y => y.nonce < x.nonce := by
  rw [(distinctHashes_of_single hsingle).matching_eq]
  exact (h.graded_tokenBucket tokenType).between_strict (length_tokenBucket_le hsingle tokenType) 0 _

/-- A call returns the newest matching transactions. -/
lemma fetchTxs_eq_take (hg : h.Gapless) (hlen : h.length ≤ MAX_UINT32) (count : ℕ)
    (tokenType : Option TokenType) (before : Option ℤ) :
    h.fetchTxs count tokenType before = (h.matching tokenType before).take count := by
  rw [hg.fetchTxs_eq hlen, ← (distinctHashes_of_single hsingle).matching_eq,
    takeGroups_eq_take (matching_strict hsingle tokenType before)]

/-- From the nonce of one of the newest on, all matching transactions are among these. -/
lemma filter_take_matching {count : ℕ} {tokenType : Option TokenType} {tx : ElusivTransaction}
    (htx : tx ∈ (h.matching tokenType none).take count) :
    ((h.matching tokenType none).take count).filter (fun x => tx.nonce ≤ x.nonce)
      = (h.matching tokenType none).filter fun x => tx.nonce ≤ x.nonce := by
  have hstrict := matching_strict hsingle tokenType none
  rw [← List.take_append_drop count (h.matching tokenType none)] at hstrict
  have hbelow := (List.pairwise_append.mp hstrict).2.2 tx htx
  conv_rhs => rw [← List.take_append_drop count (h.matching tokenType none), List.filter_append]
  have hnone : ((h.matching tokenType none).drop count).filter (fun x => tx.nonce ≤ x.nonce) = [] :=
    List.filter_eq_nil_iff.mpr fun x hx => by simpa using hbelow x hx
  rw [hnone, List.append_nil]

/-- **The balance before a transaction, and what is shown from there on, is the balance.** -/
lemma balanceBelow_add_shown {count : ℕ} {tokenType : Option TokenType} {t : TokenType}
    (ht : tokenType = none ∨ tokenType = some t) {tx : ElusivTransaction}
    (htx : tx ∈ (h.matching tokenType none).take count) :
    h.balanceBelow t tx.nonce + sumValue (((h.matching tokenType none).take count).filter fun x =>
      x.tokenType = t ∧ tx.nonce ≤ x.nonce) = h.balanceBelow t h.length := by
  have hlt : tx.nonce < h.length :=
    (h.graded_txsAt.mem_between.mp (List.mem_filter.mp (List.mem_of_mem_take htx)).1).2.1
  have hbefore : h.balanceBelow t tx.nonce
      = sumValue (((below h.txsAt h.length).filter fun x => x.hasToken (some t)).filter fun x =>
        x.nonce < tx.nonce) := by
    rw [balanceBelow, below, ← h.graded_txsAt.filter_lt_between (Nat.zero_le _) (Nat.le_of_lt hlt),
      List.filter_filter, List.filter_filter]
    exact congrArg sumValue (List.filter_congr fun x _ => Bool.and_comm _ _)
  have hshown : ((h.matching tokenType none).take count).filter (fun x =>
        x.tokenType = t ∧ tx.nonce ≤ x.nonce)
      = ((below h.txsAt h.length).filter fun x => x.hasToken (some t)).filter fun x =>
        !decide (x.nonce < tx.nonce) := by
    have hsplit := congrArg (List.filter fun x => x.tokenType = t) (filter_take_matching hsingle htx)
    rw [List.filter_filter, List.filter_filter, matching, List.filter_filter] at hsplit
    rw [List.filter_filter]
    refine (List.filter_congr fun x _ => ?_).trans (hsplit.trans (List.filter_congr fun x _ => ?_))
    · simp
    · refine Bool.eq_iff_iff.mpr ?_
      rcases ht with rfl | rfl <;> simp [ElusivTransaction.hasToken, and_comm]
  rw [hbefore, hshown, balanceBelow]
  exact sumValue_filter_add _ _

end History

namespace Client

section Told

variable {poseidon : Poseidon} (circuits : Circuits poseidon) (serialization : Serialization)
  (seedWrapper : SeedWrapper) (accs : ProgramAccounts) (tokens : TokenConnection) (owner : PublicKey)
  (scheme : CommitmentScheme) (s : Client) (events : List ClientEvent)

/-- What a call for the newest `count` transactions tells, whatever part of the chain is cached. -/
structure Told (m : TxManager) (fuel count : ℕ) (tokenType : Option TokenType) : Prop where
  /-- One number that cannot be shown, or one recipient without an owner, is enough for nothing to be
  told. -/
  readable_iff :
    (exec (getPrivateTransactions (viewerConnection accs tokens serialization) scheme s.chain.fetcher fuel
        count tokenType) m).1.isOk = true ↔
      ∀ tx ∈ (s.chain.matching tokenType none).take count,
        (∀ n ∈ tx.shownNumbers, (serialization.bigIntToNumber n).isOk = true) ∧
        ∀ fields recipient, tx.body = .send fields → fields.recipient = some recipient →
          tokens.KnowsOwner accs recipient tx.tokenType
  entries : ∀ ws m', exec (getPrivateTransactions (viewerConnection accs tokens serialization) scheme
      s.chain.fetcher fuel count tokenType) m = (.ok ws, m') →
    List.Forall₂ (Entry circuits serialization seedWrapper accs owner events s.sends
      (viewerConnection accs tokens serialization)) ((s.chain.matching tokenType none).take count) ws
  /-- From an entry on, the history adds up to the balance. -/
  balance : ∀ ws m', exec (getPrivateTransactions (viewerConnection accs tokens serialization) scheme
      s.chain.fetcher fuel count tokenType) m = (.ok ws, m') →
    ∀ t, tokenType = none ∨ tokenType = some t → ∀ w ∈ ws, ∃ before now m₁,
      exec (getPrivateBalance s.chain.fetcher fuel t (some (w.nonce : ℤ))) m' = (.ok before, m₁) ∧
      (exec (getPrivateBalance s.chain.fetcher fuel t none) m₁).1 = .ok now ∧ 0 ≤ before ∧
      now = before + ((ws.filter fun x => x.tokenType = t ∧ w.nonce ≤ x.nonce).map
        PrivateTxWrapper.value).sum

variable {circuits serialization seedWrapper accs tokens owner scheme s events}

lemma sum_value_of_entries {conn : ViewerConnection} {txs : List ElusivTransaction}
    {ws : List PrivateTxWrapper}
    (h : List.Forall₂ (Entry circuits serialization seedWrapper accs owner events s.sends conn) txs ws)
    (t : TokenType) (n : ℕ) : ((ws.filter fun x => x.tokenType = t ∧ n ≤ x.nonce).map
      PrivateTxWrapper.value).sum = sumValue (txs.filter fun x => x.tokenType = t ∧ n ≤ x.nonce) := by
  induction h with
  | nil => rfl
  | @cons tx w txs ws hentry _ ih =>
      rw [List.filter_cons, List.filter_cons, hentry.tokenType_eq, hentry.nonce_eq]
      split_ifs
      · rw [List.map_cons, List.sum_cons, ih, hentry.value_eq, sumValue_cons]
      · exact ih

lemma exists_of_mem_entries {conn : ViewerConnection} {txs : List ElusivTransaction}
    {ws : List PrivateTxWrapper}
    (h : List.Forall₂ (Entry circuits serialization seedWrapper accs owner events s.sends conn) txs ws)
    {w : PrivateTxWrapper} (hw : w ∈ ws) : ∃ tx ∈ txs, w.nonce = tx.nonce := by
  obtain ⟨i, hi, rfl⟩ := List.getElem_of_mem hw
  have hi' : i < txs.length := h.length_eq ▸ hi
  exact ⟨_, List.getElem_mem hi', (h.get hi' hi).nonce_eq⟩

/-- **What the history of a client tells.**  A call returns exactly when an owner is found for each
recipient and all numbers can be shown.  Its entries say what was asked for, and from each of them on they
add up to the private balance. -/
theorem told {hasCommitment : Bytes → ℕ → Bool}
    (hsep : (seedWrapper.commitmentScheme poseidon hasCommitment).Separates)
    (hrun : run (Client.step circuits serialization seedWrapper accs owner) start events = some s)
    (hlen : s.chain.length ≤ MAX_UINT32)
    (hfinal : ∀ e ∈ events, e.finalizedAsAsked accs owner = true)
    (hsystem : accs.systemProgramId = ElusivTransaction.bareKey 0)
    {m : TxManager} (hm : Coherent s.chain m) {fuel : ℕ} (hfuel : s.chain.enoughFuel ≤ fuel)
    (count : ℕ) (tokenType : Option TokenType) :
    Told circuits serialization seedWrapper accs tokens owner
      (seedWrapper.commitmentScheme poseidon hasCommitment) s events m fuel count tokenType := by
  have hchain := (kept_of_run hsep hrun hlen).chain
  have hasked := askedFor_of_run hrun
  have hgaps : s.chain.GapsBelow DEFAULT_FETCH_BATCH_SIZE := hchain.gapless.gapsBelow (by decide)
  have hmem : ∀ tx ∈ (s.chain.matching tokenType none).take count, tx ∈ s.chain.txs :=
    fun tx htx => (List.mem_filter.mp (List.mem_of_mem_take htx)).1
  obtain ⟨txs, m', hfetch, htxs, hm'⟩ := (fetchTxs_spec hm hgaps hfuel count tokenType none).run rfl
  rw [History.fetchTxs_eq_take hchain.single hchain.gapless hlen] at htxs
  subst htxs
  obtain ⟨r, hexec, hok, hentries⟩ := @exec_getPrivateTransactions
    (viewerConnection accs tokens serialization) (seedWrapper.commitmentScheme poseidon hasCommitment)
    _ _ _ _ _ _ _ hfetch
  have hforall : ∀ ws, r = .ok ws → List.Forall₂ (Entry circuits serialization seedWrapper accs owner
      events s.sends (viewerConnection accs tokens serialization))
        ((s.chain.matching tokenType none).take count) ws := by
    intro ws hws
    refine ((List.forall₂_and_left _ _).mpr ⟨hmem, hentries ws hws⟩).imp fun tx w hw => ?_
    exact (hasked _ tx (History.mem_txs.mp hw.1)).entry hfinal hsystem hw.2
  refine ⟨?_, ?_, ?_⟩
  · rw [hexec, hok]
    refine forall₂_congr fun tx htx => and_congr ?_ ?_
    · exact and_iff_right (hasked _ tx (History.mem_txs.mp (hmem tx htx))).signature_isSome
    · exact forall₄_congr fun fields recipient _ _ => getOwnerFromAcc_isOk_iff
  · intro ws m₁ hws
    rw [hexec] at hws
    exact hforall ws (Prod.mk.inj hws).1
  · intro ws m₁ hws t ht w hw
    rw [hexec] at hws
    obtain ⟨hr, rfl⟩ := Prod.mk.inj hws
    have hall := hforall ws hr
    obtain ⟨tx, htx, hnonce⟩ := exists_of_mem_entries hall hw
    have hbalance : ∀ {m₁ : TxManager}, Coherent s.chain m₁ → ∀ before, ∃ m₂,
        exec (getPrivateBalance s.chain.fetcher fuel t before) m₁
          = (.ok (s.chain.balanceBelow t (s.chain.top before)), m₂) ∧ Coherent s.chain m₂ := by
      intro m₁ hm₁ before
      obtain ⟨balance, m₂, hrun, rfl, hm₂⟩ :=
        (getPrivateBalanceFromMetadata_spec t hchain.gapless hlen hchain.distinctHashes
          (History.oneSendPerNonce_of_single hchain.single) hchain.metadataBalances hm₁
          (show 0 < DEFAULT_FETCH_BATCH_SIZE by decide) hfuel before).run rfl
      exact ⟨m₂, hrun, hm₂⟩
    obtain ⟨m₁, hbefore, hm₁⟩ := hbalance (FetchedAndMarked.coherent hm') (some (w.nonce : ℤ))
    obtain ⟨m₂, hnow, -⟩ := hbalance hm₁ none
    refine ⟨_, _, m₁, hbefore, congrArg Prod.fst hnow, hchain.balanceBelow_nonneg t _, ?_⟩
    have hlt := History.lt_length_of_mem_txs (hmem tx htx)
    have htop : s.chain.top (some (w.nonce : ℤ)) = tx.nonce := by
      rw [hnonce]
      show min s.chain.length (tx.nonce : ℤ).toNat = _
      omega
    have htopNone : s.chain.top none = s.chain.length := Nat.min_self _
    rw [htop, htopNone, sum_value_of_entries hall, hnonce]
    exact (History.balanceBelow_add_shown hchain.single ht htx).symm

end Told

/-! ### A history with a merge -/

/-- Four topups, a fifth one after a merge, and a send, all of them finalized as asked. -/
def historyRun : List ClientEvent :=
  let answers : Answers := ⟨plainParams 0 [], fun _ _ => true⟩
  let finalized (recipient : PublicKey) : FinalizeData :=
    { recipient := recipient, refKey := ElusivTransaction.bareKey 0
      owner := ElusivTransaction.bareKey 12
      encryptedOwner := { cipherText := [], iv := [] }, signature := ⟨"finalize", none, none⟩ }
  let topup (amount : ℚ) : ClientEvent := .topup false (plainTopupRequest amount) answers 0
    ⟨"store", none, none⟩ (finalized plainAccounts.systemProgramId)
  [topup 1000000, topup 2000000, topup 3000000, topup 4000000, topup 5000000,
    .topupMerged 0 ⟨"store", none, none⟩,
    .send (plainSendRequest 700000) answers (finalized (ElusivTransaction.bareKey 14))]

/-- No token account is open any more. -/
def closedAccounts : TokenConnection where
  getAccount := fun _ => .error .tokenAccountNotFound
  isOnCurve := fun _ => false

/-- Lamports need no token account, so the call returns. -/
theorem told_historyRun : ∃ s, run openStep start historyRun = some s ∧ s.chain.length = 7 ∧
    Told openCircuits plainSerialization plainSeed plainAccounts closedAccounts
      (ElusivTransaction.bareKey 12) openScheme s historyRun s.manager s.chain.enoughFuel 7
      (some .LAMPORTS) ∧
    (exec (getPrivateTransactions (viewerConnection plainAccounts closedAccounts plainSerialization)
      openScheme s.chain.fetcher s.chain.enoughFuel 7 (some .LAMPORTS)) s.manager).1.isOk = true := by
  have hsome : ((run openStep start historyRun).map fun s => (s.chain.length, s.chain.txs.all fun tx =>
      tx.shownNumbers.all fun n => (plainSerialization.bigIntToNumber n).isOk)) = some (7, true) := by
    decide +kernel
  obtain ⟨s, hrun, hs⟩ := Option.map_eq_some_iff.mp hsome
  obtain ⟨hlength, hsafe⟩ := Prod.mk.inj hs
  have hlen : s.chain.length ≤ MAX_UINT32 := by
    rw [hlength]
    decide
  have htold := @told _ _ plainSerialization _ plainAccounts closedAccounts _ _ _ _
    separates_openScheme hrun hlen (by decide +kernel) rfl s.manager
    (kept_of_run separates_openScheme hrun hlen).coherent _ (Nat.le_refl _) 7 (some .LAMPORTS)
  refine ⟨s, hrun, hlength, htold, htold.readable_iff.mpr fun tx htx => ⟨fun n hn => ?_, ?_⟩⟩
  · simp only [List.all_eq_true] at hsafe
    exact hsafe tx (List.mem_filter.mp (List.mem_of_mem_take htx)).1 n hn
  · intro fields recipient _ _
    have htoken := (List.mem_filter.mp (List.mem_of_mem_take htx)).2
    exact Or.inl (by simpa [ElusivTransaction.hasToken] using htoken)

end Client

end ElusivSdk
