import ElusivSdk.Chain.Growth
import ElusivSdk.Library.Transition
import ElusivSdk.ParamManagers.ConfirmedMarks
import ElusivSdk.TxBuilding.Circuits

/-!
# The status of private transactions

`getPrivateTransactions` asks the tree about the newest transaction only.  The status of the others is
what `fetchTxs` and `getActiveTxs` wrote into the cached objects: the former marks all but the first
transaction it returns as confirmed, the latter marks the first one too, before anything is known about
it.

* `getPrivateTransactions` — the translated method.
* `Viewer.step` — the chain grows, a commitment is inserted, or a call ends or throws.
* **`Viewer.getPrivateTransactions_confirmed`** — a transaction is reported as confirmed only if its
  commitment is inserted or a larger nonce is in use, when no call reads a nonce too early.
* `Viewer.getPrivateTransactions_early` — a call that throws because the newest transaction is not
  inserted has marked it.
-/

namespace ElusivSdk

open Descending Program Transition

/-! ## Wrapped transactions -/

inductive WrapperDetails
  | topUp (origin : Option PublicKey)
  | send (recipient : Option PublicKey) (isSolanaPayTransfer : Bool) (reference : Option PublicKey)
      (extraFee : ℤ) (memo : Option String)
deriving DecidableEq

/-- What an application is told about a transaction. -/
structure PrivateTxWrapper where
  txType : TxTypes
  amount : ℤ
  fee : ℤ
  sig : ConfirmedSignatureInfo
  tokenType : TokenType
  transactionStatus : Option TransactionStatus
  warden : Option PublicKey
  nonce : ℕ
  details : WrapperDetails
deriving DecidableEq

/-- What the viewer takes from elsewhere. -/
structure ViewerConnection where
  serialization : Serialization
  systemProgramId : PublicKey
  getOwnerFromAcc : PublicKey → TokenType → Except Failure PublicKey

namespace ViewerConnection

variable (conn : ViewerConnection)

/-- `transactionStatus` is what the field of the object reads. -/
def toPrivateTxWrapper (transactionStatus : Option TransactionStatus) (tx : ElusivTransaction) :
    Except Failure PrivateTxWrapper :=
  match tx.signature with
  | none => .error (.error "Missing signature, should never happen")
  | some sig =>
      let wrap := fun (amount fee : ℤ) (details : WrapperDetails) =>
        { txType := tx.txType, amount := amount, fee := fee, sig := sig, tokenType := tx.tokenType,
          transactionStatus := transactionStatus, warden := tx.warden, nonce := tx.nonce,
          details := details : PrivateTxWrapper }
      match tx.body with
      | .store fields => do
          let amount ← conn.serialization.bigIntToNumber tx.amount
          let fee ← conn.serialization.bigIntToNumber tx.fee
          pure (wrap amount fee (.topUp fields.sender))
      | .send fields => do
          let amount ← conn.serialization.bigIntToNumber (tx.amount - fields.extraFee.amount)
          let fee ← conn.serialization.bigIntToNumber tx.fee
          let extraFee ← conn.serialization.bigIntToNumber fields.extraFee.amount
          let reference := fields.refKey.filter fun refKey => refKey ≠ conn.systemProgramId
          pure (wrap amount fee
            (.send fields.recipient fields.isSolanaPayTransfer reference extraFee fields.memo))

/-- The recipient of a send is shown as the owner of the token account. -/
def showOwner (tx : PrivateTxWrapper) : Except Failure PrivateTxWrapper :=
  match tx.details with
  | .send (some recipient) isSolanaPayTransfer reference extraFee memo => do
      let taOwner ← conn.getOwnerFromAcc recipient tx.tokenType
      pure { tx with details := .send (some taOwner) isSolanaPayTransfer reference extraFee memo }
  | _ => pure tx

end ViewerConnection

/-- The tree is asked about the first transaction. -/
def getPrivateTransactions (conn : ViewerConnection) (scheme : CommitmentScheme)
    (getTxsFromNonces : List (ℕ × Bool) → Except Failure (List ElusivTransaction)) (fuel count : ℕ)
    (tokenType : Option TokenType) : ManagerM (List PrivateTxWrapper) := do
  let txs ← fetchTxs getTxsFromNonces fuel count tokenType none
  match txs with
  | [] => pure []
  | latestTx :: _ =>
      let m ← get
      let res ← lift (txs.mapM fun tx => conn.toPrivateTxWrapper (m.statusOf tx) tx)
      let latestStatus :=
        if scheme.hasCommitment latestTx.commitmentHash latestTx.merkleStartIndex
        then some .CONFIRMED else m.statusOf latestTx
      let res := res.modifyHead fun tx => { tx with transactionStatus := latestStatus }
      lift (res.mapM conn.showOwner)

/-- The numbers of a transaction that are shown. -/
def ElusivTransaction.shownNumbers (tx : ElusivTransaction) : List ℤ :=
  match tx.body with
  | .store _ => [tx.amount, tx.fee]
  | .send fields => [tx.amount - fields.extraFee.amount, tx.fee, fields.extraFee.amount]

namespace ViewerConnection

/-- What a transaction is shown as when its numbers can be shown. -/
def wrapperOf (conn : ViewerConnection) (status : Option TransactionStatus) (sig : ConfirmedSignatureInfo)
    (tx : ElusivTransaction) : PrivateTxWrapper :=
  let wrap := fun (amount : ℤ) (details : WrapperDetails) =>
    { txType := tx.txType, amount := amount, fee := tx.fee, sig := sig, tokenType := tx.tokenType,
      transactionStatus := status, warden := tx.warden, nonce := tx.nonce,
      details := details : PrivateTxWrapper }
  match tx.body with
  | .store fields => wrap tx.amount (.topUp fields.sender)
  | .send fields => wrap (tx.amount - fields.extraFee.amount)
      (.send fields.recipient fields.isSolanaPayTransfer
        (fields.refKey.filter fun refKey => refKey ≠ conn.systemProgramId) fields.extraFee.amount fields.memo)

variable {conn : ViewerConnection} {status : Option TransactionStatus} {tx : ElusivTransaction}
  {w w' : PrivateTxWrapper}

/-- A transaction is shown exactly when it is signed and its numbers can be shown. -/
lemma toPrivateTxWrapper_eq_ok_iff : conn.toPrivateTxWrapper status tx = .ok w ↔
    ∃ sig, tx.signature = some sig ∧
      (∀ n ∈ tx.shownNumbers, conn.serialization.bigIntToNumber n = .ok n) ∧
      w = conn.wrapperOf status sig tx := by
  have hexact := @Serialization.bigIntToNumber_exact conn.serialization
  simp only [toPrivateTxWrapper, wrapperOf, ElusivTransaction.shownNumbers]
  cases tx.signature with
  | none => simp
  | some sig =>
      cases tx.body with
      | store fields =>
          constructor
          · intro h
            obtain ⟨amount, hamount, h⟩ := bind_eq_ok.mp h
            obtain ⟨fee, hfee, h⟩ := bind_eq_ok.mp h
            obtain rfl := Except.ok.inj h
            obtain rfl := hexact hamount
            obtain rfl := hexact hfee
            exact ⟨sig, rfl, by simp [hamount, hfee], rfl⟩
          · rintro ⟨sig', hsig, hnumbers, rfl⟩
            obtain rfl := Option.some.inj hsig
            obtain ⟨hamount, hnumbers⟩ := List.forall_mem_cons.mp hnumbers
            have hfee := List.forall_mem_singleton.mp hnumbers
            exact bind_eq_ok.mpr ⟨_, hamount, bind_eq_ok.mpr ⟨_, hfee, rfl⟩⟩
      | send fields =>
          constructor
          · intro h
            obtain ⟨amount, hamount, h⟩ := bind_eq_ok.mp h
            obtain ⟨fee, hfee, h⟩ := bind_eq_ok.mp h
            obtain ⟨extraFee, hextraFee, h⟩ := bind_eq_ok.mp h
            obtain rfl := Except.ok.inj h
            obtain rfl := hexact hamount
            obtain rfl := hexact hfee
            obtain rfl := hexact hextraFee
            exact ⟨sig, rfl, by simp [hamount, hfee, hextraFee], rfl⟩
          · rintro ⟨sig', hsig, hnumbers, rfl⟩
            obtain rfl := Option.some.inj hsig
            obtain ⟨hamount, hnumbers⟩ := List.forall_mem_cons.mp hnumbers
            obtain ⟨hfee, hnumbers⟩ := List.forall_mem_cons.mp hnumbers
            have hextraFee := List.forall_mem_singleton.mp hnumbers
            exact bind_eq_ok.mpr ⟨_, hamount, bind_eq_ok.mpr ⟨_, hfee,
              bind_eq_ok.mpr ⟨_, hextraFee, rfl⟩⟩⟩

/-- A wrapper shows the nonce and the signature of its transaction, and the status it was given. -/
lemma toPrivateTxWrapper_spec (h : conn.toPrivateTxWrapper status tx = .ok w) :
    w.nonce = tx.nonce ∧ some w.sig = tx.signature ∧ w.transactionStatus = status := by
  obtain ⟨sig, hsig, -, rfl⟩ := toPrivateTxWrapper_eq_ok_iff.mp h
  rw [hsig, wrapperOf]
  cases tx.body <;> exact ⟨rfl, rfl, rfl⟩

lemma showOwner_spec (h : conn.showOwner w = .ok w') :
    w'.nonce = w.nonce ∧ w'.sig = w.sig ∧ w'.transactionStatus = w.transactionStatus := by
  rw [showOwner] at h
  split at h
  · obtain ⟨taOwner, -, h⟩ := bind_eq_ok.mp h
    obtain rfl := Except.ok.inj h
    exact ⟨rfl, rfl, rfl⟩
  · obtain rfl := Except.ok.inj h
    exact ⟨rfl, rfl, rfl⟩

end ViewerConnection

/-! ## Calls and a growing chain -/

structure Viewer where
  chain : History
  scheme : CommitmentScheme
  manager : TxManager

inductive ViewerCall
  | fetchTxs (count : ℕ) (tokenType : Option TokenType) (before : Option ℤ)
  | getActiveTxs (tokenType : TokenType) (beforeSend : Option ElusivTransaction)
  | getActiveCommitments (tokenType : TokenType) (beforeSend : Option ElusivTransaction)

inductive ViewerEvent
  | grow (g : Growth)
  /-- A commitment is inserted in the tree. -/
  | insert (commitmentHash : Bytes) (index : ℕ)
  /-- A call ends or throws; one that is out of fuel stops where it is. -/
  | call (fuel : ℕ) (c : ViewerCall)

/-- The tree with one more commitment. -/
def CommitmentScheme.insert (scheme : CommitmentScheme) (commitmentHash : Bytes) (index : ℕ) :
    CommitmentScheme :=
  { scheme with hasCommitment := fun hash startIndex =>
      (hash == commitmentHash && decide (startIndex ≤ index)) || scheme.hasCommitment hash startIndex }

namespace Viewer

/-- Is the commitment of the transaction in the tree? -/
def inserted (s : Viewer) (tx : ElusivTransaction) : Bool :=
  s.scheme.hasCommitment tx.commitmentHash tx.merkleStartIndex

/-- The manager that a call leaves. -/
def afterCall (s : Viewer) (fuel : ℕ) : ViewerCall → TxManager
  | .fetchTxs count tokenType before =>
      (exec (ElusivSdk.fetchTxs s.chain.fetcher fuel count tokenType before) s.manager).2
  | .getActiveTxs tokenType beforeSend =>
      (exec (ElusivSdk.getActiveTxs s.chain.fetcher fuel tokenType beforeSend) s.manager).2
  | .getActiveCommitments tokenType beforeSend =>
      (exec (s.scheme.getActiveCommitments s.chain.fetcher fuel tokenType beforeSend) s.manager).2

def step (s : Viewer) : ViewerEvent → Option Viewer
  | .grow g => do
      let chain ← s.chain.grow g
      some { s with chain := chain }
  | .insert commitmentHash index => some { s with scheme := s.scheme.insert commitmentHash index }
  | .call fuel c => some { s with manager := s.afterCall fuel c }

/-- What a call marks of the newest nonce is inserted: everything it can return of that nonce, but for
`fetchTxs` the first. -/
def NotEarly (s : Viewer) : ViewerCall → Prop
  | .fetchTxs count tokenType before => count = 0 ∨
      ∀ tx ∈ (s.chain.onNewest s.manager tokenType before).dropLast, s.inserted tx = true
  | .getActiveTxs tokenType beforeSend | .getActiveCommitments tokenType beforeSend =>
      ∀ tx ∈ s.chain.onNewest s.manager (some tokenType)
        (beforeSend.map fun send => (send.nonce : ℤ)), s.inserted tx = true

def NoEarlyCall (s : Viewer) : ViewerEvent → Prop
  | .call _ c => s.NotEarly c
  | _ => True

instance (s : Viewer) : ∀ e, Decidable (NoEarlyCall s e)
  | .grow _ => inferInstanceAs (Decidable True)
  | .insert _ _ => inferInstanceAs (Decidable True)
  | .call _ (.fetchTxs _ _ _) => inferInstanceAs (Decidable (_ ∨ _))
  | .call _ (.getActiveTxs _ _) => inferInstanceAs (Decidable (∀ tx ∈ _, _))
  | .call _ (.getActiveCommitments _ _) => inferInstanceAs (Decidable (∀ tx ∈ _, _))

/-- The marks of the manager are sound. -/
def Ok (s : Viewer) : Prop := MarksSound s.chain s.inserted s.manager

lemma Ok.afterCall {s : Viewer} (hs : s.Ok) (fuel : ℕ) {c : ViewerCall} (hc : s.NotEarly c) :
    MarksSound s.chain s.inserted (s.afterCall fuel c) := by
  cases c with
  | fetchTxs count tokenType before =>
      exact (fetchTxs_marks hs fuel hc).store (fun _ _ hq => hq.1) (fun _ _ he => he) rfl
  | getActiveTxs tokenType beforeSend =>
      exact (getActiveTxs_marks hs fuel hc).store (fun _ _ hq => hq.1) (fun _ _ he => he) rfl
  | getActiveCommitments tokenType beforeSend =>
      exact (s.scheme.getActiveCommitments_marks fuel hs hc).store (fun _ _ hq => hq)
        (fun _ _ he => he) rfl

lemma Ok.step {s s' : Viewer} (hs : s.Ok) {e : ViewerEvent} (he : NoEarlyCall s e)
    (hstep : s.step e = some s') : s'.Ok := by
  cases e with
  | grow g =>
      obtain ⟨chain, hg, hstep⟩ := Option.bind_eq_some_iff.mp hstep
      obtain rfl := Option.some.inj hstep
      have hlen := (History.grow_spec hg).1
      refine ⟨fun n hn => ?_, hs.not_confirmed, hs.cached, fun n tx htx hk => ?_⟩
      · have := hs.lt_length n hn
        show n < chain.length
        omega
      · refine (hs.marks n tx htx hk).imp_right fun hlt => ?_
        show n + 1 < chain.length
        omega
  | insert commitmentHash index =>
      obtain rfl := Option.some.inj hstep
      refine ⟨hs.lt_length, hs.not_confirmed, hs.cached, fun n tx htx hk => ?_⟩
      refine (hs.marks n tx htx hk).imp_left fun hin => ?_
      exact Bool.or_eq_true_iff.mpr (Or.inr hin)
  | call fuel c =>
      obtain rfl := Option.some.inj hstep
      exact hs.afterCall fuel he

/-- The viewer of a wallet at its start. -/
def start (h : History) (scheme : CommitmentScheme) : Viewer := ⟨h, scheme, .new⟩

/-- What `getPrivateTransactions` returns now. -/
def reported (s : Viewer) (conn : ViewerConnection) (fuel count : ℕ)
    (tokenType : Option TokenType) : Except Failure (List PrivateTxWrapper) :=
  (exec (getPrivateTransactions conn s.scheme s.chain.fetcher fuel count tokenType) s.manager).1

/-- The wrapper belongs to the transaction, and it is reported as confirmed only if it is inserted or a
larger nonce is in use. -/
def RightlyReported (s : Viewer) (tx : ElusivTransaction) (w : PrivateTxWrapper) : Prop :=
  w.nonce = tx.nonce ∧ some w.sig = tx.signature ∧
    (w.transactionStatus = some .CONFIRMED →
      s.inserted tx = true ∨ ∃ n, tx.nonce < n ∧ s.chain.txsAt n ≠ [])

lemma RightlyReported.of_marks {s : Viewer} {m : TxManager}
    (hm : MarksSound s.chain s.inserted m) {tx : ElusivTransaction}
    (htx : tx ∈ m.bucket tx.nonce) {conn : ViewerConnection} {w : PrivateTxWrapper}
    (hw : conn.toPrivateTxWrapper (m.statusOf tx) tx = .ok w) : s.RightlyReported tx w := by
  obtain ⟨hnonce, hsig, hstatus⟩ := ViewerConnection.toPrivateTxWrapper_spec hw
  refine ⟨hnonce, hsig, fun hconf => ?_⟩
  rw [hstatus, TxManager.statusOf] at hconf
  split_ifs at hconf with hmark
  · refine (hm.marks _ tx htx hmark).imp_right fun hlt => ?_
    exact ⟨s.chain.length - 1, by omega, s.chain.ne_nil_of_newest _ (by omega)⟩
  · exact absurd hconf (hm.not_confirmed _ tx htx)

lemma RightlyReported.showOwners {s : Viewer} {conn : ViewerConnection}
    {txs : List ElusivTransaction} {ws : List PrivateTxWrapper}
    (h : List.Forall₂ s.RightlyReported txs ws) :
    ∀ {res : List PrivateTxWrapper}, ws.mapM conn.showOwner = .ok res →
      List.Forall₂ s.RightlyReported txs res := by
  induction h with
  | nil =>
      intro res hres
      obtain rfl := Except.ok.inj hres
      exact List.Forall₂.nil
  | cons hw hws ih =>
      intro res hres
      rw [List.mapM_cons] at hres
      obtain ⟨w', hw', hres⟩ := bind_eq_ok.mp hres
      obtain ⟨ws', hws', hres⟩ := bind_eq_ok.mp hres
      obtain rfl := Except.ok.inj hres
      obtain ⟨hnonce, hsig, hstatus⟩ := ViewerConnection.showOwner_spec hw'
      refine List.Forall₂.cons ?_ (ih hws')
      rw [RightlyReported, hnonce, hsig, hstatus]
      exact hw

/-- One report. -/
lemma Ok.getPrivateTransactions {s : Viewer} (hs : s.Ok) {conn : ViewerConnection} {fuel count : ℕ}
    {tokenType : Option TokenType} (hc : s.NotEarly (.fetchTxs count tokenType none))
    {res : List PrivateTxWrapper} (hres : s.reported conn fuel count tokenType = .ok res) :
    ∃ txs, (exec (fetchTxs s.chain.fetcher fuel count tokenType none) s.manager).1 = .ok txs ∧
      List.Forall₂ s.RightlyReported txs res := by
  have hfetch := fetchTxs_marks hs fuel hc s.manager rfl
  rw [reported, ElusivSdk.getPrivateTransactions, exec_bind] at hres
  rcases hexec : exec (fetchTxs s.chain.fetcher fuel count tokenType none) s.manager with ⟨e | txs, m⟩
  · rw [hexec] at hres
    exact nomatch hres
  · rw [hexec] at hres hfetch
    obtain ⟨hm, m₁, hsel, rfl⟩ := hfetch
    refine ⟨txs, rfl, ?_⟩
    cases txs with
    | nil =>
        obtain rfl := Except.ok.inj hres
        exact List.Forall₂.nil
    | cons latestTx rest =>
        have hin : ∀ tx ∈ latestTx :: rest, tx ∈ (m₁.setAllConfirmed rest).bucket tx.nonce := by
          intro tx htx
          rw [TxManager.setAllConfirmed_bucket]
          exact hsel.cached tx htx
        simp only [exec_bind, exec_get, exec_lift] at hres
        split at hres
        · rename_i wrapped _ hwrapped
          obtain ⟨hmap, rfl⟩ := Prod.mk.inj hwrapped
          cases forall₂_of_mapM_eq_ok hmap with
          | cons hw hws =>
              refine RightlyReported.showOwners (List.Forall₂.cons ?_ ?_) hres
              · -- the status of the first one is looked up in the tree
                have hold := RightlyReported.of_marks hm (hin latestTx List.mem_cons_self) hw
                refine ⟨hold.1, hold.2.1, fun hconf => ?_⟩
                dsimp only at hconf
                split_ifs at hconf with htree
                · exact Or.inl htree
                · refine hold.2.2 ?_
                  rw [(ViewerConnection.toPrivateTxWrapper_spec hw).2.2]
                  exact hconf
              · refine ((List.forall₂_and_left rest _).mpr ⟨fun tx htx => ?_, hws⟩).imp
                  fun tx w hw => RightlyReported.of_marks hm hw.1 hw.2
                exact hin tx (List.mem_cons_of_mem _ htx)
        · exact nomatch hres

/-- **A transaction is reported as confirmed only if its commitment is inserted or a larger nonce is in
use**, after every run in which no call marks a transaction of the newest nonce that is not inserted. -/
theorem getPrivateTransactions_confirmed {h₀ : History} {scheme : CommitmentScheme}
    {es : List ViewerEvent} {s : Viewer} (hrun : run step (start h₀ scheme) es = some s)
    (hearly : Allowed step NoEarlyCall (start h₀ scheme) es) {conn : ViewerConnection}
    {fuel count : ℕ} {tokenType : Option TokenType}
    (hc : s.NotEarly (.fetchTxs count tokenType none)) {res : List PrivateTxWrapper}
    (hres : s.reported conn fuel count tokenType = .ok res) :
    ∃ txs, (exec (fetchTxs s.chain.fetcher fuel count tokenType none) s.manager).1 = .ok txs ∧
      List.Forall₂ s.RightlyReported txs res := by
  have hstart : (start h₀ scheme).Ok := marksSound_new h₀ _
  have hs : s.Ok := run_invariant (I := Ok) (fun _ _ _ hs he hstep => hs.step he hstep) hstart
    hearly hrun
  exact hs.getPrivateTransactions hc hres

/-! ### A call that throws -/

/-- A tree without commitments; commitments are hashed to their nullifiers. -/
def emptyTree : CommitmentScheme :=
  { generateNullifier := fun nonce => [(nonce + 1).toUInt8], getCommitmentHash := fun c => c.nullifier,
    hasCommitment := fun _ _ => false }

def plainConnection : ViewerConnection :=
  { serialization := plainSerialization, systemProgramId := ElusivTransaction.bareKey 0,
    getOwnerFromAcc := fun acc _ => .ok acc }

/-- One topup that is not inserted yet. -/
def freshTopup : Viewer :=
  start (.ofList [.bareTopup 0 .LAMPORTS 5 1] (by decide)) emptyTree

def confirmedTopup : PrivateTxWrapper :=
  { txType := .TOPUP, amount := 5, fee := 0, sig := ⟨"1", none, none⟩, tokenType := .LAMPORTS,
    transactionStatus := some .CONFIRMED, warden := some (ElusivTransaction.bareKey 0), nonce := 0,
    details := .topUp (some (ElusivTransaction.bareKey 0)) }

/-- After the insertion the call is not early. -/
def insertedTopup : Viewer :=
  (run step freshTopup [.insert [1] 0, .call 100 (.getActiveCommitments .LAMPORTS none)]).get
    (by decide +kernel)

theorem getPrivateTransactions_confirmed_inserted :
    ∃ txs, (exec (fetchTxs insertedTopup.chain.fetcher 100 1 none none) insertedTopup.manager).1
        = .ok txs ∧ List.Forall₂ insertedTopup.RightlyReported txs [confirmedTopup] := by
  have hcall : NoEarlyCall insertedTopup (.call 100 (.fetchTxs 1 none none)) := by decide +kernel
  have hres : insertedTopup.reported plainConnection 100 1 none = .ok [confirmedTopup] := by
    decide +kernel
  exact getPrivateTransactions_confirmed (Option.some_get _).symm (by decide +kernel) hcall hres

/-- **A topup that is not inserted is reported as confirmed**, after a call of `getActiveCommitments` that
throws because it is not inserted. -/
theorem getPrivateTransactions_early :
    (exec (emptyTree.getActiveCommitments freshTopup.chain.fetcher 100 .LAMPORTS none)
        freshTopup.manager).1 = .error STILL_WAITING ∧
      ((run step freshTopup [.call 100 (.getActiveCommitments .LAMPORTS none)]).map fun s =>
        ((s.reported plainConnection 100 1 none).map fun res =>
          res.map fun w => (w.nonce, w.transactionStatus)))
        = some (.ok [(0, some .CONFIRMED)]) ∧
      emptyTree.hasCommitment [1] 0 = false ∧ freshTopup.chain.length = 1 := by
  refine ⟨?_, ?_, rfl, rfl⟩
  · decide +kernel
  · decide +kernel

end Viewer

end ElusivSdk
