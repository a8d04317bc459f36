import ElusivSdk.ParamManagers.ActiveCommitments
import ElusivSdk.ParamManagers.CommitmentInsertion
import ElusivSdk.Public.SendTracking
import ElusivSdk.TxManagers.CacheCoherence

/-!
# The promise of a tracked send

`sendElusivTxWithTracking` returns a promise at once.  It waits for the commitment of the transaction, and then
`findSig` looks for the transaction among the newest ones, up to 120 times.  Meanwhile the chain grows, and
other calls use the same manager.

* `ElusivTxData.isFoundIn` — what a round of `findSig` makes of the transactions it fetched.
* `TrackedSend.step` — the chain, the manager, the polls for the commitment and the rounds of `findSig`.
* `History.Shows` — the transaction is among the newest five of the chain.
* `TrackedSend.Good` — what every step keeps.
* **`TrackedSend.tracked`** — the promise resolves exactly when a round finds the transaction on chain, and
  the next build then starts above its nonce; it never resolves with `false`.
-/

namespace ElusivSdk

open Descending Program TransactionBuilding Transition

namespace ElusivTxData

def txType : ElusivTxData → TxTypes
  | send _ => .SEND
  | topup _ => .TOPUP

/-- `privTxs.find(...)` succeeds for the transaction, and for the merge before a topup that has one. -/
def isFoundIn (txData : ElusivTxData) (privTxs : List ElusivTransaction) : Bool :=
  let matchingSig := privTxs.find? fun tx => (tx.nonce : ℤ) = txData.currNonce ∧ tx.txType = txData.txType
  let mergeTx :=
    if txData.isMerge then
      privTxs.find? fun tx => (tx.nonce : ℤ) = txData.lastNonce + 1 ∧ tx.txType = .SEND
    else none
  matchingSig.isSome && (!txData.isMerge || mergeTx.isSome)

/-- A round of `findSig`, up to the sleep after it. -/
def findSigRound (txData : ElusivTxData)
    (getTxsFromNonces : List (ℕ × Bool) → Except Failure (List ElusivTransaction)) (fuel : ℕ) :
    ManagerM Bool := do
  let privTxs ← fetchTxs getTxsFromNonces fuel 5 none none
  pure (txData.isFoundIn privTxs)

end ElusivTxData

/-! ## The system -/

structure TrackedSend where
  node : ManagedChain
  /-- The commitment of the transaction is in the tree. -/
  inserted : Bool
  wait : InsertionWait
  /-- The rounds of `findSig` that are over. -/
  looks : ℕ
  /-- The outcome of `commitmentInsertionPromise`, once it is settled. -/
  promise : Option (Except Failure Bool)

inductive TrackedEvent
  /-- The chain grows, or another call on the manager completes. -/
  | manager (e : ManagerEvent)
  | insert
  | poll (e : PollEvent)
  /-- A round of `findSig`. -/
  | look

def TrackedEvent.isLook : TrackedEvent → Bool
  | look => true
  | _ => false

namespace TrackedSend

def MAX_CALLS : ℕ := 120

/-- `10 * 60 * 1000`. -/
def INSERTION_TIMEOUT : ℤ := 600000

def start (node : ManagedChain) : TrackedSend :=
  { node := node, inserted := false, wait := .start, looks := 0, promise := none }

/-- `findSig` runs: the commitment was found. -/
def Looking (s : TrackedSend) : Prop := s.wait.settled = some (.ok true) ∧ s.promise = none

instance (s : TrackedSend) : Decidable s.Looking := inferInstanceAs (Decidable (_ ∧ _))

/-- The error names the first nonce of the data.  A signature is an object, and may be missing. -/
def couldNotFind (rvk : RVKWrapper) (elusivTxSig : Option ConfirmedSignatureInfo) (txData : ElusivTxData) :
    Failure :=
  let sig := if elusivTxSig.isSome then "[object Object]" else "undefined"
  let idKey := rvk.getIdentifierKey (txData.lastNonce + 1).toNat
  .error ("Could not find sig " ++ sig ++ " for key " ++ idKey.toBase58 ++ " after sending")

section System

variable (rvk : RVKWrapper) (elusivTxSig : Option ConfirmedSignatureInfo) (txData : ElusivTxData)

/-- The wait was rejected, and so is the promise. -/
def onPoll (s : TrackedSend) (wait : InsertionWait) : TrackedSend :=
  match wait.settled with
  | some (.error failure) => { s with wait := wait, promise := some (.error failure) }
  | _ => { s with wait := wait }

/-- A round of `findSig` is over; the last one that finds nothing rejects the promise. -/
def onLook (s : TrackedSend) (found : Except Failure Bool) (manager : TxManager) : TrackedSend :=
  let s := { s with node := { s.node with manager := manager }, looks := s.looks + 1 }
  match found with
  | .error failure => { s with promise := some (.error failure) }
  | .ok true => { s with promise := some (.ok true) }
  | .ok false =>
      if s.looks = MAX_CALLS then { s with promise := some (.error (couldNotFind rvk elusivTxSig txData)) }
      else s

/-- The answer to a poll that the commitment is there is not given before it is. -/
def step (s : TrackedSend) : TrackedEvent → Option TrackedSend
  | .manager e => do
      let node ← s.node.step e
      some { s with node := node }
  | .insert => some { s with inserted := true }
  | .poll e =>
      if e = .ended (.ok true) ∧ s.inserted = false then none
      else do
        let wait ← s.wait.step 500 INSERTION_TIMEOUT e
        some (s.onPoll wait)
  | .look =>
      if s.Looking then
        let (found, manager) := exec (txData.findSigRound s.node.chain.fetcher s.node.fuel) s.node.manager
        some (s.onLook rvk elusivTxSig txData found manager)
      else none

/-- What arrives on the chain continues it, on nonces of 32 bits that are not cached. -/
def Arrives (s : TrackedSend) : TrackedEvent → Prop
  | .manager (.grow g) => s.node.manager.bucket g.nonce = [] ∧ g.nonce ≤ s.node.chain.length ∧
      g.nonce < MAX_UINT32
  | _ => True

instance (s : TrackedSend) : ∀ e, Decidable (Arrives s e)
  | .manager (.grow _) => inferInstanceAs (Decidable (_ ∧ _))
  | .manager (.call _) | .insert | .poll _ | .look => inferInstanceAs (Decidable True)

end System

end TrackedSend

/-! ## What a round finds -/

/-- A transaction of the type and nonce has fewer than five others on the nonces above it. -/
def History.Shows (h : History) (txType : TxTypes) (nonce : ℕ) : Prop :=
  (∃ tx ∈ h.bucket nonce, tx.txType = txType) ∧ (between h.bucket (nonce + 1) h.length).length < 5

instance (h : History) (txType : TxTypes) (nonce : ℕ) : Decidable (h.Shows txType nonce) :=
  inferInstanceAs (Decidable (_ ∧ _))

/-- The transaction that was built on `nonce` is shown, and the merge before it. -/
def ElusivTxData.Visible (txData : ElusivTxData) (nonce : ℕ) (h : History) : Prop :=
  h.Shows txData.txType nonce ∧ (txData.isMerge = true → h.Shows .SEND (nonce - 1))

instance (txData : ElusivTxData) (nonce : ℕ) (h : History) : Decidable (txData.Visible nonce h) :=
  inferInstanceAs (Decidable (_ ∧ _))

namespace History

variable {h : History}

/-- The newest five are those with fewer than five above them. -/
lemma mem_newest (hg : h.Gapless) (hlen : h.length ≤ MAX_UINT32) {count : ℕ} {tx : ElusivTransaction} :
    tx ∈ h.fetchTxs count none none ↔
      tx ∈ h.bucket tx.nonce ∧ (between h.bucket (tx.nonce + 1) h.length).length < count := by
  have htoken : h.tokenBucket none = h.bucket := funext fun n => List.filter_eq_self.mpr fun _ _ => rfl
  have habove : (below h.bucket h.length).filter (fun y => tx.nonce < y.nonce)
      = between h.bucket (tx.nonce + 1) h.length := by
    rw [← h.graded_bucket.filter_le_between (Nat.zero_le (tx.nonce + 1))]
    exact List.filter_congr fun y _ => decide_eq_decide.mpr Nat.lt_iff_add_one_le
  rw [hg.fetchTxs_eq hlen, htoken, show h.top none = h.length from Nat.min_self _,
    mem_takeGroups_iff (h.graded_bucket.between_pairwise 0 h.length), habove, h.graded_bucket.mem_between]
  constructor
  · rintro ⟨⟨-, -, hmem⟩, hfew⟩
    exact ⟨hmem, hfew⟩
  · rintro ⟨hmem, hfew⟩
    exact ⟨⟨Nat.zero_le _, h.lt_length_of_bucket_ne_nil (List.ne_nil_of_mem hmem), hmem⟩, hfew⟩

lemma shows_iff (hg : h.Gapless) (hlen : h.length ≤ MAX_UINT32) {txType : TxTypes} {nonce : ℕ} :
    h.Shows txType nonce ↔ ∃ tx ∈ h.fetchTxs 5 none none, tx.nonce = nonce ∧ tx.txType = txType := by
  constructor
  · rintro ⟨⟨tx, htx, htype⟩, hfew⟩
    obtain rfl := h.graded_bucket nonce tx htx
    exact ⟨tx, (mem_newest hg hlen).mpr ⟨htx, hfew⟩, rfl, htype⟩
  · rintro ⟨tx, htx, rfl, htype⟩
    obtain ⟨hmem, hfew⟩ := (mem_newest hg hlen).mp htx
    exact ⟨⟨tx, hmem, htype⟩, hfew⟩

end History

/-- **A round of `findSig` finds what is visible.** -/
lemma ElusivTxData.isFoundIn_iff {txData : ElusivTxData} {nonce : ℕ} (hlast : -1 ≤ txData.lastNonce)
    (hnonce : txData.currNonce = nonce) {h : History} (hg : h.Gapless) (hlen : h.length ≤ MAX_UINT32) :
    txData.isFoundIn (h.fetchTxs 5 none none) = true ↔ txData.Visible nonce h := by
  rw [Visible, History.shows_iff hg hlen, History.shows_iff hg hlen, isFoundIn, Bool.and_eq_true,
    List.find?_isSome, hnonce]
  refine and_congr (by simp) ?_
  rw [currNonce] at hnonce
  cases hmerge : txData.isMerge with
  | false => simp
  | true =>
      rw [hmerge, if_pos rfl] at hnonce
      have hbefore : ∀ tx : ElusivTransaction,
          (tx.nonce : ℤ) = txData.lastNonce + 1 ↔ tx.nonce = nonce - 1 := by
        omega
      rw [if_pos rfl, Bool.not_true, Bool.false_or, List.find?_isSome]
      simp only [hbefore, decide_eq_true_eq, forall_const]

/-- Nonces start at 0. -/
lemma ElusivTxData.BuiltOn.neg_one_le {poseidon : Poseidon} {circuits : Circuits poseidon}
    {serialization : Serialization} {seedWrapper : SeedWrapper} {accs : ProgramAccounts}
    {txData : ElusivTxData} {nonce : ℕ}
    (h : txData.BuiltOn circuits serialization seedWrapper accs nonce) : -1 ≤ txData.lastNonce := by
  cases h with
  | @send request params sendTx fee hnonce hbuilt =>
      show -1 ≤ (sendTx.nonce : ℤ) - 1
      omega
  | topup hnonce hbuilt hdata =>
      obtain ⟨rawTx, -, hdata⟩ := bind_eq_ok.mp hdata
      obtain rfl := Except.ok.inj hdata
      exact hnonce

namespace TrackedSend

/-! ## What every step keeps -/

/-- The chain has no gaps, its nonces have 32 bits, and the manager agrees with it. -/
structure NodeOk (node : ManagedChain) : Prop where
  gapless : node.chain.Gapless
  length_le : node.chain.length ≤ MAX_UINT32
  coherent : Coherent node.chain node.manager

section Runs

variable {rvk : RVKWrapper} {elusivTxSig : Option ConfirmedSignatureInfo} {txData : ElusivTxData}
  {nonce : ℕ} {s s' : TrackedSend}

lemma NodeOk.gaps {node : ManagedChain} (h : NodeOk node) :
    node.chain.GapsBelow DEFAULT_FETCH_BATCH_SIZE := h.gapless.gapsBelow (by decide)

lemma NodeOk.step {e : ManagerEvent} {node' : ManagedChain} (h : NodeOk s.node)
    (he : Arrives s (.manager e)) (hstep : s.node.step e = some node') :
    NodeOk node' ∧ s.node.chain.length ≤ node'.chain.length := by
  cases e with
  | grow g =>
      obtain ⟨huncached, hle, hsmall⟩ := he
      obtain ⟨chain, hgrow, hstep⟩ := Option.bind_eq_some_iff.mp hstep
      obtain rfl := Option.some.inj hstep
      obtain ⟨hlength, -, -⟩ := History.grow_spec hgrow
      have hlen := h.length_le
      refine ⟨⟨h.gapless.grow hgrow hle, ?_, h.coherent.grow hgrow huncached⟩, ?_⟩
      · show chain.length ≤ MAX_UINT32
        omega
      · show s.node.chain.length ≤ chain.length
        omega
  | call q =>
      obtain ⟨txs, m, hexec, -, hc⟩ := (q.alone_spec h.coherent h.gaps (Nat.le_refl s.node.fuel)).run rfl
      rw [ManagedChain.step, hexec] at hstep
      obtain rfl := Option.some.inj hstep
      exact ⟨⟨h.gapless, h.length_le, hc⟩, Nat.le_refl _⟩

/-- How the promise ends: with the wait, or with the last round of `findSig`. -/
inductive Ended (rvk : RVKWrapper) (elusivTxSig : Option ConfirmedSignatureInfo) (txData : ElusivTxData)
    (nonce : ℕ) (s : TrackedSend) : Except Failure Bool → Prop
  | timedOut (hwait : s.wait.settled = some (.error InsertionWait.TIMED_OUT)) :
      Ended rvk elusivTxSig txData nonce s (.error InsertionWait.TIMED_OUT)
  | found (hwait : s.wait.settled = some (.ok true)) (hchain : nonce < s.node.chain.length) :
      Ended rvk elusivTxSig txData nonce s (.ok true)
  | notFound (hwait : s.wait.settled = some (.ok true)) (hlooks : s.looks = MAX_CALLS) :
      Ended rvk elusivTxSig txData nonce s (.error (couldNotFind rvk elusivTxSig txData))

structure Good (rvk : RVKWrapper) (elusivTxSig : Option ConfirmedSignatureInfo) (txData : ElusivTxData)
    (nonce : ℕ) (s : TrackedSend) : Prop where
  node : NodeOk s.node
  /-- A wait that is resolved found the commitment, and asks no more. -/
  resolved : ∀ b, s.wait.settled = some (.ok b) → b = true ∧ s.inserted = true ∧ s.wait.running = false
  /-- A wait that is rejected has rejected the promise. -/
  rejected : ∀ failure, s.wait.settled = some (.error failure) →
    failure = InsertionWait.TIMED_OUT ∧ s.promise = some (.error failure)
  /-- `findSig` runs after the wait. -/
  idle : s.wait.settled ≠ some (.ok true) → s.looks = 0
  ended : ∀ outcome, s.promise = some outcome → Ended rvk elusivTxSig txData nonce s outcome
  looking : s.promise = none → s.looks < MAX_CALLS

lemma good_start {node : ManagedChain} (hnode : NodeOk node) :
    Good rvk elusivTxSig txData nonce (start node) where
  node := hnode
  resolved b hb := by cases hb
  rejected failure hfailure := by cases hfailure
  idle _ := rfl
  ended outcome h := by cases h
  looking _ := show 0 < MAX_CALLS by decide

/-- A round of `findSig` looks at the chain. -/
lemma Good.round (hs : Good rvk elusivTxSig txData nonce s) (hlast : -1 ≤ txData.lastNonce)
    (hnonce : txData.currNonce = nonce) (hstep : step rvk elusivTxSig txData s .look = some s') :
    s.Looking ∧ ∃ manager, Coherent s.node.chain manager ∧
      s' = s.onLook rvk elusivTxSig txData (.ok (txData.Visible nonce s.node.chain)) manager := by
  rw [step] at hstep
  split_ifs at hstep with hlooking
  obtain ⟨txs, m, hexec, rfl, hm⟩ := (fetchTxs_spec hs.node.coherent hs.node.gaps
    (Nat.le_refl s.node.fuel) 5 none none).run rfl
  have hround : exec (txData.findSigRound s.node.chain.fetcher s.node.fuel) s.node.manager
      = (.ok (txData.isFoundIn (s.node.chain.fetchTxs 5 none none)), m) :=
    exec_bind_eq_ok.mpr ⟨_, m, hexec, rfl⟩
  rw [hround] at hstep
  refine ⟨hlooking, m, hm.coherent, ?_⟩
  rw [← Option.some.inj hstep]
  congr
  rw [Bool.eq_iff_iff, decide_eq_true_eq]
  exact ElusivTxData.isFoundIn_iff hlast hnonce hs.node.gapless hs.node.length_le

/-- The wait goes on, and the promise is settled when it is rejected. -/
lemma Good.poll (hs : Good rvk elusivTxSig txData nonce s) {e : PollEvent}
    (hstep : step rvk elusivTxSig txData s (.poll e) = some s') :
    Good rvk elusivTxSig txData nonce s' ∧
      (s'.promise = s.promise ∨ s.promise = none ∧ s'.promise = some (.error InsertionWait.TIMED_OUT)) ∧
      s'.looks = s.looks := by
  rw [step] at hstep
  split_ifs at hstep with hearly
  obtain ⟨wait, hwait, hstep⟩ := Option.bind_eq_some_iff.mp hstep
  obtain rfl := Option.some.inj hstep
  rcases InsertionWait.settled_cases hwait with ⟨hkeep, hrunning⟩ | ⟨hopen, hnow⟩
  · -- the outcome stays, and a rejected wait has rejected the promise before
    have hsame : s.onPoll wait = { s with wait := wait } := by
      rw [onPoll]
      split
      · rename_i failure hfailure
        rw [← (hs.rejected failure (hkeep ▸ hfailure)).2]
      · rfl
    rw [hsame]
    refine ⟨⟨hs.node, fun b hb => ?_, fun failure hfailure => ?_, fun hne => ?_, fun outcome ho => ?_,
      hs.looking⟩, .inl rfl, rfl⟩
    · obtain ⟨htrue, hinserted, hoff⟩ := hs.resolved b (hkeep ▸ hb)
      refine ⟨htrue, hinserted, ?_⟩
      by_contra hon
      rw [Bool.not_eq_false] at hon
      rw [hrunning hon] at hoff
      contradiction
    · exact hs.rejected failure (hkeep ▸ hfailure)
    · refine hs.idle ?_
      rwa [← hkeep]
    · rcases hs.ended outcome ho with hold | ⟨hold, hchain⟩ | ⟨hold, hlooks⟩
      · exact .timedOut (hkeep.trans hold)
      · exact .found (hkeep.trans hold) hchain
      · exact .notFound (hkeep.trans hold) hlooks
  · -- nothing was decided before
    have hnone : s.promise = none := by
      by_contra hsome
      obtain ⟨outcome, houtcome⟩ := Option.ne_none_iff_exists'.mp hsome
      rcases hs.ended outcome houtcome with hold | ⟨hold, -⟩ | ⟨hold, -⟩
      all_goals
        rw [hopen] at hold
        cases hold
    have hlooks : s.looks = 0 := hs.idle (by rw [hopen]; exact nofun)
    rcases hnow with ⟨rfl, hoff, hresolved⟩ | hrejected
    · have hinserted : s.inserted = true := by
        by_contra hnot
        exact hearly ⟨rfl, Bool.eq_false_of_not_eq_true hnot⟩
      have hsame : s.onPoll wait = { s with wait := wait } := by
        rw [onPoll, hresolved]
      rw [hsame]
      refine ⟨⟨hs.node, fun b hb => ?_, fun failure hfailure => ?_, fun hne => hlooks, fun outcome ho => ?_,
        hs.looking⟩, .inl rfl, rfl⟩
      · have hb : wait.settled = some (.ok b) := hb
        rw [hresolved] at hb
        exact ⟨(Except.ok.inj (Option.some.inj hb)).symm, hinserted, hoff⟩
      · have hfailure : wait.settled = some (.error failure) := hfailure
        rw [hresolved] at hfailure
        cases hfailure
      · have ho : s.promise = some outcome := ho
        rw [hnone] at ho
        cases ho
    · have hsame : s.onPoll wait
          = { s with wait := wait, promise := some (.error InsertionWait.TIMED_OUT) } := by
        rw [onPoll, hrejected]
      rw [hsame]
      refine ⟨⟨hs.node, fun b hb => ?_, fun failure hfailure => ?_, fun hne => hlooks, fun outcome ho => ?_,
        fun ho => ?_⟩, .inr ⟨hnone, rfl⟩, rfl⟩
      · have hb : wait.settled = some (.ok b) := hb
        rw [hrejected] at hb
        cases hb
      · have hfailure : wait.settled = some (.error failure) := hfailure
        rw [hrejected] at hfailure
        obtain rfl := Except.error.inj (Option.some.inj hfailure)
        exact ⟨rfl, rfl⟩
      · obtain rfl := Option.some.inj ho
        exact .timedOut hrejected
      · cases ho

/-- Rounds of `findSig` end the promise with what is visible, or go on. -/
lemma Good.look (hs : Good rvk elusivTxSig txData nonce s) (hlast : -1 ≤ txData.lastNonce)
    (hnonce : txData.currNonce = nonce) (hstep : step rvk elusivTxSig txData s .look = some s') :
    Good rvk elusivTxSig txData nonce s' ∧ s.promise = none ∧ s'.looks = s.looks + 1 ∧
      (s'.promise = some (.ok true) ↔ txData.Visible nonce s.node.chain) := by
  obtain ⟨⟨hwait, hnone⟩, m, hm, rfl⟩ := hs.round hlast hnonce hstep
  have hlooks := hs.looking hnone
  have hnode : NodeOk { s.node with manager := m } := ⟨hs.node.gapless, hs.node.length_le, hm⟩
  have hopen : ∀ failure, s.wait.settled ≠ some (.error failure) := by
    intro failure hfailure
    rw [hwait] at hfailure
    cases hfailure
  by_cases hvisible : txData.Visible nonce s.node.chain
  · have hchain : nonce < s.node.chain.length := by
      obtain ⟨⟨⟨tx, htx, -⟩, -⟩, -⟩ := hvisible
      exact s.node.chain.lt_length_of_bucket_ne_nil (List.ne_nil_of_mem htx)
    rw [decide_eq_true hvisible]
    refine ⟨⟨hnode, hs.resolved, fun failure hfailure => absurd hfailure (hopen failure),
      fun hne => absurd hwait hne, fun outcome ho => ?_, fun ho => ?_⟩, hnone, rfl,
      iff_of_true rfl hvisible⟩
    · obtain rfl := Option.some.inj ho
      exact .found hwait hchain
    · cases ho
  · rw [decide_eq_false hvisible, onLook]
    dsimp only
    split_ifs with hmax
    · refine ⟨⟨hnode, hs.resolved, fun failure hfailure => absurd hfailure (hopen failure),
        fun hne => absurd hwait hne, fun outcome ho => ?_, fun ho => ?_⟩, hnone, rfl,
        iff_of_false nofun hvisible⟩
      · obtain rfl := Option.some.inj ho
        exact .notFound hwait hmax
      · cases ho
    · refine ⟨⟨hnode, hs.resolved, fun failure hfailure => absurd hfailure (hopen failure),
        fun hne => absurd hwait hne, fun outcome ho => ?_, fun _ => ?_⟩, hnone, rfl, ?_⟩
      · have ho : s.promise = some outcome := ho
        rw [hnone] at ho
        cases ho
      · exact Nat.lt_of_le_of_ne hlooks hmax
      · refine iff_of_false ?_ hvisible
        rw [show ({ s with node := { s.node with manager := m }, looks := s.looks + 1 } : TrackedSend).promise
          = s.promise from rfl, hnone]
        exact nofun

/-- **One step**: the promise resolves in a round that finds the transaction, and stays as it is settled. -/
lemma Good.step (hs : Good rvk elusivTxSig txData nonce s) (hlast : -1 ≤ txData.lastNonce)
    (hnonce : txData.currNonce = nonce) {e : TrackedEvent} (he : Arrives s e)
    (hstep : step rvk elusivTxSig txData s e = some s') :
    Good rvk elusivTxSig txData nonce s' ∧
      (s'.promise = some (.ok true) ↔ s.promise = some (.ok true) ∨
        e = .look ∧ txData.Visible nonce s.node.chain) ∧
      s'.looks = s.looks + [e].countP TrackedEvent.isLook := by
  cases e with
  | manager e =>
      obtain ⟨node, hnode, hstep⟩ := Option.bind_eq_some_iff.mp hstep
      obtain rfl := Option.some.inj hstep
      obtain ⟨hok, hle⟩ := hs.node.step he hnode
      refine ⟨⟨hok, hs.resolved, hs.rejected, hs.idle, fun outcome ho => ?_, hs.looking⟩, by simp, rfl⟩
      rcases hs.ended outcome ho with hold | ⟨hold, hchain⟩ | ⟨hold, hlooks⟩
      · exact .timedOut hold
      · exact .found hold (Nat.lt_of_lt_of_le hchain hle)
      · exact .notFound hold hlooks
  | insert =>
      obtain rfl := Option.some.inj hstep
      refine ⟨⟨hs.node, fun b hb => ?_, hs.rejected, hs.idle, fun outcome ho => ?_, hs.looking⟩, by simp, rfl⟩
      · obtain ⟨htrue, -, hoff⟩ := hs.resolved b hb
        exact ⟨htrue, rfl, hoff⟩
      · rcases hs.ended outcome ho with hold | ⟨hold, hchain⟩ | ⟨hold, hlooks⟩
        · exact .timedOut hold
        · exact .found hold hchain
        · exact .notFound hold hlooks
  | poll e =>
      obtain ⟨hgood, hpromise, hlooks⟩ := hs.poll hstep
      refine ⟨hgood, ?_, hlooks⟩
      rcases hpromise with hkeep | ⟨hnone, hnow⟩
      · simp [hkeep]
      · simp [hnone, hnow]
  | look =>
      obtain ⟨hgood, hnone, hlooks, hiff⟩ := hs.look hlast hnonce hstep
      refine ⟨hgood, ?_, hlooks⟩
      rw [hiff, hnone]
      simp

/-! ## Whole runs -/

/-- The two errors are different: their texts start differently. -/
lemma couldNotFind_ne_timedOut : couldNotFind rvk elusivTxSig txData ≠ InsertionWait.TIMED_OUT := by
  intro heq
  have htext := congrArg String.toList (Failure.error.inj heq)
  simp [TIMEOUT_ERR] at htext

/-- A round of the run finds the transaction on the chain of that moment. -/
def RoundFinds (rvk : RVKWrapper) (elusivTxSig : Option ConfirmedSignatureInfo) (txData : ElusivTxData)
    (nonce : ℕ) (node : ManagedChain) (es : List TrackedEvent) : Prop :=
  ∃ es₁ e es₂ t, es = es₁ ++ e :: es₂ ∧ run (step rvk elusivTxSig txData) (start node) es₁ = some t ∧
    e = .look ∧ txData.Visible nonce t.node.chain

/-- What the promise of a tracked send tells. -/
structure Tracked (rvk : RVKWrapper) (elusivTxSig : Option ConfirmedSignatureInfo) (txData : ElusivTxData)
    (nonce : ℕ) (node : ManagedChain) (es : List TrackedEvent) (s : TrackedSend) : Prop where
  resolves_iff : s.promise = some (.ok true) ↔ RoundFinds rvk elusivTxSig txData nonce node es
  fails_iff : s.promise = some (.error (couldNotFind rvk elusivTxSig txData)) ↔
    es.countP TrackedEvent.isLook = MAX_CALLS ∧ ¬ RoundFinds rvk elusivTxSig txData nonce node es
  timesOut_iff : s.promise = some (.error InsertionWait.TIMED_OUT) ↔
    s.wait.settled = some (.error InsertionWait.TIMED_OUT)
  /-- There is no other outcome; in particular no `false`. -/
  outcomes : ∀ outcome, s.promise = some outcome → outcome = .ok true ∨
    outcome = .error (couldNotFind rvk elusivTxSig txData) ∨ outcome = .error InsertionWait.TIMED_OUT
  /-- The next transaction can be sent: the commitment is there, and the next build sees the nonce. -/
  next : s.promise = some (.ok true) → s.inserted = true ∧ s.wait.running = false ∧
    ∃ tx, s.node.returns s.node.manager .getMostRecentTx = .ok [tx] ∧ nonce ≤ tx.nonce

lemma Good.outcomes (hs : Good rvk elusivTxSig txData nonce s) {outcome : Except Failure Bool}
    (ho : s.promise = some outcome) : outcome = .ok true ∨
      outcome = .error (couldNotFind rvk elusivTxSig txData) ∨ outcome = .error InsertionWait.TIMED_OUT := by
  rcases hs.ended outcome ho with - | - | -
  · exact .inr (.inr rfl)
  · exact .inl rfl
  · exact .inr (.inl rfl)

/-- The promise fails after the last round, unless one has found the transaction. -/
lemma Good.fails_iff (hs : Good rvk elusivTxSig txData nonce s) :
    s.promise = some (.error (couldNotFind rvk elusivTxSig txData)) ↔
      s.looks = MAX_CALLS ∧ ¬ s.promise = some (.ok true) := by
  constructor
  · intro hfailed
    constructor
    · generalize houtcome : Except.error (couldNotFind rvk elusivTxSig txData) = outcome at hfailed
      rcases hs.ended outcome hfailed with - | - | ⟨-, hlooks⟩
      · exact absurd (Except.error.inj houtcome) couldNotFind_ne_timedOut
      · cases houtcome
      · exact hlooks
    · rw [hfailed]
      exact nofun
  · rintro ⟨hlooks, hunresolved⟩
    cases hpromise : s.promise with
    | none =>
        have hlt := hs.looking hpromise
        omega
    | some outcome =>
        rcases hs.ended outcome hpromise with hwait | - | -
        · have hzero := hs.idle (by rw [hwait]; exact nofun)
          rw [hlooks] at hzero
          cases hzero
        · exact absurd hpromise hunresolved
        · rfl

lemma Good.timesOut_iff (hs : Good rvk elusivTxSig txData nonce s) :
    s.promise = some (.error InsertionWait.TIMED_OUT) ↔
      s.wait.settled = some (.error InsertionWait.TIMED_OUT) := by
  constructor
  · intro hfailed
    generalize houtcome : Except.error InsertionWait.TIMED_OUT = outcome at hfailed
    rcases hs.ended outcome hfailed with hwait | - | -
    · exact hwait
    · cases houtcome
    · exact absurd (Except.error.inj houtcome).symm couldNotFind_ne_timedOut
  · exact fun hwait => (hs.rejected _ hwait).2

/-- After the promise resolved, the most recent transaction is not below the one that was sent. -/
lemma Good.next (hs : Good rvk elusivTxSig txData nonce s) (hresolved : s.promise = some (.ok true)) :
    s.inserted = true ∧ s.wait.running = false ∧
      ∃ tx, s.node.returns s.node.manager .getMostRecentTx = .ok [tx] ∧ nonce ≤ tx.nonce := by
  generalize houtcome : Except.ok true = outcome at hresolved
  rcases hs.ended outcome hresolved with - | ⟨hwait, hchain⟩ | -
  · cases houtcome
  · obtain ⟨-, hinserted, hoff⟩ := hs.resolved true hwait
    obtain ⟨txs, m, hexec, rfl, -⟩ := (Query.getMostRecentTx.alone_spec hs.node.coherent hs.node.gaps
      (Nat.le_refl s.node.fuel)).run rfl
    rcases hs.node.gapless.head?_read_one with ⟨hzero, -⟩ | ⟨tx, htx, hnonce, -⟩
    · omega
    · refine ⟨hinserted, hoff, tx, ?_, by omega⟩
      rw [ManagedChain.returns, hexec, History.answer, htx]
      rfl
  · cases houtcome

/-- Every round is counted. -/
lemma looks_of_run (hlast : -1 ≤ txData.lastNonce) (hnonce : txData.currNonce = nonce)
    {es : List TrackedEvent} (hs : Good rvk elusivTxSig txData nonce s)
    (harrives : Allowed (step rvk elusivTxSig txData) Arrives s es)
    (hrun : run (step rvk elusivTxSig txData) s es = some s') :
    s'.looks = s.looks + es.countP TrackedEvent.isLook := by
  induction es generalizing s with
  | nil =>
      obtain rfl := Option.some.inj hrun
      rfl
  | cons e es ih =>
      obtain ⟨t, ht, hrest⟩ := run_cons.mp hrun
      obtain ⟨hgood, -, hlooks⟩ := hs.step hlast hnonce harrives.1 ht
      rw [ih hgood (harrives.2 t ht) hrest, hlooks, List.countP_singleton, List.countP_cons]
      omega

end Runs

/-- **The promise of a tracked send tells the truth**, in every run: it resolves exactly when a round of
`findSig` finds the transaction (and its merge) on chain, fails exactly when 120 rounds do not, and is rejected
otherwise only by the wait; once it has resolved, the next transaction is built above this one. -/
theorem tracked {poseidon : Poseidon} {circuits : Circuits poseidon} {serialization : Serialization}
    {seedWrapper : SeedWrapper} {accs : ProgramAccounts} {txData : ElusivTxData} {nonce : ℕ}
    (rvk : RVKWrapper) (elusivTxSig : Option ConfirmedSignatureInfo)
    (hbuilt : txData.BuiltOn circuits serialization seedWrapper accs nonce) {node : ManagedChain}
    (hnode : NodeOk node) {es : List TrackedEvent} {s : TrackedSend}
    (hrun : run (step rvk elusivTxSig txData) (start node) es = some s)
    (harrives : Allowed (step rvk elusivTxSig txData) Arrives (start node) es) :
    Tracked rvk elusivTxSig txData nonce node es s := by
  have hlast := hbuilt.neg_one_le
  have hnonce := hbuilt.currNonce_eq
  have hstart : Good rvk elusivTxSig txData nonce (start node) := good_start hnode
  have hgood : Good rvk elusivTxSig txData nonce s :=
    run_invariant (fun _ _ _ hs he hstep => (hs.step hlast hnonce he hstep).1) hstart harrives hrun
  have hresolves : s.promise = some (.ok true) ↔ RoundFinds rvk elusivTxSig txData nonce node es := by
    refine (run_latched (Q := fun s => s.promise = some (.ok true)) (fun _ _ _ hs he hstep =>
      ⟨(hs.step hlast hnonce he hstep).1, (hs.step hlast hnonce he hstep).2.1⟩)
      hstart harrives hrun).trans (or_iff_right nofun)
  have hlooks := looks_of_run hlast hnonce hstart harrives hrun
  rw [show (start node).looks = 0 from rfl, Nat.zero_add] at hlooks
  refine ⟨hresolves, ?_, hgood.timesOut_iff, fun _ ho => hgood.outcomes ho, hgood.next⟩
  rw [← hresolves, ← hlooks]
  exact hgood.fails_iff

/-! ### A topup after its merge -/

/-- The commitment is found before the topup is on chain, which a round misses; the next one sees both. -/
def mergedRun : List TrackedEvent :=
  [.poll .tick, .insert, .poll (.ended (.ok true)), .look,
    .manager (.grow (.land (.bareTopup 5 .LAMPORTS 600000 5) 0)), .look]

abbrev mergedStep : TrackedSend → TrackedEvent → Option TrackedSend :=
  step plainSeed.getRootViewingKeyWrapper none (.topup mergedTopupData)

lemma nodeOk_mergedChain : NodeOk ⟨mergedChain, .new⟩ where
  gapless := show ∀ n < 5, mergedChain.txsAt n ≠ [] by decide
  length_le := by decide
  coherent := coherent_new mergedChain

theorem tracked_mergedRun : ∃ s,
    run mergedStep (start ⟨mergedChain, .new⟩) mergedRun = some s ∧ s.promise = some (.ok true) ∧
      ∃ tx, s.node.returns s.node.manager .getMostRecentTx = .ok [tx] ∧ 5 ≤ tx.nonce := by
  have hsome : ((run mergedStep (start ⟨mergedChain, .new⟩) mergedRun).map fun s => s.promise)
      = some (some (.ok true)) := by
    decide +kernel
  obtain ⟨s, hrun, hresolved⟩ := Option.map_eq_some_iff.mp hsome
  have htracked := tracked plainSeed.getRootViewingKeyWrapper none builtOn_mergedTopupData
    nodeOk_mergedChain hrun (by decide +kernel)
  obtain ⟨-, -, hnext⟩ := htracked.next hresolved
  exact ⟨s, hrun, hresolved, hnext⟩

end TrackedSend

end ElusivSdk
