import ElusivSdk.Library.Transition
import ElusivSdk.Types

/-!
# Waiting for a commitment

`awaitCommitmentInsertion` asks every `delayBetweenFetches` milliseconds whether the commitment is in the
tree.  The interval goes on while answers are awaited, so several polls can be under way at once, and their
answers come in any order.

* `InsertionWait` — the interval, the counter of attempts, the polls under way and the promise.
* `step` — the interval fires, or a poll ends.
* **`no_poll_after_settled_iff`** — no poll starts after the promise settled exactly when no answer finds
  the time used up while the interval runs: a rejection leaves the interval running.
-/

namespace ElusivSdk

open Transition

def TIMEOUT_ERR (operationName : String) : String := "Operation " ++ operationName ++ " timed out"

/-- What a call of `awaitCommitmentInsertion` has at a moment. -/
structure InsertionWait where
  /-- The interval was not cleared. -/
  running : Bool
  attempts : ℕ
  /-- The polls that were started and have not ended. -/
  pending : ℕ
  /-- The outcome of the promise, once it is settled. -/
  settled : Option (Except Failure Bool)
deriving DecidableEq

/-- A poll ends with an answer, or `isCommitmentInserted` throws. -/
inductive PollEvent
  | tick
  | ended (isInserted : Except Failure Bool)
deriving DecidableEq

namespace InsertionWait

/-- The interval is set. -/
def start : InsertionWait := { running := true, attempts := 1, pending := 0, settled := none }

/-- `resolve` and `reject`: the first one counts. -/
def settle (s : InsertionWait) (outcome : Except Failure Bool) : InsertionWait :=
  match s.settled with
  | none => { s with settled := some outcome }
  | some _ => s

/-- What the callback does once it has its answer. -/
def onAnswer (delayBetweenFetches timeout : ℤ) (s : InsertionWait) (isInserted : Bool) : InsertionWait :=
  let s := if isInserted then { s with running := false }.settle (.ok isInserted) else s
  let s := if s.attempts * delayBetweenFetches ≥ timeout then
      s.settle (.error (.error (TIMEOUT_ERR "Fetch commitment")))
    else s
  { s with attempts := s.attempts + 1 }

/-- A callback whose poll throws ends there. -/
def step (delayBetweenFetches timeout : ℤ) (s : InsertionWait) : PollEvent → Option InsertionWait
  | .tick => if s.running then some { s with pending := s.pending + 1 } else none
  | .ended isInserted =>
      if s.pending = 0 then none
      else
        let s := { s with pending := s.pending - 1 }
        match isInserted with
        | .ok isInserted => some (s.onAnswer delayBetweenFetches timeout isInserted)
        | .error _ => some s

/-! ## The interval and the promise -/

section Runs

variable {delayBetweenFetches timeout : ℤ} {s s' : InsertionWait} {es : List PollEvent}

/-- The attempts made so far have used up the time. -/
def timedOut (delayBetweenFetches timeout : ℤ) (s : InsertionWait) : Bool :=
  s.attempts * delayBetweenFetches ≥ timeout

@[simp]
lemma running_settle (s : InsertionWait) (outcome : Except Failure Bool) :
    (s.settle outcome).running = s.running := by
  rw [settle]
  split <;> rfl

lemma settled_settle (s : InsertionWait) (outcome : Except Failure Bool) :
    (s.settle outcome).settled = some (s.settled.getD outcome) := by
  rw [settle]
  split <;> simp_all

/-- An answer that the commitment is there stops the interval, and no other answer touches it. -/
lemma running_onAnswer (s : InsertionWait) (isInserted : Bool) :
    (s.onAnswer delayBetweenFetches timeout isInserted).running = (s.running && !isInserted) := by
  cases isInserted with
  | true => simp [onAnswer, apply_ite running]
  | false => simp [onAnswer, apply_ite running]

/-- The promise is settled by an answer that the commitment is there, or that finds the time used up. -/
lemma settled_onAnswer (s : InsertionWait) (isInserted : Bool) :
    (s.onAnswer delayBetweenFetches timeout isInserted).settled
      = if isInserted then some (s.settled.getD (.ok true))
        else if s.timedOut delayBetweenFetches timeout then
          some (s.settled.getD (.error (.error (TIMEOUT_ERR "Fetch commitment"))))
        else s.settled := by
  cases isInserted with
  | true =>
      simp only [onAnswer, if_true]
      split_ifs
      · rw [settled_settle, settled_settle]
        rfl
      · rw [settled_settle]
  | false =>
      simp only [onAnswer, timedOut, Bool.false_eq_true, if_false, decide_eq_true_eq]
      split_ifs
      · rw [settled_settle]
      · rfl

/-- What an event does to the interval and the promise. -/
lemma step_cases {e : PollEvent} (h : step delayBetweenFetches timeout s e = some s') :
    (e = .tick ∧ s.running = true ∧ s'.running = true ∧ s'.settled = s.settled) ∨
    (∃ failure, e = .ended (.error failure) ∧ s'.running = s.running ∧ s'.settled = s.settled) ∨
    (e = .ended (.ok true) ∧ s'.running = false ∧ s'.settled = some (s.settled.getD (.ok true))) ∨
    (e = .ended (.ok false) ∧ s'.running = s.running ∧
      s'.settled = if s.timedOut delayBetweenFetches timeout then
          some (s.settled.getD (.error (.error (TIMEOUT_ERR "Fetch commitment"))))
        else s.settled) := by
  cases e with
  | tick =>
      rw [step] at h
      split_ifs at h with hrun
      obtain rfl := Option.some.inj h
      exact .inl ⟨rfl, hrun, hrun, rfl⟩
  | ended isInserted =>
      rw [step] at h
      split_ifs at h
      rcases isInserted with failure | isInserted
      · obtain rfl := Option.some.inj h
        exact .inr (.inl ⟨failure, rfl, rfl, rfl⟩)
      · obtain rfl := Option.some.inj h
        cases isInserted with
        | true =>
            refine .inr (.inr (.inl ⟨rfl, ?_, settled_onAnswer _ true⟩))
            rw [running_onAnswer, Bool.not_true, Bool.and_false]
        | false =>
            refine .inr (.inr (.inr ⟨rfl, ?_, settled_onAnswer _ false⟩))
            rw [running_onAnswer, Bool.not_false, Bool.and_true]

/-- A stopped interval stays stopped, and no poll is started any more. -/
lemma no_tick_of_stopped (hstop : s.running = false)
    (hrun : run (step delayBetweenFetches timeout) s es = some s') : PollEvent.tick ∉ es := by
  induction es generalizing s with
  | nil => exact List.not_mem_nil
  | cons e es ih =>
      obtain ⟨t, ht, hrest⟩ := run_cons.mp hrun
      rw [List.mem_cons, not_or]
      rcases step_cases ht with ⟨-, hon, -⟩ | ⟨_, rfl, hkeep, -⟩ | ⟨rfl, hoff, -⟩ | ⟨rfl, hkeep, -⟩
      · rw [hstop] at hon
        contradiction
      · exact ⟨nofun, ih (hkeep.trans hstop) hrest⟩
      · exact ⟨nofun, ih hoff hrest⟩
      · exact ⟨nofun, ih (hkeep.trans hstop) hrest⟩

/-- Once the promise is settled, the interval is stopped. -/
def Stopped (s : InsertionWait) : Prop := s.settled ≠ none → s.running = false

/-- No answer finds the commitment missing and the time used up while the interval runs. -/
def InTime (delayBetweenFetches timeout : ℤ) (s : InsertionWait) (e : PollEvent) : Prop :=
  e = .ended (.ok false) → s.running = true → s.timedOut delayBetweenFetches timeout = false

instance (delayBetweenFetches timeout : ℤ) (s : InsertionWait) (e : PollEvent) :
    Decidable (InTime delayBetweenFetches timeout s e) := inferInstanceAs (Decidable (_ → _ → _))

lemma Stopped.step {e : PollEvent} (hs : s.Stopped) (he : InTime delayBetweenFetches timeout s e)
    (h : step delayBetweenFetches timeout s e = some s') : s'.Stopped := by
  intro hsettled
  rcases step_cases h with ⟨rfl, hon, -, hkeep⟩ | ⟨_, rfl, hrun, hkeep⟩ | ⟨rfl, hoff, -⟩ |
    ⟨rfl, hrun, hcase⟩
  · rw [hs (hkeep ▸ hsettled)] at hon
    contradiction
  · exact hrun.trans (hs (hkeep ▸ hsettled))
  · exact hoff
  · rw [hrun]
    by_contra hon
    rw [Bool.not_eq_false] at hon
    rw [he rfl hon, if_neg Bool.false_ne_true] at hcase
    rw [hs (hcase ▸ hsettled)] at hon
    contradiction

/-- The error of a wait that takes too long. -/
def TIMED_OUT : Failure := .error (TIMEOUT_ERR "Fetch commitment")

/-- An event leaves the outcome as it is, or settles the promise: an answer that the commitment is there
resolves it and stops the interval, and nothing else rejects it than the timeout. -/
lemma settled_cases {e : PollEvent} (h : step delayBetweenFetches timeout s e = some s') :
    (s'.settled = s.settled ∧ (s'.running = true → s.running = true)) ∨ (s.settled = none ∧
      ((e = .ended (.ok true) ∧ s'.running = false ∧ s'.settled = some (.ok true)) ∨
        s'.settled = some (.error TIMED_OUT))) := by
  rcases step_cases h with ⟨-, hon, -, hkeep⟩ | ⟨_, -, hrun, hkeep⟩ | ⟨rfl, hoff, hnow⟩ | ⟨-, hrun, hcase⟩
  · exact .inl ⟨hkeep, fun _ => hon⟩
  · exact .inl ⟨hkeep, fun hon => hrun ▸ hon⟩
  · cases hset : s.settled with
    | none =>
        rw [hset] at hnow
        exact .inr ⟨rfl, .inl ⟨rfl, hoff, hnow⟩⟩
    | some outcome =>
        rw [hset] at hnow
        refine .inl ⟨hnow, fun hon => ?_⟩
        rw [hoff] at hon
        contradiction
  · cases hset : s.settled with
    | none =>
        rw [hset] at hcase
        split_ifs at hcase
        · exact .inr ⟨rfl, .inr hcase⟩
        · exact .inl ⟨hcase, fun hon => hrun ▸ hon⟩
    | some outcome =>
        rw [hset, Option.getD_some, ite_self] at hcase
        exact .inl ⟨hcase, fun hon => hrun ▸ hon⟩

/-- **No poll starts after the promise settled**, in a run and however it goes on, **exactly when** no
answer of the run finds the commitment missing and the time used up while the interval runs. -/
theorem no_poll_after_settled_iff (delayBetweenFetches timeout : ℤ) {es : List PollEvent}
    {s : InsertionWait} (hrun : run (step delayBetweenFetches timeout) start es = some s) :
    (∀ es₁ es₂ s₁, es = es₁ ++ es₂ → run (step delayBetweenFetches timeout) start es₁ = some s₁ →
      s₁.settled ≠ none → ∀ es' s', run (step delayBetweenFetches timeout) s₁ es' = some s' →
        PollEvent.tick ∉ es') ↔
      Allowed (step delayBetweenFetches timeout) (InTime delayBetweenFetches timeout) start es := by
  constructor
  · refine fun hquiet => allowed_iff.mpr fun es₁ e es₂ t heq ht he hon => ?_
    by_contra hout
    rw [Bool.not_eq_false] at hout
    -- the event rejects the promise and leaves the interval on, which can fire once more
    subst he heq
    obtain ⟨t', ht', hrest⟩ := run_append.mp hrun
    obtain rfl := Option.some.inj (ht.symm.trans ht')
    obtain ⟨u, hu, -⟩ := run_cons.mp hrest
    rcases step_cases hu with ⟨he, -⟩ | ⟨_, he, -⟩ | ⟨he, -⟩ | ⟨-, hrunning, hsettled⟩
    · cases he
    · cases he
    · cases he
    · rw [if_pos hout] at hsettled
      have htick : run (InsertionWait.step delayBetweenFetches timeout) u [.tick]
          = some { u with pending := u.pending + 1 } := by
        rw [run, InsertionWait.step, if_pos (hrunning.trans hon)]
        rfl
      refine hquiet (es₁ ++ [.ended (.ok false)]) es₂ u (by simp)
        (run_append.mpr ⟨t, ht, run_cons.mpr ⟨u, hu, rfl⟩⟩) ?_ _ _ htick List.mem_cons_self
      rw [hsettled]
      exact Option.some_ne_none _
  · rintro hallowed es₁ es₂ s₁ rfl hs₁ hsettled es' s' hs'
    have hallowed₁ := (allowed_append.mp hallowed).1
    have hstopped : s₁.Stopped := run_invariant (I := Stopped)
      (fun _ _ _ hs he hstep => hs.step he hstep) (fun hne => absurd rfl hne) hallowed₁ hs₁
    exact no_tick_of_stopped (hstopped hsettled) hs'

/-- Two polls at once, the second answer a late "no": after the first answer nothing is asked. -/
theorem no_poll_after_settled_overlapping :
    ∃ s, run (InsertionWait.step 500 120000) start
        [.tick, .tick, .ended (.ok true), .ended (.ok false)] = some s ∧ s.settled = some (.ok true) ∧
      ∀ es' s', run (InsertionWait.step 500 120000) s es' = some s' → PollEvent.tick ∉ es' := by
  have hallowed : Allowed (InsertionWait.step 500 120000) (InTime 500 120000) start
      [.tick, .tick, .ended (.ok true), .ended (.ok false)] := by decide
  exact ⟨_, rfl, rfl, (no_poll_after_settled_iff 500 120000 rfl).mpr hallowed _ [] _
    (List.append_nil _).symm rfl (Option.some_ne_none _)⟩

/-- **A rejection leaves the interval running**: after the timeout the next poll starts. -/
theorem polls_after_timeout :
    ∃ s s', run (InsertionWait.step 500 500) start [.tick, .ended (.ok false)] = some s ∧
      s.settled = some (.error (.error (TIMEOUT_ERR "Fetch commitment"))) ∧
      run (InsertionWait.step 500 500) s [.tick] = some s' :=
  ⟨_, _, rfl, rfl, rfl⟩

end Runs

end InsertionWait

end ElusivSdk
