import Mathlib.Tactic.Common

/-!
# Runs of event-driven systems

A system is a partial step function `step : σ → ε → Option σ`: the event `e` can happen in the state
`s` when `step s e` is a state.  Everything that is not determined by the state is in the event, so a
run is a list of events and can be computed.

* `run` — the state after a list of events.
* `Allowed guard` — the condition that a guard on a state and an event holds at every step of a run.
* `allowed_iff` — the same with the beginnings of the run.
* **`run_invariant`** — what one allowed step keeps, every allowed run keeps.
* **`invariant_iff_allowed`** — when the guard is exact for one step, it is exact for runs.
* **`run_latched`** — what stays once an event has brought it about holds after a run exactly when it held
  before, or one of the events brought it about.
* **`run_simulates`** — a system whose steps are matched by runs of another one has its runs matched.
-/

namespace Transition

variable {σ ε : Type*} (step : σ → ε → Option σ)

/-- The state after the events, when each of them can happen in its turn. -/
def run : σ → List ε → Option σ
  | s, [] => some s
  | s, e :: es => (step s e).bind fun s' => run s' es

/-- The guard holds at each step of the run. -/
def Allowed (guard : σ → ε → Prop) : σ → List ε → Prop
  | _, [] => True
  | s, e :: es => guard s e ∧ ∀ s', step s e = some s' → Allowed guard s' es

@[simp]
lemma run_nil (s : σ) : run step s [] = some s := rfl

variable {step}

lemma run_cons {s s' : σ} {e : ε} {es : List ε} :
    run step s (e :: es) = some s' ↔ ∃ t, step s e = some t ∧ run step t es = some s' := by
  rw [run, Option.bind_eq_some_iff]

lemma run_append {s s' : σ} {es es' : List ε} :
    run step s (es ++ es') = some s' ↔ ∃ t, run step s es = some t ∧ run step t es' = some s' := by
  induction es generalizing s with
  | nil => simp
  | cons e es ih =>
      rw [List.cons_append, run_cons]
      constructor
      · rintro ⟨t, ht, hrest⟩
        obtain ⟨u, hu, hu'⟩ := ih.mp hrest
        exact ⟨u, run_cons.mpr ⟨t, ht, hu⟩, hu'⟩
      · rintro ⟨u, hu, hu'⟩
        obtain ⟨t, ht, hrest⟩ := run_cons.mp hu
        exact ⟨t, ht, ih.mpr ⟨u, hrest, hu'⟩⟩

/-- A run is allowed when the guard holds at each of its events, in the state that it finds. -/
lemma allowed_iff {guard : σ → ε → Prop} {s : σ} {es : List ε} : Allowed step guard s es ↔
    ∀ es₁ e es₂ t, es = es₁ ++ e :: es₂ → run step s es₁ = some t → guard t e := by
  induction es generalizing s with
  | nil => exact iff_of_true trivial fun es₁ e es₂ t heq => by simp at heq
  | cons e es ih =>
      constructor
      · rintro ⟨hg, hrest⟩ es₁ e' es₂ t heq hrun
        cases es₁ with
        | nil =>
            obtain ⟨rfl, -⟩ := List.cons.inj heq
            obtain rfl := Option.some.inj hrun
            exact hg
        | cons e₁ es₁ =>
            obtain ⟨rfl, hrest'⟩ := List.cons.inj heq
            obtain ⟨u, hu, hrun⟩ := run_cons.mp hrun
            exact ih.mp (hrest u hu) es₁ e' es₂ t hrest' hrun
      · intro h
        refine ⟨h [] e es s rfl rfl, fun s' hs' => ih.mpr fun es₁ e' es₂ t heq hrun => ?_⟩
        exact h (e :: es₁) e' es₂ t (by rw [heq, List.cons_append]) (run_cons.mpr ⟨s', hs', hrun⟩)

/-- A run is allowed when its beginning is, and what follows from where that ends. -/
lemma allowed_append {guard : σ → ε → Prop} {s : σ} {es es' : List ε} :
    Allowed step guard s (es ++ es') ↔ Allowed step guard s es ∧
      ∀ t, run step s es = some t → Allowed step guard t es' := by
  induction es generalizing s with
  | nil => simp [Allowed]
  | cons e es ih =>
      rw [List.cons_append]
      constructor
      · rintro ⟨hg, hrest⟩
        refine ⟨⟨hg, fun t ht => (ih.mp (hrest t ht)).1⟩, fun u hu => ?_⟩
        obtain ⟨t, ht, hu⟩ := run_cons.mp hu
        exact (ih.mp (hrest t ht)).2 u hu
      · rintro ⟨⟨hg, hfirst⟩, hrest⟩
        refine ⟨hg, fun t ht => ih.mpr ⟨hfirst t ht, fun u hu => ?_⟩⟩
        exact hrest u (run_cons.mpr ⟨t, ht, hu⟩)

/-- The guard that always holds. -/
lemma allowed_true (s : σ) (es : List ε) : Allowed step (fun _ _ => True) s es := by
  induction es generalizing s with
  | nil => trivial
  | cons e es ih => exact ⟨trivial, fun s' _ => ih s'⟩

lemma Allowed.mono {guard guard' : σ → ε → Prop} (h : ∀ s e, guard s e → guard' s e) {s : σ}
    {es : List ε} (ha : Allowed step guard s es) : Allowed step guard' s es := by
  induction es generalizing s with
  | nil => trivial
  | cons e es ih => exact ⟨h s e ha.1, fun s' hs' => ih (ha.2 s' hs')⟩

/-- The guard along a run can be tested. -/
instance decidableAllowed {guard : σ → ε → Prop} [∀ s e, Decidable (guard s e)] :
    ∀ (s : σ) (es : List ε), Decidable (Allowed step guard s es)
  | _, [] => .isTrue trivial
  | s, e :: es =>
      match hs : step s e with
      | none => decidable_of_iff (guard s e) ⟨fun hg => ⟨hg, by simp [hs]⟩, And.left⟩
      | some t =>
          have : Decidable (Allowed step guard t es) := decidableAllowed t es
          decidable_of_iff (guard s e ∧ Allowed step guard t es) (by simp [Allowed, hs])

/-- **The invariant rule.**  What every allowed step keeps holds after every allowed run. -/
theorem run_invariant {guard : σ → ε → Prop} {I : σ → Prop}
    (hstep : ∀ s e s', I s → guard s e → step s e = some s' → I s') {s s' : σ} {es : List ε}
    (hs : I s) (hg : Allowed step guard s es) (hrun : run step s es = some s') : I s' := by
  induction es generalizing s with
  | nil =>
      obtain rfl : s = s' := by simpa using hrun
      exact hs
  | cons e es ih =>
      obtain ⟨t, ht, hrest⟩ := run_cons.mp hrun
      exact ih (hstep s e t hs hg.1 ht) (hg.2 t ht) hrest

/-- **The exact invariant rule.**  When a step from a state with the invariant keeps it exactly under the
guard, a run has it in every state reached exactly when the guard holds at each of its steps. -/
theorem invariant_iff_allowed {guard : σ → ε → Prop} {I : σ → Prop}
    (hexact : ∀ s e s', I s → step s e = some s' → (I s' ↔ guard s e)) {s s' : σ} {es : List ε}
    (hs : I s) (hrun : run step s es = some s') :
    (∀ es₁ es₂ t, es = es₁ ++ es₂ → run step s es₁ = some t → I t) ↔ Allowed step guard s es := by
  constructor
  · intro hall
    induction es generalizing s with
    | nil => trivial
    | cons e es ih =>
        obtain ⟨t, ht, hrest⟩ := run_cons.mp hrun
        have hI : I t := hall [e] es t rfl (run_cons.mpr ⟨t, ht, rfl⟩)
        refine ⟨(hexact s e t hs ht).mp hI, fun t' ht' => ?_⟩
        obtain rfl := Option.some.inj (ht.symm.trans ht')
        refine ih hI hrest fun es₁ es₂ u heq hu => ?_
        exact hall (e :: es₁) es₂ u (by rw [heq, List.cons_append]) (run_cons.mpr ⟨t, ht, hu⟩)
  · rintro hallowed es₁ es₂ t rfl ht
    exact run_invariant (fun s e s' hs hg hstep => (hexact s e s' hs hstep).mpr hg) hs
      (allowed_append.mp hallowed).1 ht

/-- **The latch rule.**  When an allowed step has `Q` after it exactly when `Q` held before or the event
brings it about, a run has `Q` after it exactly when `Q` held before or one of its events brought it about. -/
theorem run_latched {guard : σ → ε → Prop} {I Q : σ → Prop} {brings : σ → ε → Prop}
    (hstep : ∀ s e s', I s → guard s e → step s e = some s' → I s' ∧ (Q s' ↔ Q s ∨ brings s e))
    {s s' : σ} {es : List ε} (hs : I s) (hg : Allowed step guard s es) (hrun : run step s es = some s') :
    Q s' ↔ Q s ∨ ∃ es₁ e es₂ t, es = es₁ ++ e :: es₂ ∧ run step s es₁ = some t ∧ brings t e := by
  induction es generalizing s with
  | nil =>
      obtain rfl : s = s' := by simpa using hrun
      refine (or_iff_left ?_).symm
      rintro ⟨es₁, e, es₂, t, heq, -⟩
      simp at heq
  | cons e es ih =>
      obtain ⟨u, hu, hrest⟩ := run_cons.mp hrun
      obtain ⟨hu', hlatch⟩ := hstep s e u hs hg.1 hu
      rw [ih hu' (hg.2 u hu) hrest, hlatch, or_assoc]
      refine or_congr_right ⟨?_, ?_⟩
      · rintro (hbrings | ⟨es₁, e', es₂, t, rfl, ht, hbrings⟩)
        · exact ⟨[], e, es, s, rfl, rfl, hbrings⟩
        · exact ⟨e :: es₁, e', es₂, t, rfl, run_cons.mpr ⟨u, hu, ht⟩, hbrings⟩
      · rintro ⟨es₁, e', es₂, t, heq, ht, hbrings⟩
        cases es₁ with
        | nil =>
            obtain ⟨rfl, -⟩ := List.cons.inj heq
            obtain rfl := Option.some.inj ht
            exact .inl hbrings
        | cons e₁ es₁ =>
            obtain ⟨rfl, hrest'⟩ := List.cons.inj heq
            obtain ⟨v, hv, ht⟩ := run_cons.mp ht
            obtain rfl := Option.some.inj (hu.symm.trans hv)
            exact .inr ⟨es₁, e', es₂, t, hrest', ht, hbrings⟩

/-! ## Two systems -/

section Simulation

variable {τ ε' : Type*} {step' : τ → ε' → Option τ}

/-- **The simulation rule.**  When every allowed step of one system is matched by an allowed run of another,
so is every allowed run. -/
theorem run_simulates {guard : σ → ε → Prop} {guard' : τ → ε' → Prop} {R : σ → τ → Prop}
    {matched : ε → List ε' → Prop}
    (hstep : ∀ s t e s', R s t → guard s e → step s e = some s' → ∃ es' t', matched e es' ∧
      run step' t es' = some t' ∧ Allowed step' guard' t es' ∧ R s' t')
    {s s' : σ} {t : τ} {es : List ε} (hR : R s t) (hg : Allowed step guard s es)
    (hrun : run step s es = some s') :
    ∃ ess t', List.Forall₂ matched es ess ∧ run step' t ess.flatten = some t' ∧
      Allowed step' guard' t ess.flatten ∧ R s' t' := by
  induction es generalizing s t with
  | nil =>
      obtain rfl : s = s' := by simpa using hrun
      exact ⟨[], t, .nil, rfl, trivial, hR⟩
  | cons e es ih =>
      obtain ⟨u, hu, hrest⟩ := run_cons.mp hrun
      obtain ⟨es', v, hmatched, hv, hallowed, hR'⟩ := hstep s t e u hR hg.1 hu
      obtain ⟨ess, t', hmatches, ht', hallowed', hR''⟩ := ih hR' (hg.2 u hu) hrest
      refine ⟨es' :: ess, t', .cons hmatched hmatches, run_append.mpr ⟨v, hv, ht'⟩, ?_, hR''⟩
      refine allowed_append.mpr ⟨hallowed, fun w hw => ?_⟩
      obtain rfl := Option.some.inj (hv.symm.trans hw)
      exact hallowed'

end Simulation

end Transition
