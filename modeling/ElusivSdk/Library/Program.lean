import Mathlib.Data.Nat.Basic
import Mathlib.Tactic.Common

/-!
# Stateful programs that may throw

A `Prog ε σ α` runs over a store `σ` and ends with a value of type `α` or throws an `ε`; the store
it reached survives the throw, as the fields of an object survive an exception.

* `Triple P prog Q E` — from every store with `P` the program ends in `Q` or throws into `E`.  With
  `E` empty (`Total`) this is total correctness, with `Q` and `E` one invariant it is the
  preservation of that invariant by failing runs too (`Keeps`).
* The rules, one for each way a program is put together: `Triple.ret`, `Triple.bind`,
  `Triple.update`, `Triple.iterate`, and **`Triple.loop`** for a loop with an invariant and a
  variant.

Loops take fuel.  A loop that is out of fuel throws a given failure, so a total triple of a loop
says that the fuel was enough.
-/

namespace Program

/-- A program over the store `σ` that ends with an `α` or throws an `ε`. -/
abbrev Prog (ε σ α : Type) := ExceptT ε (StateM σ) α

variable {ε σ α β : Type}

/-- Running a program: the outcome, and the store it leaves. -/
def exec (prog : Prog ε σ α) (s : σ) : Except ε α × σ := Id.run (StateT.run (ExceptT.run prog) s)

@[simp]
lemma exec_pure (a : α) (s : σ) : exec (pure a : Prog ε σ α) s = (.ok a, s) := rfl

@[simp]
lemma exec_get (s : σ) : exec (get : Prog ε σ σ) s = (.ok s, s) := rfl

@[simp]
lemma exec_modify (f : σ → σ) (s : σ) : exec (modify f : Prog ε σ PUnit) s = (.ok ⟨⟩, f s) := rfl

lemma exec_bind (prog : Prog ε σ α) (k : α → Prog ε σ β) (s : σ) :
    exec (prog >>= k) s = match exec prog s with
      | (.ok a, s') => exec (k a) s'
      | (.error e, s') => (.error e, s') := by
  show Id.run (StateT.run (ExceptT.run (prog >>= k)) s) = _
  rw [ExceptT.run_bind]
  simp only [exec, StateT.run_bind]
  rcases h : StateT.run (ExceptT.run prog) s with ⟨_ | _, s'⟩ <;> rfl

/-- A sequence ends with a value when both of its parts do. -/
lemma exec_bind_eq_ok {prog : Prog ε σ α} {k : α → Prog ε σ β} {s s'' : σ} {b : β} :
    exec (prog >>= k) s = (.ok b, s'') ↔
      ∃ a s', exec prog s = (.ok a, s') ∧ exec (k a) s' = (.ok b, s'') := by
  rw [exec_bind]
  rcases exec prog s with ⟨e | a, s'⟩
  · constructor
    · intro h
      nomatch congrArg Prod.fst h
    · rintro ⟨_, _, h, -⟩
      nomatch congrArg Prod.fst h
  · constructor
    · exact fun h => ⟨a, s', rfl, h⟩
    · rintro ⟨a', s₁, h, hk⟩
      obtain ⟨h₁, rfl⟩ := Prod.mk.inj h
      obtain rfl := Except.ok.inj h₁
      exact hk

/-- A program run for each element of a list gives one value for each. -/
lemma forall₂_of_exec_mapM {γ : Type} {f : γ → Prog ε σ α} :
    ∀ {xs : List γ} {s s' : σ} {as : List α}, exec (xs.mapM f) s = (.ok as, s') →
      List.Forall₂ (fun x a => ∃ s₁ s₂, exec (f x) s₁ = (.ok a, s₂)) xs as
  | [], s, s', as, h => by
      rw [List.mapM_nil, exec_pure] at h
      obtain rfl := Except.ok.inj (Prod.mk.inj h).1
      exact List.Forall₂.nil
  | x :: xs, s, s', as, h => by
      rw [List.mapM_cons] at h
      obtain ⟨a, s₁, ha, h⟩ := exec_bind_eq_ok.mp h
      obtain ⟨bs, s₂, hbs, h⟩ := exec_bind_eq_ok.mp h
      rw [exec_pure] at h
      obtain rfl := Except.ok.inj (Prod.mk.inj h).1
      exact List.Forall₂.cons ⟨s, s₁, ha⟩ (forall₂_of_exec_mapM hbs)

/-- A result that was computed outside the store. -/
def lift (r : Except ε α) : Prog ε σ α :=
  match r with
  | .ok a => pure a
  | .error e => throw e

@[simp]
lemma exec_lift (r : Except ε α) (s : σ) : exec (lift r : Prog ε σ α) s = (r, s) := by
  cases r <;> rfl

/-- A fallible computation ends with a value when each of its steps does. -/
lemma bind_eq_ok {x : Except ε α} {k : α → Except ε β} {b : β} :
    x >>= k = .ok b ↔ ∃ a, x = .ok a ∧ k a = .ok b := by
  cases x with
  | error e => exact ⟨nofun, fun ⟨_, ha, _⟩ => nomatch ha⟩
  | ok a => exact ⟨fun h => ⟨a, rfl, h⟩, fun ⟨_, ha, h⟩ => Except.ok.inj ha ▸ h⟩

/-- A sequence goes on with the value of its first part. -/
lemma bind_of_ok {x : Except ε α} {a : α} (h : x = .ok a) (k : α → Except ε β) : x >>= k = k a := by
  rw [h]
  rfl

/-- Whatever a computation throws has the property. -/
def Throws (P : ε → Prop) (x : Except ε α) : Prop := ∀ e, x = .error e → P e

lemma Throws.ok {P : ε → Prop} (a : α) : Throws P (.ok a) := by
  intro e h
  cases h

lemma Throws.error {P : ε → Prop} {e : ε} (h : P e) : Throws P (.error e : Except ε α) := by
  intro e' h'
  rwa [← Except.error.inj h']

/-- A sequence throws what one of its parts throws. -/
lemma Throws.bind {P : ε → Prop} {x : Except ε α} {k : α → Except ε β} (hx : Throws P x)
    (hk : ∀ a, x = .ok a → Throws P (k a)) : Throws P (x >>= k) := by
  cases x with
  | error e => exact Throws.error (hx e rfl)
  | ok a => exact hk a rfl

/-- A list of fallible computations that ends gives one value for each element. -/
lemma forall₂_of_mapM_eq_ok {f : α → Except ε β} :
    ∀ {l : List α} {r : List β}, l.mapM f = .ok r → List.Forall₂ (fun a b => f a = .ok b) l r
  | [], r, h => by
      obtain rfl := Except.ok.inj h
      exact List.Forall₂.nil
  | a :: l, r, h => by
      rw [List.mapM_cons] at h
      obtain ⟨b, hb, h⟩ := bind_eq_ok.mp h
      obtain ⟨bs, hbs, h⟩ := bind_eq_ok.mp h
      obtain rfl := Except.ok.inj h
      exact List.Forall₂.cons hb (forall₂_of_mapM_eq_ok hbs)

lemma mapM_eq_ok_of_forall₂ {f : α → Except ε β} {l : List α} {r : List β}
    (h : List.Forall₂ (fun a b => f a = .ok b) l r) : l.mapM f = .ok r := by
  induction h with
  | nil => rfl
  | cons hb _ ih =>
      rw [List.mapM_cons]
      exact bind_eq_ok.mpr ⟨_, hb, bind_eq_ok.mpr ⟨_, ih, rfl⟩⟩

/-- A list of fallible computations ends when each of them does. -/
lemma isOk_mapM {f : α → Except ε β} : ∀ {l : List α},
    (l.mapM f).isOk = true ↔ ∀ a ∈ l, (f a).isOk = true
  | [] => iff_of_true rfl fun a ha => absurd ha List.not_mem_nil
  | a :: l => by
      rw [List.mapM_cons, List.forall_mem_cons, ← isOk_mapM]
      cases f a with
      | error e => exact iff_of_false Bool.false_ne_true fun h => Bool.false_ne_true h.1
      | ok b => cases l.mapM f <;> simp [Except.isOk, Except.toBool, bind, Except.bind, pure, Except.pure]

/-- Elements that belong together have a property together. -/
lemma forall_mem_iff_of_forall₂ {α β : Type} {R : α → β → Prop} {P : α → Prop} {Q : β → Prop}
    (hiff : ∀ a b, R a b → (P a ↔ Q b)) {l : List α} {r : List β} (h : List.Forall₂ R l r) :
    (∀ a ∈ l, P a) ↔ ∀ b ∈ r, Q b := by
  induction h with
  | nil => simp
  | cons hab _ ih => rw [List.forall_mem_cons, List.forall_mem_cons, hiff _ _ hab, ih]

/-- What a list of fallible computations gives is given by one of them. -/
lemma exists_of_mem_mapM {f : α → Except ε β} {b : β} :
    ∀ {l : List α} {r : List β}, l.mapM f = .ok r → b ∈ r → ∃ a ∈ l, f a = .ok b
  | [], r, h, hmem => by
      obtain rfl := Except.ok.inj h
      exact absurd hmem List.not_mem_nil
  | a :: l, r, h, hmem => by
      rw [List.mapM_cons] at h
      obtain ⟨b', hb', h⟩ := bind_eq_ok.mp h
      obtain ⟨bs, hbs, h⟩ := bind_eq_ok.mp h
      obtain rfl := Except.ok.inj h
      rcases List.mem_cons.mp hmem with rfl | hmem
      · exact ⟨a, List.mem_cons_self, hb'⟩
      · obtain ⟨c, hc, heq⟩ := exists_of_mem_mapM hbs hmem
        exact ⟨c, List.mem_cons_of_mem a hc, heq⟩

lemma mapM_of_ok {f : α → Except ε β} {g : α → β} {l : List α} (h : ∀ a ∈ l, f a = .ok (g a)) :
    l.mapM f = .ok (l.map g) := by
  induction l with
  | nil => rfl
  | cons a l ih =>
      rw [List.mapM_cons, h a List.mem_cons_self, ih fun x hx => h x (List.mem_cons_of_mem a hx)]
      rfl

/-- A fallible computation for each element, and the values put together. -/
lemma mapM_flatten (f : α → Except ε (List β)) (l : List α) :
    (l.mapM f >>= fun r => .ok r.flatten) = l.flatMapM f := by
  induction l with
  | nil => rfl
  | cons a l ih =>
      rw [List.mapM_cons, List.flatMapM_cons, ← ih]
      cases f a with
      | error e => rfl
      | ok b =>
          cases l.mapM f with
          | error e => rfl
          | ok bs => rfl

/-- It ends with a value exactly when every one of them does. -/
lemma flatMapM_eq_ok_iff {f : α → Except ε (List β)} {l : List α} :
    (∃ r, l.flatMapM f = .ok r) ↔ ∀ a ∈ l, ∃ b, f a = .ok b := by
  induction l with
  | nil => exact ⟨fun _ _ ha => absurd ha List.not_mem_nil, fun _ => ⟨[], rfl⟩⟩
  | cons a l ih =>
      rw [List.flatMapM_cons, List.forall_mem_cons, ← ih]
      cases f a with
      | error e => exact ⟨fun ⟨_, h⟩ => (nomatch h), fun ⟨⟨_, h⟩, _⟩ => nomatch h⟩
      | ok b =>
          cases l.flatMapM f with
          | error e => exact ⟨fun ⟨_, h⟩ => (nomatch h), fun ⟨_, _, h⟩ => nomatch h⟩
          | ok bs => exact ⟨fun _ => ⟨⟨b, rfl⟩, bs, rfl⟩, fun _ => ⟨b ++ bs, rfl⟩⟩

lemma flatMapM_of_ok {f : α → Except ε (List β)} {g : α → List β} {l : List α}
    (h : ∀ a ∈ l, f a = .ok (g a)) : l.flatMapM f = .ok (l.flatMap g) := by
  induction l with
  | nil => rfl
  | cons a l ih =>
      rw [List.flatMapM_cons, h a List.mem_cons_self, ih fun x hx => h x (List.mem_cons_of_mem a hx)]
      rfl

/-- The value of a computation that ends with one. -/
def value (r : Except ε α) (h : r.isOk = true) : α :=
  match r, h with
  | .ok a, _ => a

lemma map_eq_ok {r : Except ε α} {f : α → β} {b : β} : r.map f = .ok b ↔ ∃ a, r = .ok a ∧ f a = b := by
  cases r with
  | error e => exact iff_of_false nofun nofun
  | ok a =>
      constructor
      · intro h
        exact ⟨a, rfl, Except.ok.inj h⟩
      · rintro ⟨a', ha, rfl⟩
        obtain rfl := Except.ok.inj ha
        rfl

lemma map_eq_error {r : Except ε α} {f : α → β} {e : ε} : r.map f = .error e ↔ r = .error e := by
  cases r with
  | error e' =>
      constructor <;> intro h <;> rw [Except.error.inj h]
      rfl
  | ok a => exact iff_of_false nofun nofun

lemma toOption_eq_some {r : Except ε α} {a : α} : r.toOption = some a ↔ r = .ok a := by
  cases r with
  | error e => exact iff_of_false nofun nofun
  | ok a' => exact ⟨fun h => congrArg _ (Option.some.inj h), fun h => congrArg _ (Except.ok.inj h)⟩

lemma eq_ok_value {r : Except ε α} (h : r.isOk = true) : r = .ok (value r h) := by
  cases r with
  | error e => exact absurd h Bool.false_ne_true
  | ok a => rfl

/-! ## Triples -/

/-- From every store with `P` the program ends with a value and a store in `Q`, or throws a
failure and leaves a store in `E`. -/
def Triple (P : σ → Prop) (prog : Prog ε σ α) (Q : α → σ → Prop) (E : ε → σ → Prop) : Prop :=
  ∀ s, P s → match exec prog s with
    | (.ok a, s') => Q a s'
    | (.error e, s') => E e s'

/-- Total correctness: the program does not throw. -/
abbrev Total (P : σ → Prop) (prog : Prog ε σ α) (Q : α → σ → Prop) : Prop :=
  Triple P prog Q fun _ _ => False

/-- A total triple gives the run. -/
lemma Total.run {P : σ → Prop} {prog : Prog ε σ α} {Q : α → σ → Prop} (h : Total P prog Q) {s : σ}
    (hs : P s) : ∃ a s', exec prog s = (.ok a, s') ∧ Q a s' := by
  have := h s hs
  rcases hx : exec prog s with ⟨e | a, s'⟩
  · rw [hx] at this
    exact this.elim
  · rw [hx] at this
    exact ⟨a, s', rfl, this⟩

variable {P P' : σ → Prop} {Q Q' : α → σ → Prop} {E E' : ε → σ → Prop}

lemma Triple.mono {prog : Prog ε σ α} (h : Triple P prog Q E) (hP : ∀ s, P' s → P s)
    (hQ : ∀ a s, Q a s → Q' a s) (hE : ∀ e s, E e s → E' e s) : Triple P' prog Q' E' := by
  intro s hs
  have := h s (hP s hs)
  rcases hx : exec prog s with ⟨e | a, s'⟩
  · rw [hx] at this
    exact hE e s' this
  · rw [hx] at this
    exact hQ a s' this

/-- A triple says what a run that ended has reached. -/
lemma Triple.of_ok {prog : Prog ε σ α} (h : Triple P prog Q E) {s s' : σ} {a : α} (hs : P s)
    (hexec : exec prog s = (.ok a, s')) : Q a s' := by
  have := h s hs
  rwa [hexec] at this

/-- A triple says what a run that threw has left. -/
lemma Triple.of_error {prog : Prog ε σ α} (h : Triple P prog Q E) {s s' : σ} {e : ε} (hs : P s)
    (hexec : exec prog s = (.error e, s')) : E e s' := by
  have := h s hs
  rwa [hexec] at this

/-- What holds after both outcomes holds of the store left. -/
lemma Triple.store {I : σ → Prop} {prog : Prog ε σ α} (h : Triple P prog Q E)
    (hQ : ∀ a s, Q a s → I s) (hE : ∀ e s, E e s → I s) {s : σ} (hs : P s) : I (exec prog s).2 := by
  have := h s hs
  rcases hx : exec prog s with ⟨e | a, s'⟩
  · rw [hx] at this
    exact hE e s' this
  · rw [hx] at this
    exact hQ a s' this

/-- The precondition may be fixed to one store, to speak of it in the postcondition. -/
lemma Triple.of_forall {prog : Prog ε σ α} (h : ∀ s₀, P s₀ → Triple (fun s => s = s₀) prog Q E) :
    Triple P prog Q E := fun s hs => h s hs s rfl

lemma Triple.ret {a : α} (h : ∀ s, P s → Q a s) : Triple P (pure a : Prog ε σ α) Q E :=
  fun s hs => h s hs

/-- A program that only reads: it is known what it returns, and it leaves the store alone. -/
lemma Triple.of_exec {prog : Prog ε σ α} {a : α} (hexec : ∀ s, exec prog s = (.ok a, s))
    (h : ∀ s, P s → Q a s) : Triple P prog Q E := by
  intro s hs
  rw [hexec s]
  exact h s hs

lemma Triple.raise {e : ε} (h : ∀ s, P s → E e s) : Triple P (throw e : Prog ε σ α) Q E :=
  fun s hs => h s hs

lemma Triple.update {f : σ → σ} {Q : PUnit → σ → Prop} (h : ∀ s, P s → Q ⟨⟩ (f s)) :
    Triple P (modify f : Prog ε σ PUnit) Q E :=
  fun s hs => h s hs

lemma Triple.bind {prog : Prog ε σ α} {k : α → Prog ε σ β} {R : β → σ → Prop}
    (hprog : Triple P prog Q E) (hk : ∀ a, Triple (Q a) (k a) R E) :
    Triple P (prog >>= k) R E := by
  intro s hs
  have := hprog s hs
  rw [exec_bind]
  rcases hx : exec prog s with ⟨e | a, s'⟩
  · rw [hx] at this
    exact this
  · rw [hx] at this
    exact hk a s' this

/-- Reading the store: the value read is the store. -/
lemma Triple.get_bind {k : σ → Prog ε σ β} {R : β → σ → Prop}
    (hk : ∀ s₀, P s₀ → Triple (fun s => s = s₀) (k s₀) R E) :
    Triple P (get >>= k) R E := by
  intro s hs
  rw [exec_bind, exec_get]
  exact hk s hs s rfl

lemma Triple.update_bind {f : σ → σ} {k : PUnit → Prog ε σ β} {R : β → σ → Prop}
    (hk : Triple (fun s' => ∃ s, P s ∧ s' = f s) (k ⟨⟩) R E) :
    Triple P (modify f >>= k) R E := by
  intro s hs
  rw [exec_bind, exec_modify]
  exact hk (f s) ⟨s, hs, rfl⟩

lemma Triple.lift_any {r : Except ε α} {P : σ → Prop}
    (hok : ∀ a s, r = .ok a → P s → Q a s) (herr : ∀ e s, r = .error e → P s → E e s) :
    Triple P (lift r) Q E := by
  cases r with
  | ok a => exact Triple.ret fun s hs => hok a s rfl hs
  | error e => exact Triple.raise fun s hs => herr e s rfl hs

lemma Triple.lift_ok {r : Except ε α} {a : α} (hr : r = .ok a) (h : ∀ s, P s → Q a s) :
    Triple P (lift r) Q E := by
  subst hr
  exact Triple.ret h

/-- What was computed outside the store is known in the rest of the program. -/
lemma Triple.lift_bind {r : Except ε α} {k : α → Prog ε σ β} {R : β → σ → Prop}
    (hok : ∀ a, r = .ok a → Triple P (k a) R E) (herr : ∀ e s, P s → E e s) :
    Triple P (lift r >>= k) R E := by
  cases hr : r with
  | ok a => exact hok a hr
  | error e => exact fun s hs => herr e s hs

/-- **Iteration over a list.**  The invariant speaks of the elements still to come. -/
lemma Triple.iterate {γ : Type} {f : γ → Prog ε σ PUnit} (inv : List γ → σ → Prop)
    (hf : ∀ x xs, Triple (inv (x :: xs)) (f x) (fun _ => inv xs) E) :
    ∀ xs : List γ, Triple (inv xs) (xs.forM f) (fun _ => inv []) E
  | [] => Triple.ret fun _ hs => hs
  | x :: xs => by
      rw [List.forM_eq_forM, List.forM_cons]
      exact Triple.bind (hf x xs) fun _ => Triple.iterate inv hf xs

/-- A program that keeps `I`, whether it ends or throws. -/
abbrev Keeps (I : σ → Prop) (prog : Prog ε σ α) : Prop := Triple I prog (fun _ => I) fun _ => I

lemma Keeps.mapM {γ : Type} {I : σ → Prop} {f : γ → Prog ε σ α} :
    ∀ {xs : List γ}, (∀ x ∈ xs, Keeps I (f x)) → Keeps I (xs.mapM f)
  | [], _ => Triple.ret fun _ hs => hs
  | x :: xs, hf => by
      rw [List.mapM_cons]
      refine Triple.bind (hf x List.mem_cons_self) fun a => ?_
      refine Triple.bind (Keeps.mapM fun y hy => hf y (List.mem_cons_of_mem x hy)) fun as => ?_
      exact Triple.ret fun _ hs => hs

/-! ## Loops -/

/-- `while (cond b) b = body b`, with fuel: the failure `exhausted` is thrown when the fuel is used
up. -/
def whileLoop (exhausted : ε) (cond : β → Bool) (body : β → Prog ε σ β) : ℕ → β → Prog ε σ β
  | 0, _ => throw exhausted
  | fuel + 1, b =>
      if cond b then do
        let b' ← body b
        whileLoop exhausted cond body fuel b'
      else pure b

/-- **The loop rule.**  The body keeps the invariant and decreases the variant; a loop whose fuel
exceeds the variant ends with the invariant and a false condition. -/
theorem Triple.loop {exhausted : ε} {cond : β → Bool} {body : β → Prog ε σ β}
    (inv : β → σ → Prop) (variant : β → ℕ)
    (hbody : ∀ b, cond b = true →
      Triple (inv b) (body b) (fun b' s => inv b' s ∧ variant b' < variant b) E) :
    ∀ (fuel : ℕ) (b : β), variant b < fuel →
      Triple (inv b) (whileLoop exhausted cond body fuel b)
        (fun b' s => inv b' s ∧ cond b' = false) E
  | 0, _, h => absurd h (Nat.not_lt_zero _)
  | fuel + 1, b, h => by
      rw [whileLoop]
      split_ifs with hc
      · refine Triple.bind (hbody b hc) fun b' => ?_
        intro s hs
        exact Triple.loop inv variant hbody fuel b' (by omega) s hs.1
      · exact Triple.ret fun s hs => ⟨hs, by simpa using hc⟩

/-- The loop rule without a variant: the loop may also use up its fuel. -/
theorem Triple.loop_partial {exhausted : ε} {cond : β → Bool} {body : β → Prog ε σ β}
    (inv : β → σ → Prop) (hbody : ∀ b, cond b = true → Triple (inv b) (body b) inv E)
    (hE : ∀ b s, inv b s → E exhausted s) :
    ∀ (fuel : ℕ) (b : β), Triple (inv b) (whileLoop exhausted cond body fuel b)
      (fun b' s => inv b' s ∧ cond b' = false) E
  | 0, b => Triple.raise (hE b)
  | fuel + 1, b => by
      rw [whileLoop]
      split_ifs with hc
      · exact Triple.bind (hbody b hc) fun b' => Triple.loop_partial inv hbody hE fuel b'
      · exact Triple.ret fun s hs => ⟨hs, by simpa using hc⟩

/-! ## Loops whose rounds are determined

When a round of a loop always returns `f b`, whatever the store, the loop returns what the same loop
without a store computes.
-/

/-- `while (cond b) b = f b`, without a store. -/
def iterateWhile (cond : β → Bool) (f : β → β) : ℕ → β → β
  | 0, b => b
  | fuel + 1, b => if cond b then iterateWhile cond f fuel (f b) else b

section IterateWhile

variable {cond : β → Bool} {f : β → β} {variant : β → ℕ}

/-- Fuel beyond the variant makes no difference. -/
lemma iterateWhile_eq (hf : ∀ b, cond b = true → variant (f b) < variant b) :
    ∀ (fuel fuel' : ℕ) (b : β), variant b < fuel → variant b < fuel' →
      iterateWhile cond f fuel b = iterateWhile cond f fuel' b
  | 0, _, _, h, _ => absurd h (Nat.not_lt_zero _)
  | _ + 1, 0, _, _, h => absurd h (Nat.not_lt_zero _)
  | fuel + 1, fuel' + 1, b, h, h' => by
      rw [iterateWhile, iterateWhile]
      split_ifs with hc
      · have := hf b hc
        exact iterateWhile_eq hf fuel fuel' (f b) (by omega) (by omega)
      · rfl

/-- The loop rule without a store. -/
lemma iterateWhile_inv (hf : ∀ b, cond b = true → variant (f b) < variant b) (inv : β → Prop)
    (hinv : ∀ b, cond b = true → inv b → inv (f b)) :
    ∀ (fuel : ℕ) (b : β), variant b < fuel → inv b →
      inv (iterateWhile cond f fuel b) ∧ cond (iterateWhile cond f fuel b) = false
  | 0, _, h, _ => absurd h (Nat.not_lt_zero _)
  | fuel + 1, b, h, hb => by
      rw [iterateWhile]
      split_ifs with hc
      · have := hf b hc
        exact iterateWhile_inv hf inv hinv fuel (f b) (by omega) (hinv b hc hb)
      · exact ⟨hb, by simpa using hc⟩

/-- **A loop with determined rounds computes the loop without a store.** -/
theorem Triple.loop_eq {exhausted : ε} {body : β → Prog ε σ β} {I : σ → Prop}
    (hf : ∀ b, cond b = true → variant (f b) < variant b)
    (hbody : ∀ b, cond b = true → Triple I (body b) (fun b' s => b' = f b ∧ I s) E) :
    ∀ (fuel : ℕ) (b : β), variant b < fuel →
      Triple I (whileLoop exhausted cond body fuel b)
        (fun b' s => b' = iterateWhile cond f fuel b ∧ I s) E
  | 0, _, h => absurd h (Nat.not_lt_zero _)
  | fuel + 1, b, h => by
      rw [whileLoop, iterateWhile]
      split_ifs with hc
      · have hlt := hf b hc
        refine Triple.bind (hbody b hc) fun b' => ?_
        rintro s ⟨rfl, hs⟩
        exact Triple.loop_eq hf hbody fuel (f b) (by omega) s hs
      · exact Triple.ret fun s hs => ⟨rfl, hs⟩

end IterateWhile

end Program
