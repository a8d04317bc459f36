import Mathlib.Data.List.Basic
import Mathlib.Data.List.Infix

/-!
# The first match of a pattern

A pattern is looked for in a list, from the front.

* `position` — where the first match starts.
* `First` — what stands before and after the first match; `position_eq_some_iff`,
  `position_eq_none_iff`.
* **`First.append`**, **`first_append_iff`** — what does not contain the first letter of the pattern can be put
  in front of the list.
* `find?_zipIdx` — the first element with a property, when it is looked for with its index.
-/

namespace FirstMatch

variable {α : Type*}

/-- The list starts with `before` and the pattern, and no match starts earlier. -/
structure First (pattern text before after : List α) : Prop where
  eq : text = before ++ pattern ++ after
  le : ∀ before' after', text = before' ++ pattern ++ after' → before.length ≤ before'.length

variable {pattern text before after : List α}

lemma First.unique {before' after' : List α} (h : First pattern text before after)
    (h' : First pattern text before' after') : before = before' ∧ after = after' := by
  have hlen : before.length = before'.length :=
    le_antisymm (h.le _ _ h'.eq) (h'.le _ _ h.eq)
  have heq := h.eq.symm.trans h'.eq
  rw [List.append_assoc, List.append_assoc] at heq
  obtain ⟨hbefore, hrest⟩ := List.append_inj heq hlen
  exact ⟨hbefore, List.append_cancel_left hrest⟩

/-- A match does not start within a front that lacks the first letter. -/
lemma exists_eq_append_of_match {c : α} {front : List α} (hc : c ∉ front)
    (h : front ++ text = before ++ (c :: pattern) ++ after) :
    ∃ middle, before = front ++ middle ∧ text = middle ++ (c :: pattern) ++ after := by
  rw [List.append_assoc] at h
  rcases List.append_eq_append_iff.mp h with ⟨middle, rfl, hmiddle⟩ | ⟨middle, rfl, hmiddle⟩
  · exact ⟨middle, rfl, by rw [hmiddle, List.append_assoc]⟩
  · cases middle with
    | nil => exact ⟨[], by simp only [List.append_nil], hmiddle.symm⟩
    | cons d middle =>
        injection hmiddle with hd _
        exact absurd (List.mem_append_right before (hd ▸ List.mem_cons_self)) hc

lemma First.append {c : α} {front : List α} (hc : c ∉ front) (h : First (c :: pattern) text before after) :
    First (c :: pattern) (front ++ text) (front ++ before) after where
  eq := by rw [h.eq]; simp only [List.append_assoc]
  le := by
    intro before' after' heq
    obtain ⟨middle, rfl, hmiddle⟩ := exists_eq_append_of_match hc heq
    have hle := h.le middle after' hmiddle
    rw [List.length_append, List.length_append]
    omega

lemma first_append_iff {c : α} {front : List α} (hc : c ∉ front) :
    First (c :: pattern) (front ++ text) before after ↔
      ∃ middle, before = front ++ middle ∧ First (c :: pattern) text middle after := by
  constructor
  · intro h
    obtain ⟨middle, rfl, hmiddle⟩ := exists_eq_append_of_match hc h.eq
    refine ⟨middle, rfl, hmiddle, fun before' after' heq => ?_⟩
    have hle := h.le (front ++ before') after' (by rw [heq]; simp only [List.append_assoc])
    rw [List.length_append, List.length_append] at hle
    omega
  · rintro ⟨middle, rfl, h⟩
    exact h.append hc

/-- A letter is matched where it first stands. -/
lemma first_singleton {c : α} (hc : c ∉ before) : First [c] (before ++ c :: after) before after := by
  have hhere : First [c] (c :: after) [] after := ⟨rfl, fun _ _ _ => Nat.zero_le _⟩
  have hfront := hhere.append hc
  rwa [List.append_nil] at hfront

/-- A pattern stands where the list has it as a prefix of a rest. -/
lemma prefix_drop_iff {i : ℕ} (hi : i ≤ text.length) : pattern <+: text.drop i ↔
    ∃ before after, text = before ++ pattern ++ after ∧ before.length = i := by
  constructor
  · rintro ⟨after, hafter⟩
    refine ⟨text.take i, after, ?_, List.length_take_of_le hi⟩
    rw [List.append_assoc, hafter, List.take_append_drop]
  · rintro ⟨before, after, rfl, rfl⟩
    rw [List.append_assoc, List.drop_left]
    exact List.prefix_append _ _

section

variable [DecidableEq α]

/-- Where the first match starts. -/
def position (pattern text : List α) : Option ℕ :=
  text.tails.findIdx? (pattern.isPrefixOf ·)

lemma position_eq_some_iff_prefix {i : ℕ} : position pattern text = some i ↔
    i ≤ text.length ∧ pattern <+: text.drop i ∧ ∀ j < i, ¬pattern <+: text.drop j := by
  rw [position, List.findIdx?_eq_some_iff_getElem]
  simp only [List.getElem_tails, List.isPrefixOf_iff_prefix, List.length_tails, Nat.lt_succ_iff,
    exists_prop]

lemma First.position_eq (h : First pattern text before after) :
    position pattern text = some before.length := by
  have hle : before.length ≤ text.length := by
    rw [h.eq, List.append_assoc, List.length_append]
    exact Nat.le_add_right _ _
  refine position_eq_some_iff_prefix.mpr ⟨hle, (prefix_drop_iff hle).mpr ⟨before, after, h.eq, rfl⟩, ?_⟩
  intro j hj hprefix
  obtain ⟨before', after', heq, rfl⟩ := (prefix_drop_iff (hj.le.trans hle)).mp hprefix
  exact absurd (h.le before' after' heq) (not_le.mpr hj)

lemma position_eq_some_iff {i : ℕ} : position pattern text = some i ↔
    ∃ before after, First pattern text before after ∧ before.length = i := by
  constructor
  · intro h
    obtain ⟨hle, hprefix, hnone⟩ := position_eq_some_iff_prefix.mp h
    obtain ⟨before, after, heq, rfl⟩ := (prefix_drop_iff hle).mp hprefix
    refine ⟨before, after, ⟨heq, fun before' after' heq' => ?_⟩, rfl⟩
    by_contra hlt
    have hlt := not_le.mp hlt
    exact hnone _ hlt ((prefix_drop_iff (hlt.le.trans hle)).mpr ⟨before', after', heq', rfl⟩)
  · rintro ⟨before, after, h, rfl⟩
    exact h.position_eq

lemma first_of_position {i : ℕ} (h : position pattern text = some i) :
    First pattern text (text.take i) (text.drop (i + pattern.length)) := by
  obtain ⟨before, after, hfirst, rfl⟩ := position_eq_some_iff.mp h
  have htake : text.take before.length = before := by
    rw [hfirst.eq, List.append_assoc, List.take_left]
  have hdrop : text.drop (before.length + pattern.length) = after := by
    rw [hfirst.eq, ← List.length_append, List.drop_left]
  rw [htake, hdrop]
  exact hfirst

/-- There is no match in the list, or a first one. -/
lemma position_eq_none_iff : position pattern text = none ↔ ¬∃ before after, First pattern text before after := by
  constructor
  · rintro h ⟨before, after, hfirst⟩
    rw [hfirst.position_eq] at h
    contradiction
  · intro h
    cases hposition : position pattern text with
    | none => rfl
    | some i =>
        obtain ⟨before, after, hfirst, -⟩ := position_eq_some_iff.mp hposition
        exact absurd ⟨before, after, hfirst⟩ h

end

/-! ## The first element with a property -/

/-- The first element is found with its index. -/
lemma find?_zipIdx (p : α → Bool) (l : List α) (n : ℕ) :
    ((l.zipIdx n).find? fun t => p t.1).map Prod.fst = l.find? p := by
  induction l generalizing n with
  | nil => rfl
  | cons a l ih =>
      rw [List.zipIdx_cons, List.find?_cons, List.find?_cons]
      cases p a with
      | true => rfl
      | false => exact ih (n + 1)

end FirstMatch
