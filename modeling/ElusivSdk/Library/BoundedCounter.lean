import Mathlib.Data.List.Count
import Mathlib.Logic.Function.Basic

/-!
# Bounded counters

One counter for each key.  A counter that is full is cleared down to `left` before it counts the next.

* `add`, `overflows` — counting a list of keys, and where a counter is cleared.
* **`overflows_eq_iff`** — which two starts clear their counters at the same places.
-/

namespace BoundedCounter

variable {κ : Type} [DecidableEq κ] (capacity left : ℕ)

def add (counts : κ → ℕ) (k : κ) : κ → ℕ :=
  Function.update counts k (if counts k = capacity then left + 1 else counts k + 1)

def overflows : (κ → ℕ) → List κ → List Bool
  | _, [] => []
  | counts, k :: ks => decide (counts k = capacity) :: overflows (add capacity left counts k) ks

variable {capacity left} {counts : κ → ℕ}

lemma add_self (k : κ) : add capacity left counts k k
    = if counts k = capacity then left + 1 else counts k + 1 := Function.update_self ..

lemma add_of_ne {k k' : κ} (h : k' ≠ k) : add capacity left counts k k' = counts k' :=
  Function.update_of_ne h ..

/-- A counter never exceeds its capacity. -/
lemma add_le (hleft : left < capacity) (h : ∀ k, counts k ≤ capacity) (k k' : κ) :
    add capacity left counts k k' ≤ capacity := by
  by_cases hk : k' = k
  · rw [hk, add_self]
    have := h k
    split_ifs
    · exact hleft
    · omega
  · rw [add_of_ne hk]
    exact h k'

/-- **Two starts clear their counters at the same places exactly when**, for every key, they are the same or
none of them is cleared. -/
theorem overflows_eq_iff (hleft : left < capacity) : ∀ {c d : κ → ℕ} {ks : List κ},
    (∀ k, c k ≤ capacity) → (∀ k, d k ≤ capacity) →
    (overflows capacity left c ks = overflows capacity left d ks ↔
      ∀ k, c k = d k ∨ ks.count k + max (c k) (d k) ≤ capacity)
  | c, d, [], hc, hd => by
      refine iff_of_true rfl fun k => Or.inr ?_
      rw [List.count_nil, Nat.zero_add]
      exact Nat.max_le.mpr ⟨hc k, hd k⟩
  | c, d, k :: ks, hc, hd => by
      have ih := @overflows_eq_iff hleft _ _ ks (add_le hleft hc k) (add_le hleft hd k)
      rw [overflows, overflows, List.cons.injEq, ih, decide_eq_decide]
      have hother : ∀ {k'}, k' ≠ k → ((add capacity left c k k' = add capacity left d k k' ∨
          ks.count k' + max (add capacity left c k k') (add capacity left d k k') ≤ capacity) ↔
          (c k' = d k' ∨ (k :: ks).count k' + max (c k') (d k') ≤ capacity)) := by
        intro k' hk'
        rw [add_of_ne hk', add_of_ne hk', List.count_cons_of_ne (Ne.symm hk')]
      have hself : ((c k = capacity ↔ d k = capacity) ∧
          (add capacity left c k k = add capacity left d k k ∨
            ks.count k + max (add capacity left c k k) (add capacity left d k k) ≤ capacity)) ↔
          (c k = d k ∨ (k :: ks).count k + max (c k) (d k) ≤ capacity) := by
        have hck := hc k
        have hdk := hd k
        rw [add_self, add_self, List.count_cons_self]
        -- both are full, one of them is, or none
        by_cases hcfull : c k = capacity
        · by_cases hdfull : d k = capacity
          · simp [hcfull, hdfull]
          · rw [if_pos hcfull, if_neg hdfull]
            omega
        · by_cases hdfull : d k = capacity
          · rw [if_neg hcfull, if_pos hdfull]
            omega
          · rw [if_neg hcfull, if_neg hdfull]
            omega
      constructor
      · rintro ⟨hfull, hrest⟩ k'
        by_cases hk' : k' = k
        · subst hk'
          exact hself.mp ⟨hfull, hrest k'⟩
        · exact (hother hk').mp (hrest k')
      · intro h
        refine ⟨(hself.mpr (h k)).1, fun k' => ?_⟩
        by_cases hk' : k' = k
        · subst hk'
          exact (hself.mpr (h k')).2
        · exact (hother hk').mpr (h k')

end BoundedCounter
