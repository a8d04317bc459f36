import Mathlib.Data.List.Sort

/-!
# Scans that skip ahead

A scan goes up through the positions and looks for *hits*.  It has a list of bounds; after each hit it
takes the next bound off the list and goes on there, if that lies ahead.

* `met` — the hits that such a scan meets, the others are jumped over.
* **`met_eq_self_iff`** — the scan meets every hit exactly when, bounds and ascending hits placed side
  by side, no bound exceeds its hit.
-/

namespace SkippingScan

/-- Where a scan goes on after a hit at `i`. -/
def next (i : ℕ) : List ℕ → ℕ
  | [] => i + 1
  | bound :: _ => max (i + 1) bound

/-- The hits that a scan from `i` meets. -/
def met : ℕ → List ℕ → List ℕ → List ℕ
  | _, _, [] => []
  | i, bounds, p :: ps =>
      if p < i then met i bounds ps else p :: met (next p bounds) bounds.tail ps

lemma lt_next (i : ℕ) (bounds : List ℕ) : i < next i bounds := by
  cases bounds with
  | nil => exact Nat.lt_succ_self i
  | cons bound bounds => exact lt_of_lt_of_le (Nat.lt_succ_self i) (le_max_left _ _)

lemma met_sublist : ∀ (hits : List ℕ) (i : ℕ) (bounds : List ℕ), (met i bounds hits).Sublist hits
  | [], _, _ => List.Sublist.refl _
  | p :: ps, i, bounds => by
      rw [met]
      split_ifs with hp
      · exact (met_sublist ps i bounds).cons p
      · exact (met_sublist ps _ _).cons_cons p

/-- A scan never meets what lies behind it. -/
lemma le_of_mem_met : ∀ {hits : List ℕ} {i : ℕ} {bounds : List ℕ} {p : ℕ},
    p ∈ met i bounds hits → i ≤ p
  | [], _, _, _, h => absurd h List.not_mem_nil
  | q :: qs, i, bounds, p, h => by
      rw [met] at h
      split_ifs at h with hq
      · exact le_of_mem_met h
      · rcases List.mem_cons.mp h with rfl | h
        · exact Nat.le_of_not_lt hq
        · have hle := le_of_mem_met h
          have hlt := lt_next q bounds
          omega

lemma met_eq_nil {hits : List ℕ} {i : ℕ} (h : ∀ p ∈ hits, p < i) (bounds : List ℕ) :
    met i bounds hits = [] := by
  refine List.eq_nil_iff_forall_not_mem.mpr fun p hp => ?_
  have hle := le_of_mem_met hp
  have hlt := h p ((met_sublist hits i bounds).subset hp)
  omega

/-- A position without a hit is passed. -/
lemma met_of_notMem : ∀ {hits : List ℕ} {i : ℕ} (bounds : List ℕ), i ∉ hits →
    met i bounds hits = met (i + 1) bounds hits
  | [], _, _, _ => rfl
  | p :: ps, i, bounds, h => by
      rw [List.mem_cons, not_or] at h
      rw [met, met]
      by_cases hp : p < i
      · rw [if_pos hp, if_pos (by omega)]
        exact met_of_notMem bounds h.2
      · rw [if_neg hp, if_neg (by omega)]

/-- At a hit the next bound is taken. -/
lemma met_of_mem : ∀ {hits : List ℕ} {i : ℕ} (bounds : List ℕ), hits.Pairwise (· < ·) → i ∈ hits →
    met i bounds hits = i :: met (next i bounds) bounds.tail hits
  | [], _, _, _, h => absurd h List.not_mem_nil
  | p :: ps, i, bounds, hasc, h => by
      have hps := List.pairwise_cons.mp hasc
      rw [met, met]
      rcases List.mem_cons.mp h with rfl | h
      · rw [if_neg (lt_irrefl i), if_pos (lt_next i bounds)]
      · have hp := hps.1 i h
        have hlt := lt_next i bounds
        rw [if_pos hp, if_pos (by omega)]
        exact met_of_mem bounds hps.2 h

/-- **A scan from its first bound meets every hit exactly when no bound exceeds the hit at its
place.** -/
theorem met_eq_self_iff : ∀ {hits : List ℕ} (first : ℕ) (bounds : List ℕ), hits.Pairwise (· < ·) →
    (met first bounds hits = hits ↔ ∀ sp ∈ (first :: bounds).zip hits, sp.1 ≤ sp.2)
  | [], _, _, _ => by simp [met]
  | p :: ps, first, bounds, hasc => by
      have hps := List.pairwise_cons.mp hasc
      rw [List.zip_cons_cons, List.forall_mem_cons, met]
      split_ifs with hp
      · refine iff_of_false (fun h => ?_) fun h => absurd h.1 (Nat.not_le_of_lt hp)
        have hlen := (met_sublist ps first bounds).length_le
        rw [h, List.length_cons] at hlen
        omega
      · rw [List.cons.injEq, eq_self_iff_true, true_and, and_iff_right (Nat.le_of_not_lt hp)]
        cases bounds with
        | nil =>
            rw [next, List.tail_nil, met_eq_self_iff (p + 1) [] hps.2, List.zip_nil_left]
            refine iff_of_true (fun sp hsp => ?_) fun sp hsp => absurd hsp List.not_mem_nil
            cases ps with
            | nil => exact absurd hsp List.not_mem_nil
            | cons q qs =>
                rw [List.zip_cons_cons, List.zip_nil_left, List.mem_singleton] at hsp
                subst hsp
                exact hps.1 q List.mem_cons_self
        | cons bound bounds =>
            rw [next, List.tail_cons, met_eq_self_iff _ bounds hps.2]
            cases ps with
            | nil => simp
            | cons q qs =>
                have hq : p + 1 ≤ q := hps.1 q List.mem_cons_self
                rw [List.zip_cons_cons, List.zip_cons_cons, List.forall_mem_cons,
                  List.forall_mem_cons, Nat.max_le, and_iff_right hq]

end SkippingScan
