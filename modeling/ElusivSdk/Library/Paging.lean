import Mathlib.Data.List.Basic
import Mathlib.Tactic.Common

/-!
# Lists that are read in pages

A service answers requests for a long list with pages of it.  A request names the key of an entry, the
*cursor*, and the page holds what follows that entry.

* `pageAfter` — the page after a cursor.  **`pageAfter_append`**: with distinct keys the cursor of the
  entries read so far gives the next ones.
* `Leading` — a selection that holds the first entries of a list only, as a bound on a sorted list does.
  The last entry of a page tells whether the selection may go on: `Leading.filter_append_of_last`.
-/

namespace Paging

variable {α κ : Type*}

section Pages

variable [DecidableEq κ] (key : α → κ)

/-- At most `size` entries, those that follow the entry with the key `cursor`; the first ones without a
cursor. -/
def pageAfter (size : ℕ) (cursor : Option κ) (xs : List α) : List α :=
  match cursor with
  | none => xs.take size
  | some k => ((xs.dropWhile fun x => key x ≠ k).drop 1).take size

variable {key}

/-- **The cursor of what was read gives what comes next.** -/
lemma pageAfter_append {size : ℕ} {read rest : List α} (hd : ((read ++ rest).map key).Nodup) :
    pageAfter key size (read.getLast?.map key) (read ++ rest) = rest.take size := by
  rcases List.eq_nil_or_concat' read with rfl | ⟨front, x, rfl⟩
  · rfl
  · have hfront : ∀ y ∈ front, (key y ≠ key x) = true := by
      intro y hy
      rw [List.append_assoc, List.map_append] at hd
      have hne := (List.nodup_append.mp hd).2.2 (key y) (List.mem_map_of_mem hy) (key x) (by simp)
      simpa using hne
    have hdrop : ((front ++ [x]) ++ rest).dropWhile (fun y => decide (key y ≠ key x)) = x :: rest := by
      rw [List.append_assoc, List.dropWhile_append_of_pos fun y hy => by simpa using hfront y hy,
        List.cons_append, List.dropWhile_cons_of_neg (by simp), List.nil_append]
    rw [List.getLast?_concat, Option.map_some, pageAfter, hdrop, List.drop_one, List.tail_cons]

end Pages

/-! ## Selections of the first entries -/

/-- An entry is kept only if every entry before it is. -/
def Leading (keep : α → Bool) (xs : List α) : Prop :=
  xs.Pairwise fun x y => keep y = true → keep x = true

namespace Leading

variable {keep : α → Bool} {page rest : List α}

/-- After a page whose last entry is not kept nothing is. -/
lemma filter_append_of_last (h : Leading keep (page ++ rest)) {x : α}
    (hlast : page.getLast? = some x) (hx : keep x = false) :
    (page ++ rest).filter keep = page.filter keep := by
  have hmem := List.mem_of_getLast? hlast
  have hrest : rest.filter keep = [] := List.filter_eq_nil_iff.mpr fun y hy hkeep => by
    rw [(List.pairwise_append.mp h).2.2 x hmem y hy hkeep] at hx
    contradiction
  rw [List.filter_append, hrest, List.append_nil]

end Leading

end Paging
