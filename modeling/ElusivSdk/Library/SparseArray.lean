import ElusivSdk.Library.Descending

/-!
# Sparse arrays of lists

A JavaScript array may have holes: it is a list of options here, `at xs i` is what reading index
`i` gives, and `assign xs i a` is the assignment `xs[i] = a`, which fills the gap before `i` with
holes.  `slice` follows the language: a negative bound counts from the end.

An array of lists is read as a family by `bucket`, a hole counting as the empty list; a slice of it,
flattened and reversed, is a descending reading of that family (`reverse_flatten_slice`).
-/

namespace SparseArray

open Descending

variable {α : Type*}

/-- Reading an index. -/
def at? (xs : List (Option α)) (i : ℕ) : Option α := xs[i]?.join

/-- The assignment `xs[i] = a`. -/
def assign (xs : List (Option α)) (i : ℕ) (a : α) : List (Option α) :=
  if i < xs.length then xs.set i (some a)
  else xs ++ List.replicate (i - xs.length) none ++ [some a]

@[simp]
lemma at?_nil (i : ℕ) : at? ([] : List (Option α)) i = none := by simp [at?]

lemma at?_assign (xs : List (Option α)) (i j : ℕ) (a : α) :
    at? (assign xs i a) j = if j = i then some a else at? xs j := by
  unfold at? assign
  by_cases hi : i < xs.length
  · rw [if_pos hi, List.getElem?_set]
    by_cases hij : i = j
    · subst hij
      simp [hi]
    · simp [hij, Ne.symm hij]
  · rw [if_neg hi]
    have hlen : (xs ++ List.replicate (i - xs.length) (none : Option α)).length = i := by
      simp only [List.length_append, List.length_replicate]
      omega
    rcases Nat.lt_trichotomy j i with hj | hj | hj
    · rw [List.getElem?_append_left (by omega), if_neg (by omega)]
      rcases Nat.lt_or_ge j xs.length with hx | hx
      · rw [List.getElem?_append_left hx]
      · rw [List.getElem?_append_right hx, List.getElem?_eq_none hx]
        simp only [List.getElem?_replicate]
        split_ifs <;> rfl
    · subst hj
      rw [List.getElem?_append_right (by omega), hlen]
      simp
    · rw [List.getElem?_eq_none (by simp only [List.length_append, hlen, List.length_cons]; simp; omega),
        if_neg (by omega), List.getElem?_eq_none (by omega)]

/-- Every place that was assigned is read back, when what is assigned depends on the place only. -/
lemma at?_foldl_assign (f : ℕ → α) (j : ℕ) :
    ∀ (places : List ℕ) (xs : List (Option α)),
      at? (places.foldl (fun xs i => assign xs i (f i)) xs) j
        = if j ∈ places then some (f j) else at? xs j
  | [], _ => rfl
  | i :: places, xs => by
      rw [List.foldl_cons, at?_foldl_assign f j places, at?_assign]
      by_cases hmem : j ∈ places
      · rw [if_pos hmem, if_pos (List.mem_cons_of_mem _ hmem)]
      · rw [if_neg hmem]
        by_cases hij : j = i
        · rw [if_pos hij, hij, if_pos List.mem_cons_self]
        · rw [if_neg hij, if_neg fun h => (List.mem_cons.mp h).elim hij hmem]

/-! ## Slices -/

/-- A bound of `slice`: negative bounds count from the end, and no bound exceeds the length. -/
def sliceBound (len : ℕ) (i : ℤ) : ℕ := if i < 0 then (len + i).toNat else min i.toNat len

/-- `xs.slice(start, stop)`. -/
def slice {β : Type*} (xs : List β) (start : ℤ) (stop : Option ℤ) : List β :=
  let first := sliceBound xs.length start
  let last := (stop.map (sliceBound xs.length)).getD xs.length
  (xs.drop first).take (last - first)

/-- A negative upper bound is the bound that it counts down to. -/
lemma slice_neg {β : Type*} (xs : List β) (start : ℤ) {stop : ℤ} (h : stop < 0) :
    slice xs start (some stop) = slice xs start (some ((xs.length + stop).toNat : ℕ)) := by
  have hbound : sliceBound xs.length stop = sliceBound xs.length ((xs.length + stop).toNat : ℕ) := by
    rw [sliceBound, if_pos h, sliceBound, if_neg (by omega)]
    omega
  simp only [slice, Option.map_some, hbound]

/-- The list held at an index, a hole counting as the empty list. -/
def bucket (xs : List (Option (List α))) (i : ℕ) : List α := (at? xs i).getD []

@[simp]
lemma bucket_nil (i : ℕ) : bucket ([] : List (Option (List α))) i = [] := by simp [bucket]

lemma bucket_of_length_le {xs : List (Option (List α))} {i : ℕ} (h : xs.length ≤ i) :
    bucket xs i = [] := by
  simp [bucket, at?, List.getElem?_eq_none h]

/-- What a slice holds is held at some index. -/
lemma exists_bucket_of_mem_slice {xs : List (Option (List α))} {start : ℤ} {stop : Option ℤ} {x : α}
    (hx : x ∈ (slice xs start stop).flatMap fun b => b.getD []) : ∃ i, x ∈ bucket xs i := by
  obtain ⟨b, hb, hx⟩ := List.mem_flatMap.mp hx
  have hmem : b ∈ xs := List.mem_of_mem_drop (List.mem_of_mem_take hb)
  obtain ⟨i, hi, rfl⟩ := List.mem_iff_getElem.mp hmem
  refine ⟨i, ?_⟩
  rwa [bucket, at?, List.getElem?_eq_getElem hi]

lemma reverse_flatten_take_drop (xs : List (Option (List α))) (lo : ℕ) :
    ∀ hi : ℕ, hi ≤ xs.length →
      (((xs.drop lo).take (hi - lo)).flatMap fun b => b.getD []).reverse = between (bucket xs) lo hi
  | 0, _ => by simp
  | n + 1, h => by
      rw [between]
      split_ifs with hlo
      · have hsub : n + 1 - lo = (n - lo) + 1 := by omega
        have hidx : lo + (n - lo) = n := by omega
        have hget : xs[n]? = some xs[n] := List.getElem?_eq_getElem (by omega)
        rw [hsub, List.take_add_one, List.flatMap_append, List.reverse_append,
          reverse_flatten_take_drop xs lo n (by omega), List.getElem?_drop, hidx, hget]
        congr 1
        simp [bucket, at?, hget]
      · have hsub : n + 1 - lo = 0 := by omega
        rw [hsub]
        rfl

/-- **A slice with natural bounds, flattened and reversed, is a descending reading.** -/
lemma reverse_flatten_slice (xs : List (Option (List α))) (lo hi : ℕ) :
    ((slice xs lo (some hi)).flatMap fun b => b.getD []).reverse = between (bucket xs) lo hi := by
  have hlo : ¬ (lo : ℤ) < 0 := by omega
  have hhi : ¬ (hi : ℤ) < 0 := by omega
  simp only [slice, sliceBound, Option.map_some, Option.getD_some, if_neg hlo, if_neg hhi,
    Int.toNat_natCast]
  rw [reverse_flatten_take_drop xs _ _ (Nat.min_le_right _ _)]
  have htop : between (bucket xs) (min lo xs.length) hi
      = between (bucket xs) (min lo xs.length) (min hi xs.length) := by
    rcases Nat.le_total hi xs.length with h | h
    · rw [Nat.min_eq_left h]
    · rw [Nat.min_eq_right h]
      exact between_eq_of_empty h fun n hn => bucket_of_length_le hn
  rw [← htop]
  rcases Nat.le_total lo xs.length with h | h
  · rw [Nat.min_eq_left h]
  · rw [Nat.min_eq_right h, between_eq_nil fun n hn _ => bucket_of_length_le hn,
      between_eq_nil fun n hn _ => bucket_of_length_le (Nat.le_trans h hn)]

/-- A slice without an upper bound reads to the end. -/
lemma reverse_flatten_slice_none (xs : List (Option (List α))) (lo hi : ℕ)
    (h : xs.length ≤ hi) :
    ((slice xs lo none).flatMap fun b => b.getD []).reverse = between (bucket xs) lo hi := by
  rw [← reverse_flatten_slice]
  have hhi : ¬ (hi : ℤ) < 0 := by omega
  simp [slice, sliceBound, if_neg hhi, Nat.min_eq_right h]

end SparseArray
