import Mathlib.Data.List.Basic
import Mathlib.Data.List.Dedup
import Mathlib.Data.Nat.Basic
import Mathlib.Algebra.BigOperators.Group.List.Basic
import Mathlib.Tactic.Common

/-!
# Families of lists read from the newest index down

A *family* `f : ℕ → List α` keeps a finite list at every index; an index may hold several
entries.  Readers of such a store go from the newest index to the oldest, so the basic reading is
`between f lo hi`: the entries with index in `[lo, hi)`, the largest index first, each list
reversed.

* `between` — the reading, with its splitting lemma `between_append` and its membership lemma
  `mem_between`.
* `between_pairwise` — a family graded by a key is read in descending order of the key.
* `takeGroups` — the first `count` entries of such a reading, completed so that no group of equal
  keys is cut in two.  **`takeGroups_append`**: what is strictly below enough entries is never
  looked at; **`takeGroups_between`**: on a graded family the result is again a reading;
  **`takeGroups_perm_topKeys_iff`**: when it is the groups of the `count` largest keys.
-/

namespace Descending

variable {α β : Type*}

/-! ## Readings -/

/-- The entries of `f` with index in `[lo, hi)`, from the largest index down; the entries of one
index come in reverse. -/
def between (f : ℕ → List α) (lo : ℕ) : ℕ → List α
  | 0 => []
  | n + 1 => if lo ≤ n then (f n).reverse ++ between f lo n else []

/-- The entries with index below `hi`. -/
abbrev below (f : ℕ → List α) (hi : ℕ) : List α := between f 0 hi

@[simp]
lemma between_zero (f : ℕ → List α) (lo : ℕ) : between f lo 0 = [] := rfl

lemma between_succ {f : ℕ → List α} {lo n : ℕ} (h : lo ≤ n) :
    between f lo (n + 1) = (f n).reverse ++ between f lo n := by
  rw [between, if_pos h]

lemma between_of_le {f : ℕ → List α} {lo : ℕ} : ∀ {hi : ℕ}, hi ≤ lo → between f lo hi = []
  | 0, _ => rfl
  | n + 1, h => by
      rw [between, if_neg (by omega)]

@[simp]
lemma between_self (f : ℕ → List α) (n : ℕ) : between f n n = [] :=
  between_of_le (Nat.le_refl n)

lemma between_singleton (f : ℕ → List α) (n : ℕ) : between f n (n + 1) = (f n).reverse := by
  rw [between_succ (Nat.le_refl n), between_self, List.append_nil]

/-- A reading splits at every index in its range. -/
lemma between_append {f : ℕ → List α} {lo mid : ℕ} (hlo : lo ≤ mid) :
    ∀ {hi : ℕ}, mid ≤ hi → between f lo hi = between f mid hi ++ between f lo mid
  | 0, h => by
      have hmid : mid = 0 := by omega
      subst hmid
      simp
  | n + 1, h => by
      rcases Nat.lt_or_ge n mid with hn | hn
      · have hmid : mid = n + 1 := by omega
        subst hmid
        simp
      · rw [between_succ (by omega : lo ≤ n), between_succ hn, between_append hlo hn,
          List.append_assoc]

@[simp]
lemma mem_between {f : ℕ → List α} {lo : ℕ} {x : α} :
    ∀ {hi : ℕ}, x ∈ between f lo hi ↔ ∃ n, lo ≤ n ∧ n < hi ∧ x ∈ f n
  | 0 => by simp
  | n + 1 => by
      rw [between]
      split_ifs with h
      · rw [List.mem_append, List.mem_reverse, mem_between]
        constructor
        · rintro (hx | ⟨m, hlo, hm, hx⟩)
          · exact ⟨n, h, by omega, hx⟩
          · exact ⟨m, hlo, by omega, hx⟩
        · rintro ⟨m, hlo, hm, hx⟩
          rcases Nat.lt_or_ge m n with hmn | hmn
          · exact Or.inr ⟨m, hlo, hmn, hx⟩
          · have hmn : m = n := by omega
            subst hmn
            exact Or.inl hx
      · simp only [List.not_mem_nil, false_iff]
        rintro ⟨m, hlo, hm, -⟩
        omega

lemma between_congr {f g : ℕ → List α} {lo : ℕ} :
    ∀ {hi : ℕ}, (∀ n, lo ≤ n → n < hi → f n = g n) → between f lo hi = between g lo hi
  | 0, _ => rfl
  | n + 1, h => by
      rw [between, between]
      split_ifs with hlo
      · rw [h n hlo (by omega), between_congr fun m h1 h2 => h m h1 (by omega)]
      · rfl

lemma between_eq_nil {f : ℕ → List α} {lo hi : ℕ} (h : ∀ n, lo ≤ n → n < hi → f n = []) :
    between f lo hi = [] := by
  refine List.eq_nil_iff_forall_not_mem.mpr fun x hx => ?_
  obtain ⟨n, h1, h2, h3⟩ := mem_between.mp hx
  rw [h n h1 h2] at h3
  exact List.not_mem_nil h3

/-- Indices that hold nothing may be dropped from the top of a reading. -/
lemma between_eq_of_empty {f : ℕ → List α} {lo hi hi' : ℕ} (hle : hi ≤ hi')
    (h : ∀ n, hi ≤ n → f n = []) : between f lo hi' = between f lo hi := by
  rcases Nat.le_total lo hi with hlo | hlo
  · rw [between_append hlo hle, between_eq_nil fun n hn _ => h n hn, List.nil_append]
  · rw [between_of_le hlo]
    exact between_eq_nil fun n hn _ => h n (by omega)

/-- Filtering a reading is reading the filtered family. -/
lemma filter_between (f : ℕ → List α) (p : α → Bool) (lo : ℕ) :
    ∀ hi : ℕ, (between f lo hi).filter p = between (fun n => (f n).filter p) lo hi
  | 0 => rfl
  | n + 1 => by
      rw [between, between]
      split_ifs with h
      · rw [List.filter_append, List.filter_reverse, filter_between f p lo n]
      · rfl

/-- Every index that holds an entry contributes to the length. -/
lemma sub_le_length_between {f : ℕ → List α} {lo : ℕ} :
    ∀ {hi : ℕ}, (∀ n, lo ≤ n → n < hi → f n ≠ []) → hi - lo ≤ (between f lo hi).length
  | 0, _ => by simp
  | n + 1, h => by
      rw [between]
      split_ifs with hlo
      · have hn : 0 < (f n).length := List.length_pos_iff.mpr (h n hlo (by omega))
        have ih : n - lo ≤ (between f lo n).length :=
          sub_le_length_between fun m h1 h2 => h m h1 (by omega)
        simp only [List.length_append, List.length_reverse]
        omega
      · simp only [List.length_nil]
        omega

/-! ## Graded families -/

/-- A family graded by `key`: the entries at index `n` carry the key `n`. -/
def Graded (key : α → ℕ) (f : ℕ → List α) : Prop := ∀ n, ∀ x ∈ f n, key x = n

lemma Graded.filter {key : α → ℕ} {f : ℕ → List α} (h : Graded key f) (p : α → Bool) :
    Graded key fun n => (f n).filter p :=
  fun n x hx => h n x (List.mem_of_mem_filter hx)

lemma Graded.mem_between {key : α → ℕ} {f : ℕ → List α} (h : Graded key f) {lo hi : ℕ} {x : α} :
    x ∈ between f lo hi ↔ lo ≤ key x ∧ key x < hi ∧ x ∈ f (key x) := by
  rw [Descending.mem_between]
  constructor
  · rintro ⟨n, h1, h2, h3⟩
    have hkey := h n x h3
    subst hkey
    exact ⟨h1, h2, h3⟩
  · rintro ⟨h1, h2, h3⟩
    exact ⟨_, h1, h2, h3⟩

/-- **A graded family is read in descending order of the key.** -/
lemma Graded.between_pairwise {key : α → ℕ} {f : ℕ → List α} (h : Graded key f) (lo : ℕ) :
    ∀ hi : ℕ, (between f lo hi).Pairwise fun x y => key y ≤ key x
  | 0 => List.Pairwise.nil
  | n + 1 => by
      rw [between]
      split_ifs with hlo
      · refine List.pairwise_append.mpr ⟨?_, h.between_pairwise lo n, ?_⟩
        · refine List.pairwise_of_forall_mem_list fun x hx y hy => ?_
          exact le_of_eq ((h n y (List.mem_reverse.mp hy)).trans (h n x (List.mem_reverse.mp hx)).symm)
        · intro x hx y hy
          have hx' := h n x (List.mem_reverse.mp hx)
          have hy' := (h.mem_between.mp hy).2.1
          omega
      · exact List.Pairwise.nil

/-- Entries of different indices are different. -/
lemma Graded.between_nodup {key : α → ℕ} {f : ℕ → List α} (h : Graded key f)
    (hnodup : ∀ n, (f n).Nodup) (lo : ℕ) : ∀ hi : ℕ, (between f lo hi).Nodup
  | 0 => List.nodup_nil
  | n + 1 => by
      rw [between]
      split_ifs with hlo
      · refine List.nodup_append.mpr ⟨List.nodup_reverse.mpr (hnodup n), h.between_nodup hnodup lo n, ?_⟩
        rintro x hx _ hy rfl
        have hkey := h n x (List.mem_reverse.mp hx)
        have hlt := (h.mem_between.mp hy).2.1
        omega
      · exact List.nodup_nil

/-- Keeping the keys from `m` up in a reading moves its lower end to `m`. -/
lemma Graded.filter_le_between {key : α → ℕ} {f : ℕ → List α} (h : Graded key f)
    {lo m hi : ℕ} (hlo : lo ≤ m) :
    (between f lo hi).filter (fun x => m ≤ key x) = between f m hi := by
  rcases Nat.le_total m hi with hm | hm
  · rw [between_append hlo hm, List.filter_append]
    have hhigh : (between f m hi).filter (fun x => decide (m ≤ key x)) = between f m hi :=
      List.filter_eq_self.mpr fun x hx => by
        have := (h.mem_between.mp hx).1
        simpa using this
    have hlow : (between f lo m).filter (fun x => decide (m ≤ key x)) = [] :=
      List.filter_eq_nil_iff.mpr fun x hx => by
        have := (h.mem_between.mp hx).2.1
        simp only [decide_eq_true_eq]
        omega
    rw [hhigh, hlow, List.append_nil]
  · rw [between_of_le hm]
    refine List.filter_eq_nil_iff.mpr fun x hx => ?_
    have := (h.mem_between.mp hx).2.1
    simp only [decide_eq_true_eq]
    omega

/-- The keys below `n` in a reading are the reading below `n`. -/
lemma Graded.filter_lt_between {key : α → ℕ} {f : ℕ → List α} (h : Graded key f)
    {lo n hi : ℕ} (hlo : lo ≤ n) (hhi : n ≤ hi) :
    (between f lo hi).filter (fun x => key x < n) = between f lo n := by
  rw [between_append hlo hhi, List.filter_append]
  have hhigh : (between f n hi).filter (fun x => decide (key x < n)) = [] :=
    List.filter_eq_nil_iff.mpr fun x hx => by
      have := (h.mem_between.mp hx).1
      simp only [decide_eq_true_eq]
      omega
  have hlow : (between f lo n).filter (fun x => decide (key x < n)) = between f lo n :=
    List.filter_eq_self.mpr fun x hx => by
      have := (h.mem_between.mp hx).2.1
      simpa using this
  rw [hhigh, hlow, List.nil_append]

/-- One key in a reading is the list of its index, reversed. -/
lemma Graded.filter_eq_between {key : α → ℕ} {f : ℕ → List α} (h : Graded key f)
    {lo n hi : ℕ} (hlo : lo ≤ n) (hhi : n < hi) :
    (between f lo hi).filter (fun x => key x = n) = (f n).reverse := by
  have hsplit : (between f lo hi).filter (fun x => key x = n)
      = ((between f lo hi).filter fun x => n ≤ key x).filter fun x => key x < n + 1 := by
    rw [List.filter_filter]
    refine List.filter_congr fun x _ => ?_
    have hiff : key x = n ↔ key x < n + 1 ∧ n ≤ key x := by omega
    simp only [hiff, Bool.decide_and]
  rw [hsplit, h.filter_le_between hlo, h.filter_lt_between (Nat.le_succ n) hhi, between_singleton]

/-- Families with the same entries at every index have the same entries in every reading. -/
lemma between_perm {f g : ℕ → List α} {lo : ℕ} :
    ∀ {hi : ℕ}, (∀ n, lo ≤ n → n < hi → (f n).Perm (g n)) → (between f lo hi).Perm (between g lo hi)
  | 0, _ => List.Perm.refl []
  | n + 1, h => by
      rw [between, between]
      split_ifs with hlo
      · have hn := h n hlo (Nat.lt_succ_self n)
        refine List.Perm.append ?_ (between_perm fun m h1 h2 => h m h1 (by omega))
        exact (List.reverse_perm _).trans (hn.trans (List.reverse_perm _).symm)
      · exact List.Perm.refl []

/-- **Two readings of graded families hold the same entries exactly when every index does.** -/
lemma Graded.between_perm_iff {key : α → ℕ} {f g : ℕ → List α} (hf : Graded key f)
    (hg : Graded key g) {lo hi : ℕ} :
    (between f lo hi).Perm (between g lo hi) ↔ ∀ n, lo ≤ n → n < hi → (f n).Perm (g n) := by
  refine ⟨fun hperm n h1 h2 => ?_, between_perm⟩
  have hn := hperm.filter fun x => decide (key x = n)
  rw [hf.filter_eq_between h1 h2, hg.filter_eq_between h1 h2] at hn
  exact (List.reverse_perm _).symm.trans (hn.trans (List.reverse_perm _))

/-! ## Whole groups

A reader asks for `count` entries.  When the cut would fall between two entries of one key, the
rest of that group is added, so that a group is always returned whole.
-/

/-- The first `count` entries of `l`, and after them the entries that continue the group of the
last one. -/
def takeGroups (key : α → ℕ) : ℕ → List α → List α
  | 0, _ => []
  | _ + 1, [] => []
  | 1, x :: xs => x :: xs.takeWhile fun y => key y = key x
  | n + 2, x :: xs => x :: takeGroups key (n + 1) xs

@[simp]
lemma takeGroups_zero (key : α → ℕ) (l : List α) : takeGroups key 0 l = [] := by
  cases l <;> rfl

@[simp]
lemma takeGroups_nil (key : α → ℕ) (count : ℕ) : takeGroups key count [] = [] := by
  cases count <;> rfl

lemma head?_takeGroups {key : α → ℕ} {count : ℕ} (hc : 0 < count) (l : List α) :
    (takeGroups key count l).head? = l.head? := by
  match count, l, hc with
  | _, [], _ => rw [takeGroups_nil]
  | 1, x :: xs, _ => rfl
  | n + 2, x :: xs, _ => rfl

lemma takeGroups_of_length_le {key : α → ℕ} :
    ∀ {count : ℕ} {l : List α}, l.length ≤ count → takeGroups key count l = l
  | count, [], _ => takeGroups_nil key count
  | 0, x :: xs, h => by simp at h
  | 1, x :: xs, h => by
      have hxs : xs = [] := by simpa using h
      subst hxs
      rfl
  | n + 2, x :: xs, h => by
      rw [takeGroups, takeGroups_of_length_le (by simpa using h)]

/-- Where every key is strictly below those before it, the groups are the single entries. -/
lemma takeGroups_eq_take {key : α → ℕ} :
    ∀ {count : ℕ} {l : List α}, (l.Pairwise fun x y => key y < key x) →
      takeGroups key count l = l.take count
  | 0, l, _ => by rw [takeGroups_zero, List.take_zero]
  | n + 1, [], _ => by rw [takeGroups_nil, List.take_nil]
  | 1, x :: xs, hp => by
      have hnone : xs.takeWhile (fun y => decide (key y = key x)) = [] := by
        cases xs with
        | nil => rfl
        | cons y ys =>
            have hlt := (List.pairwise_cons.mp hp).1 y List.mem_cons_self
            exact List.takeWhile_cons_of_neg (by simpa using Nat.ne_of_lt hlt)
      rw [takeGroups, hnone, List.take_succ_cons, List.take_zero]
  | n + 2, x :: xs, hp => by
      rw [takeGroups, takeGroups_eq_take (List.pairwise_cons.mp hp).2, List.take_succ_cons]

/-- The groups taken, written with the positions of the list. -/
lemma takeGroups_succ_eq {key : α → ℕ} :
    ∀ {n : ℕ} {l : List α}, takeGroups key (n + 1) l = l.take (n + 1) ++
      match l[n]? with
      | none => []
      | some x => (l.drop (n + 1)).takeWhile fun y => key y = key x
  | n, [] => by simp
  | 0, x :: xs => by simp [takeGroups]
  | n + 1, x :: xs => by
      rw [takeGroups, takeGroups_succ_eq]
      simp

lemma min_le_length_takeGroups (key : α → ℕ) :
    ∀ (count : ℕ) (l : List α), min count l.length ≤ (takeGroups key count l).length
  | _, [] => by simp
  | 0, _ :: _ => by simp
  | 1, x :: xs => by simp [takeGroups]
  | n + 2, x :: xs => by
      have ih := min_le_length_takeGroups key (n + 1) xs
      simp only [takeGroups, List.length_cons]
      omega

lemma takeGroups_sublist (key : α → ℕ) : ∀ (count : ℕ) (l : List α), (takeGroups key count l).Sublist l
  | 0, l => by
      rw [takeGroups_zero]
      exact List.nil_sublist l
  | n + 1, [] => by rw [takeGroups_nil]
  | 1, x :: xs => (List.takeWhile_sublist _).cons_cons x
  | n + 2, x :: xs => (takeGroups_sublist key (n + 1) xs).cons_cons x

/-- **What lies strictly below enough entries is never looked at.** -/
lemma takeGroups_append {key : α → ℕ} :
    ∀ {count : ℕ} {l₁ l₂ : List α}, count ≤ l₁.length →
      (∀ x ∈ l₁, ∀ y ∈ l₂, key y < key x) →
      takeGroups key count (l₁ ++ l₂) = takeGroups key count l₁
  | 0, l₁, l₂, _, _ => by simp
  | n + 1, [], l₂, h, _ => by simp at h
  | 1, x :: xs, l₂, _, hlt => by
      have hl₂ : l₂.takeWhile (fun y => decide (key y = key x)) = [] := by
        cases l₂ with
        | nil => rfl
        | cons y ys =>
            have := hlt x (by simp) y (by simp)
            rw [List.takeWhile_cons_of_neg]
            simp only [decide_eq_true_eq]
            omega
      simp only [takeGroups, List.cons_append, List.cons.injEq, true_and]
      rw [List.takeWhile_append, hl₂, List.append_nil]
      split_ifs with hall
      · exact ((List.takeWhile_prefix _).eq_of_length hall).symm
      · rfl
  | n + 2, x :: xs, l₂, h, hlt => by
      simp only [takeGroups, List.cons_append, List.cons.injEq, true_and]
      exact takeGroups_append (by simpa using h) fun a ha b hb =>
        hlt a (List.mem_cons_of_mem x ha) b hb

/-- On a descending list the entries that continue the first group are those of its key. -/
private lemma takeWhile_eq_filter {key : α → ℕ} {m : ℕ} :
    ∀ {l : List α}, (l.Pairwise fun x y => key y ≤ key x) → (∀ x ∈ l, key x ≤ m) →
      l.takeWhile (fun y => key y = m) = l.filter fun y => m ≤ key y
  | [], _, _ => rfl
  | x :: xs, hp, hm => by
      have hx := hm x (by simp)
      have hxs : ∀ y ∈ xs, key y ≤ m := fun y hy => hm y (List.mem_cons_of_mem x hy)
      have hp' := List.pairwise_cons.mp hp
      by_cases h : key x = m
      · rw [List.takeWhile_cons_of_pos (by simpa using h), takeWhile_eq_filter hp'.2 hxs,
          List.filter_cons_of_pos (by simp [h])]
      · rw [List.takeWhile_cons_of_neg (by simpa using h)]
        refine (List.filter_eq_nil_iff.mpr fun y hy => ?_).symm
        have hy' : key y ≤ key x := by
          rcases List.mem_cons.mp hy with rfl | hy
          · exact le_rfl
          · exact hp'.1 y hy
        simp only [decide_eq_true_eq]
        omega

/-- On a descending list the groups taken are the entries from some key of the list up. -/
lemma takeGroups_eq_filter {key : α → ℕ} :
    ∀ {count : ℕ} {l : List α}, (l.Pairwise fun x y => key y ≤ key x) → 0 < count → l ≠ [] →
      ∃ y ∈ l, takeGroups key count l = l.filter fun x => key y ≤ key x
  | 0, _, _, hc, _ => absurd hc (lt_irrefl 0)
  | n + 1, [], _, _, hl => absurd rfl hl
  | 1, x :: xs, hp, _, _ => by
      have hp' := List.pairwise_cons.mp hp
      refine ⟨x, by simp, ?_⟩
      rw [takeGroups, takeWhile_eq_filter hp'.2 hp'.1, List.filter_cons_of_pos (by simp)]
  | n + 2, x :: xs, hp, _, _ => by
      have hp' := List.pairwise_cons.mp hp
      by_cases hxs : xs = []
      · subst hxs
        exact ⟨x, by simp, by simp [takeGroups]⟩
      · obtain ⟨y, hy, heq⟩ := takeGroups_eq_filter hp'.2 (Nat.succ_pos n) hxs
        refine ⟨y, List.mem_cons_of_mem x hy, ?_⟩
        rw [takeGroups, heq, List.filter_cons_of_pos (by simpa using hp'.1 y hy)]

/-- The groups taken are closed upwards. -/
lemma mem_takeGroups_of_le {key : α → ℕ} {l : List α} (hp : l.Pairwise fun x y => key y ≤ key x)
    {count : ℕ} {x y : α} (hy : y ∈ takeGroups key count l) (hx : x ∈ l) (hle : key y ≤ key x) :
    x ∈ takeGroups key count l := by
  rcases Nat.eq_zero_or_pos count with rfl | hc
  · rw [takeGroups_zero] at hy
    exact absurd hy List.not_mem_nil
  · obtain ⟨z, -, heq⟩ := takeGroups_eq_filter hp hc (List.ne_nil_of_mem hx)
    rw [heq] at hy ⊢
    have hzy := (List.mem_filter.mp hy).2
    simp only [decide_eq_true_eq] at hzy
    exact List.mem_filter.mpr ⟨hx, by simpa using Nat.le_trans hzy hle⟩

/-- An entry with fewer than `count` entries strictly above it is taken. -/
lemma mem_takeGroups {key : α → ℕ} {l : List α} (hp : l.Pairwise fun x y => key y ≤ key x)
    {count : ℕ} {x : α} (hx : x ∈ l) (habove : (l.filter fun y => key x < key y).length < count) :
    x ∈ takeGroups key count l := by
  obtain ⟨z, hz, heq⟩ := takeGroups_eq_filter hp (Nat.zero_lt_of_lt habove) (List.ne_nil_of_mem hx)
  rcases Nat.lt_or_ge (key x) (key z) with hlt | hge
  · -- then only entries above `x` were taken, too few unless they are all there is
    have hle : (takeGroups key count l).length ≤ (l.filter fun y => key x < key y).length := by
      rw [heq]
      refine List.Sublist.length_le (List.monotone_filter_right l fun y hy => ?_)
      simp only [decide_eq_true_eq] at hy ⊢
      omega
    have hmin := min_le_length_takeGroups key count l
    rw [takeGroups_of_length_le (by omega)]
    exact hx
  · rw [heq]
    exact List.mem_filter.mpr ⟨hx, by simpa using hge⟩

/-- **The groups taken from a reading are a reading**, from some index `m` of the range up. -/
lemma Graded.takeGroups_between {key : α → ℕ} {f : ℕ → List α} (h : Graded key f)
    {count lo hi : ℕ} (hc : 0 < count) (hne : between f lo hi ≠ []) :
    ∃ m, lo ≤ m ∧ m < hi ∧ (∃ x ∈ f m, key x = m) ∧
      takeGroups key count (between f lo hi) = between f m hi := by
  obtain ⟨y, hy, heq⟩ := takeGroups_eq_filter (h.between_pairwise lo hi) hc hne
  obtain ⟨h1, h2, h3⟩ := h.mem_between.mp hy
  exact ⟨key y, h1, h2, ⟨y, h3, rfl⟩, by rw [heq, h.filter_le_between h1]⟩

lemma pairwise_of_length_le_one {r : α → α → Prop} : ∀ {l : List α}, l.length ≤ 1 → l.Pairwise r
  | [], _ => List.Pairwise.nil
  | [x], _ => List.pairwise_singleton r x
  | _ :: _ :: _, h => absurd h (by simp)

/-- With one entry at an index at most, the keys of a reading are strictly descending. -/
lemma Graded.between_strict {key : α → ℕ} {f : ℕ → List α} (h : Graded key f)
    (hsingle : ∀ n, (f n).length ≤ 1) (lo hi : ℕ) :
    (between f lo hi).Pairwise fun x y => key y < key x := by
  induction hi with
  | zero => exact List.Pairwise.nil
  | succ n ih =>
      rw [between]
      split_ifs with hlo
      · refine List.pairwise_append.mpr ⟨?_, ih, fun x hx y hy => ?_⟩
        · exact pairwise_of_length_le_one (by rw [List.length_reverse]; exact hsingle n)
        · rw [h n x (List.mem_reverse.mp hx)]
          exact (h.mem_between.mp hy).2.1
      · exact List.Pairwise.nil

/-- A reading that already holds `count` entries decides the groups taken from every longer
one. -/
lemma Graded.takeGroups_below {key : α → ℕ} {f : ℕ → List α} (h : Graded key f)
    {count lo hi : ℕ} (hle : lo ≤ hi) (hlen : count ≤ (between f lo hi).length) :
    takeGroups key count (below f hi) = takeGroups key count (between f lo hi) := by
  rw [below, between_append (Nat.zero_le lo) hle]
  refine takeGroups_append hlen fun x hx y hy => ?_
  have hx' := (h.mem_between.mp hx).1
  have hy' := (h.mem_between.mp hy).2.1
  omega

/-- On a descending list the groups taken are the first `count` entries and all further ones with the
key of the last of these. -/
lemma takeGroups_eq_take_append {key : α → ℕ} {l : List α} (hp : l.Pairwise fun x y => key y ≤ key x)
    (count : ℕ) :
    takeGroups key count l = l.take count ++
      match (l.take count).getLast? with
      | none => []
      | some x => (l.drop count).filter fun y => key y = key x := by
  cases count with
  | zero => simp
  | succ n =>
      rw [takeGroups_succ_eq]
      refine congrArg _ ?_
      cases hx : l[n]? with
      | none =>
          have hlen : l.length ≤ n := List.getElem?_eq_none_iff.mp hx
          rw [List.drop_eq_nil_of_le (by omega)]
          cases (l.take (n + 1)).getLast? with
          | none => rfl
          | some y => rfl
      | some x =>
          have hlast : (l.take (n + 1)).getLast? = some x := by
            rw [List.take_add_one, hx]
            simp
          rw [hlast]
          obtain ⟨hn, rfl⟩ := List.getElem?_eq_some_iff.mp hx
          have hle : ∀ y ∈ l.drop (n + 1), key y ≤ key l[n] := by
            have hsplit := List.take_append_drop (n + 1) l
            rw [← hsplit] at hp
            intro y hy
            refine (List.pairwise_append.mp hp).2.2 _ ?_ y hy
            exact List.mem_of_getLast? hlast
          show (l.drop (n + 1)).takeWhile (fun y => key y = key l[n]) = _
          rw [takeWhile_eq_filter (hp.sublist (List.drop_sublist _ _)) hle]
          refine List.filter_congr fun y hy => decide_eq_decide.mpr ?_
          have := hle y hy
          omega

/-! ## Groups counted by their keys

A cut after `count` entries against a cut after `count` keys.
-/

/-- On a descending list an entry is taken exactly when fewer than `count` entries lie strictly above
it. -/
lemma mem_takeGroups_iff {key : α → ℕ} {l : List α} (hp : l.Pairwise fun x y => key y ≤ key x)
    {count : ℕ} {x : α} :
    x ∈ takeGroups key count l ↔ x ∈ l ∧ (l.filter fun y => key x < key y).length < count := by
  constructor
  · intro hx
    refine ⟨(takeGroups_sublist key count l).subset hx, ?_⟩
    induction count generalizing l with
    | zero =>
        rw [takeGroups_zero] at hx
        exact absurd hx List.not_mem_nil
    | succ n ih =>
        cases l with
        | nil => exact absurd hx (by rw [takeGroups_nil]; exact List.not_mem_nil)
        | cons z zs =>
            have hp' := List.pairwise_cons.mp hp
            have hnone : key z ≤ key x → (z :: zs).filter (fun y => key x < key y) = [] := by
              intro hle
              refine List.filter_eq_nil_iff.mpr fun y hy => ?_
              simp only [decide_eq_true_eq, not_lt]
              rcases List.mem_cons.mp hy with rfl | hy
              · exact hle
              · exact Nat.le_trans (hp'.1 y hy) hle
            cases n with
            | zero =>
                -- the first group only
                rw [hnone]
                · exact Nat.one_pos
                · rcases List.mem_cons.mp hx with rfl | hx
                  · exact Nat.le_refl _
                  · have hkey := List.all_eq_true.mp List.all_takeWhile x hx
                    exact Nat.le_of_eq (of_decide_eq_true hkey).symm
            | succ n =>
                rcases List.mem_cons.mp hx with rfl | hx
                · rw [hnone (Nat.le_refl _)]
                  exact Nat.succ_pos _
                · have hlen := ih hp'.2 hx
                  have hcons := List.length_filter_le (fun y => decide (key x < key y)) [z]
                  rw [List.filter_cons]
                  split_ifs with hz
                  · rw [List.length_cons]
                    omega
                  · omega
  · rintro ⟨hx, habove⟩
    exact mem_takeGroups hp hx habove

/-- The `count` largest keys of a descending list. -/
def topKeys (key : α → ℕ) (count : ℕ) (l : List α) : List ℕ := (l.map key).dedup.take count

lemma pairwise_dedup_keys {key : α → ℕ} {l : List α} (hp : l.Pairwise fun x y => key y ≤ key x) :
    (l.map key).dedup.Pairwise fun a b => b < a := by
  have hle : (l.map key).dedup.Pairwise fun a b => b ≤ a :=
    (List.pairwise_map.mpr hp).sublist (List.dedup_sublist _)
  exact (hle.and (List.nodup_dedup _)).imp fun {a b} h => Nat.lt_of_le_of_ne h.1 (Ne.symm h.2)

/-- The largest keys are closed upwards. -/
lemma mem_topKeys_of_le {key : α → ℕ} {l : List α} (hp : l.Pairwise fun x y => key y ≤ key x)
    {count : ℕ} {a b : ℕ} (hb : b ∈ topKeys key count l) (ha : a ∈ l.map key) (hle : b ≤ a) :
    a ∈ topKeys key count l := by
  have hsplit := List.take_append_drop count (l.map key).dedup
  have ha' : a ∈ (l.map key).dedup := List.mem_dedup.mpr ha
  rw [← hsplit] at ha'
  rcases List.mem_append.mp ha' with ha' | ha'
  · exact ha'
  · have hpair := pairwise_dedup_keys hp
    rw [← hsplit] at hpair
    have hlt := (List.pairwise_append.mp hpair).2.2 b hb a ha'
    omega

lemma topKeys_subset (key : α → ℕ) (count : ℕ) (l : List α) : topKeys key count l ⊆ l.map key :=
  fun _ ha => List.mem_dedup.mp (List.mem_of_mem_take ha)

/-- A key with fewer than `count` entries above it is one of the largest. -/
lemma mem_topKeys_of_length_lt {key : α → ℕ} {l : List α} (hp : l.Pairwise fun x y => key y ≤ key x)
    {count : ℕ} {x : α} (hx : x ∈ l) (hfew : (l.filter fun y => key x < key y).length < count) :
    key x ∈ topKeys key count l := by
  by_contra hnot
  have habove : topKeys key count l ⊆ (l.filter fun y => key x < key y).map key := by
    intro a ha
    obtain ⟨y, hy, rfl⟩ := List.mem_map.mp (topKeys_subset key count l ha)
    have hlt : key x < key y := by
      by_contra hle
      exact hnot (mem_topKeys_of_le hp ha (List.mem_map_of_mem hx) (not_lt.mp hle))
    exact List.mem_map_of_mem (List.mem_filter.mpr ⟨hy, by simpa using hlt⟩)
  have hnodup : (topKeys key count l).Nodup := (List.nodup_dedup _).sublist (List.take_sublist _ _)
  have hcard := (List.subperm_of_subset hnodup habove).length_le
  rw [List.length_map] at hcard
  -- there are fewer than `count` keys in all
  have hfull : topKeys key count l = (l.map key).dedup := by
    have hlen : (topKeys key count l).length = min count (l.map key).dedup.length := List.length_take
    exact List.take_of_length_le (by omega)
  rw [hfull] at hnot
  exact hnot (List.mem_dedup.mpr (List.mem_map_of_mem hx))

lemma takeGroups_eq_nil_of_topKeys {key : α → ℕ} {count : ℕ} {l : List α}
    (hnil : topKeys key count l = []) : takeGroups key count l = [] := by
  rcases List.take_eq_nil_iff.mp hnil with rfl | hdedup
  · exact takeGroups_zero key l
  · cases l with
    | nil => exact takeGroups_nil key count
    | cons x xs =>
        have hx : key x ∈ ((x :: xs).map key).dedup := List.mem_dedup.mpr (by simp)
        rw [hdedup] at hx
        exact absurd hx List.not_mem_nil

/-- The lowest of the largest keys, when there is one, bounds the others, and these are what lies above
it. -/
lemma exists_lowest_topKey {key : α → ℕ} {l : List α} (hp : l.Pairwise fun x y => key y ≤ key x)
    {count : ℕ} (hne : topKeys key count l ≠ []) : ∃ x₀ ∈ l,
      (∀ x ∈ l, key x ∈ topKeys key count l ↔ key x₀ ≤ key x) ∧
      ∀ x ∈ l, key x ∈ (topKeys key count l).dropLast ↔ key x₀ < key x := by
  obtain ⟨front, n, hS⟩ := (List.eq_nil_or_concat' (topKeys key count l)).resolve_left hne
  have hpair : (front ++ [n]).Pairwise fun a b => b < a :=
    hS ▸ (pairwise_dedup_keys hp).sublist (List.take_sublist _ _)
  have hn : n ∈ topKeys key count l := by simp [hS]
  obtain ⟨x₀, hx₀, rfl⟩ := List.mem_map.mp (topKeys_subset key count l hn)
  have hfront : ∀ a ∈ front, key x₀ < a := fun a ha =>
    (List.pairwise_append.mp hpair).2.2 a ha _ List.mem_cons_self
  have hin : ∀ a, a ∈ topKeys key count l ↔ a ∈ front ∨ a = key x₀ := by simp [hS]
  have hmem : ∀ x ∈ l, key x ∈ topKeys key count l ↔ key x₀ ≤ key x := by
    refine fun x hx => ⟨fun h => ?_, mem_topKeys_of_le hp hn (List.mem_map_of_mem hx)⟩
    rcases (hin _).mp h with h | h
    · exact Nat.le_of_lt (hfront _ h)
    · exact Nat.le_of_eq h.symm
  refine ⟨x₀, hx₀, hmem, fun x hx => ?_⟩
  rw [hS, List.dropLast_concat]
  refine ⟨hfront _, fun h => ?_⟩
  exact ((hin _).mp ((hmem x hx).mpr (Nat.le_of_lt h))).resolve_right (Nat.ne_of_gt h)

/-- **The groups taken are those of the `count` largest keys exactly when the entries above the lowest
of these keys are fewer than `count`.** -/
theorem takeGroups_perm_topKeys_iff {key : α → ℕ} {l : List α}
    (hp : l.Pairwise fun x y => key y ≤ key x) (count : ℕ) :
    (takeGroups key count l).Perm (l.filter fun x => key x ∈ topKeys key count l) ↔
      topKeys key count l = [] ∨
        (l.filter fun x => key x ∈ (topKeys key count l).dropLast).length < count := by
  by_cases hnil : topKeys key count l = []
  · refine iff_of_true ?_ (Or.inl hnil)
    rw [takeGroups_eq_nil_of_topKeys hnil, hnil]
    simp
  · obtain ⟨x₀, hx₀, hmem, habove⟩ := exists_lowest_topKey hp hnil
    rw [List.filter_congr fun x hx => decide_eq_decide.mpr (hmem x hx),
      List.filter_congr fun x hx => decide_eq_decide.mpr (habove x hx), or_iff_right hnil]
    constructor
    · intro hperm
      have hx : x₀ ∈ takeGroups key count l :=
        hperm.mem_iff.mpr (List.mem_filter.mpr ⟨hx₀, by simp⟩)
      exact ((mem_takeGroups_iff hp).mp hx).2
    · intro hlt
      -- the groups go down to some entry `z`, which has the lowest of the keys
      obtain ⟨z, hz, heq⟩ := takeGroups_eq_filter hp (Nat.zero_lt_of_lt hlt) (List.ne_nil_of_mem hx₀)
      have hle : key z ≤ key x₀ := by
        have hx := (mem_takeGroups_iff hp).mpr ⟨hx₀, hlt⟩
        rw [heq] at hx
        simpa using (List.mem_filter.mp hx).2
      have hge : key x₀ ≤ key z := by
        have hzin : z ∈ takeGroups key count l := by
          rw [heq]
          exact List.mem_filter.mpr ⟨hz, by simp⟩
        exact (hmem z hz).mp (mem_topKeys_of_length_lt hp hz ((mem_takeGroups_iff hp).mp hzin).2)
      rw [heq, Nat.le_antisymm hle hge]

end Descending
