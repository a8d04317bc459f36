import ElusivSdk.Library.SparseArray

/-!
# The cache of several values for each index

`IndexedMultiCacher` stores values under a numerical index, several values for each.  A value is
added only when no `equal` value is stored at its index yet; **nothing that is stored is ever
replaced by `cache`**.

The three facts every reader of the cache relies on are fields of the structure: a value is stored
under its own index, no two values of one index are equal, and an index that was written holds at
least one value.  The operations carry the proofs.

* `insertNew`, `insertAll` — what adding values does to the list of one index.
* **`bucket_cache`** — `cache vals` adds to each index the values of `vals` that have it.
* `dedup` — the list an index holds after its values were cached into an empty cache.
-/

namespace ElusivSdk

open SparseArray Descending

variable {T : Type}

/-! ## The list of one index -/

section Bucket

variable (equal : T → T → Bool)

/-- Add a value to the list of its index, unless an equal one is there. -/
def insertNew (spot : List T) (val : T) : List T :=
  if (spot.find? fun t => equal t val).isNone then spot ++ [val] else spot

def insertAll (spot : List T) (vals : List T) : List T := vals.foldl (insertNew equal) spot

/-- What caching the values into an empty index leaves there. -/
def dedup (vals : List T) : List T := insertAll equal [] vals

variable {equal}

@[simp]
lemma insertAll_nil (spot : List T) : insertAll equal spot [] = spot := rfl

lemma insertAll_cons (spot : List T) (val : T) (vals : List T) :
    insertAll equal spot (val :: vals) = insertAll equal (insertNew equal spot val) vals := rfl

@[simp]
lemma dedup_nil : dedup equal [] = [] := rfl

lemma mem_insertNew {spot : List T} {val t : T} (h : t ∈ insertNew equal spot val) :
    t ∈ spot ∨ t = val := by
  unfold insertNew at h
  split_ifs at h
  · simpa using h
  · exact Or.inl h

lemma subset_insertNew (spot : List T) (val : T) : spot ⊆ insertNew equal spot val := by
  intro t ht
  unfold insertNew
  split_ifs
  · exact List.mem_append_left _ ht
  · exact ht

lemma insertNew_ne_nil (spot : List T) (val : T) : insertNew equal spot val ≠ [] := by
  unfold insertNew
  split_ifs with h
  · simp
  · intro hnil
    subst hnil
    simp at h

lemma pairwise_insertNew {spot : List T} (val : T)
    (h : spot.Pairwise fun t u => equal t u = false) :
    (insertNew equal spot val).Pairwise fun t u => equal t u = false := by
  unfold insertNew
  split_ifs with hfind
  · refine List.pairwise_append.mpr ⟨h, List.pairwise_singleton _ _, fun t ht u hu => ?_⟩
    obtain rfl : u = val := by simpa using hu
    simpa using List.find?_eq_none.mp (Option.isNone_iff_eq_none.mp hfind) t ht
  · exact h

lemma pairwise_insertAll {spot : List T} (vals : List T)
    (h : spot.Pairwise fun t u => equal t u = false) :
    (insertAll equal spot vals).Pairwise fun t u => equal t u = false := by
  induction vals generalizing spot with
  | nil => exact h
  | cons v vals ih => exact ih (pairwise_insertNew v h)

lemma pairwise_dedup (vals : List T) :
    (dedup equal vals).Pairwise fun t u => equal t u = false :=
  pairwise_insertAll vals List.Pairwise.nil

/-- Values that are pairwise different are not repeated. -/
lemma nodup_of_pairwise (hrefl : ∀ t, equal t t = true) {vals : List T}
    (h : vals.Pairwise fun t u => equal t u = false) : vals.Nodup := by
  refine h.imp fun {t u} hne heq => ?_
  rw [heq, hrefl u] at hne
  exact Bool.noConfusion hne

/-- A value with no equal one in the list is added. -/
lemma insertNew_of_forall {spot : List T} {val : T} (h : ∀ t ∈ spot, ¬ equal t val = true) :
    insertNew equal spot val = spot ++ [val] := by
  rw [insertNew, if_pos]
  exact Option.isNone_iff_eq_none.mpr (List.find?_eq_none.mpr h)

/-- A value with an equal one in the list changes nothing. -/
lemma insertNew_of_mem {spot : List T} {val t : T} (ht : t ∈ spot) (h : equal t val = true) :
    insertNew equal spot val = spot := by
  unfold insertNew
  rw [if_neg]
  intro hnone
  have := List.find?_eq_none.mp (Option.isNone_iff_eq_none.mp hnone) t ht
  exact this h

lemma insertAll_of_forall {spot vals : List T} (h : ∀ v ∈ vals, ∃ t ∈ spot, equal t v = true) :
    insertAll equal spot vals = spot := by
  induction vals with
  | nil => rfl
  | cons v vals ih =>
      obtain ⟨t, ht, he⟩ := h v (by simp)
      rw [insertAll_cons, insertNew_of_mem ht he]
      exact ih fun u hu => h u (List.mem_cons_of_mem v hu)

lemma subset_insertAll (spot vals : List T) : spot ⊆ insertAll equal spot vals := by
  induction vals generalizing spot with
  | nil => exact fun _ h => h
  | cons v vals ih => exact fun t ht => ih _ (subset_insertNew spot v ht)

lemma mem_insertAll {spot vals : List T} {t : T} (h : t ∈ insertAll equal spot vals) :
    t ∈ spot ∨ t ∈ vals := by
  induction vals generalizing spot with
  | nil => exact Or.inl h
  | cons v vals ih =>
      rcases ih h with h | h
      · rcases mem_insertNew h with h | rfl
        · exact Or.inl h
        · exact Or.inr (by simp)
      · exact Or.inr (List.mem_cons_of_mem v h)

/-- What is added to a list would be added to the empty list too. -/
lemma mem_insertAll_dedup (htrans : ∀ t u v, equal t u = true → equal u v = true → equal t v = true)
    {spot vals : List T} {t : T} (ht : t ∈ insertAll equal spot vals) :
    t ∈ spot ∨ t ∈ dedup equal vals := by
  -- the second list knows no value that the first does not know
  have hgen : ∀ (vals spot spot' : List T),
      (∀ v, (∃ u ∈ spot', equal u v = true) → ∃ u ∈ spot, equal u v = true) →
      t ∈ insertAll equal spot vals → t ∈ spot ∨ t ∈ insertAll equal spot' vals := by
    intro vals
    induction vals with
    | nil => exact fun _ _ _ ht => Or.inl ht
    | cons v vals ih =>
        intro spot spot' hcov ht
        rw [insertAll_cons] at ht ⊢
        by_cases hex : ∃ u ∈ spot, equal u v = true
        · obtain ⟨u, hu, huv⟩ := hex
          rw [insertNew_of_mem hu huv] at ht
          refine ih spot _ (fun w hw => ?_) ht
          obtain ⟨u', hu', hw⟩ := hw
          rcases mem_insertNew hu' with hu' | rfl
          · exact hcov w ⟨u', hu', hw⟩
          · exact ⟨u, hu, htrans u u' w huv hw⟩
        · rw [insertNew_of_forall fun u hu huv => hex ⟨u, hu, huv⟩] at ht
          rw [insertNew_of_forall fun u hu huv => hex (hcov v ⟨u, hu, huv⟩)]
          have hcov' : ∀ w, (∃ u ∈ spot' ++ [v], equal u w = true) →
              ∃ u ∈ spot ++ [v], equal u w = true := by
            rintro w ⟨u, hu, huw⟩
            rcases List.mem_append.mp hu with hu | hu
            · obtain ⟨u', hu', hw⟩ := hcov w ⟨u, hu, huw⟩
              exact ⟨u', List.mem_append_left _ hu', hw⟩
            · exact ⟨u, List.mem_append_right _ hu, huw⟩
          rcases ih _ _ hcov' ht with ht | ht
          · rcases List.mem_append.mp ht with ht | ht
            · exact Or.inl ht
            · exact Or.inr (subset_insertAll _ vals (List.mem_append_right _ ht))
          · exact Or.inr ht
  exact hgen vals spot [] (fun v hv => by simp at hv) ht

/-- Every value that was to be added has an equal one in the list afterwards. -/
lemma exists_mem_insertAll (hrefl : ∀ t, equal t t = true) {spot vals : List T} {v : T}
    (hv : v ∈ vals) : ∃ t ∈ insertAll equal spot vals, equal t v = true := by
  induction vals generalizing spot with
  | nil => simp at hv
  | cons u vals ih =>
      rcases List.mem_cons.mp hv with rfl | hv
      · have hnew : ∃ t ∈ insertNew equal spot v, equal t v = true := by
          unfold insertNew
          split_ifs with hfind
          · exact ⟨v, by simp, hrefl v⟩
          · have hsome : (spot.find? fun t => equal t v) ≠ none :=
              fun hn => hfind (Option.isNone_iff_eq_none.mpr hn)
            obtain ⟨t, ht⟩ := Option.ne_none_iff_exists'.mp hsome
            have hprop : equal t v = true := by simpa using List.find?_some ht
            exact ⟨t, List.mem_of_find?_eq_some ht, hprop⟩
        obtain ⟨t, ht, he⟩ := hnew
        exact ⟨t, subset_insertAll _ vals ht, he⟩
      · exact ih hv

lemma insertAll_append (spot vals vals' : List T) :
    insertAll equal spot (vals ++ vals') = insertAll equal (insertAll equal spot vals) vals' :=
  List.foldl_append

/-- Values whose selected part is known already leave the selected part of the list as it is. -/
lemma filter_insertAll_of_known (p : T → Bool) :
    ∀ {vals spot : List T}, (∀ v ∈ vals, p v = true → ∃ t ∈ spot, equal t v = true) →
      (insertAll equal spot vals).filter p = spot.filter p
  | [], _, _ => rfl
  | v :: vals, spot, h => by
      have hrest : ∀ u ∈ vals, p u = true → ∃ t ∈ insertNew equal spot v, equal t u = true := by
        intro u hu hp
        obtain ⟨t, ht, he⟩ := h u (List.mem_cons_of_mem v hu) hp
        exact ⟨t, subset_insertNew spot v ht, he⟩
      rw [insertAll_cons, filter_insertAll_of_known p hrest]
      cases hp : p v with
      | true =>
          obtain ⟨t, ht, he⟩ := h v (by simp) hp
          rw [insertNew_of_mem ht he]
      | false =>
          rw [insertNew]
          split_ifs
          · simp [hp]
          · rfl

/-- A selected value is new to a list when it is new to the selected part. -/
lemma filter_insertNew {p : T → Bool} {spot : List T} {v : T} (hv : p v = true)
    (h : ∀ t ∈ spot, equal t v = true → p t = p v) :
    (insertNew equal spot v).filter p = insertNew equal (spot.filter p) v := by
  by_cases hex : ∃ t ∈ spot, equal t v = true
  · obtain ⟨t, ht, he⟩ := hex
    have hp : p t = true := (h t ht he).trans hv
    rw [insertNew_of_mem ht he, insertNew_of_mem (List.mem_filter.mpr ⟨ht, hp⟩) he]
  · have hnew : ∀ l : List T, l ⊆ spot → insertNew equal l v = l ++ [v] :=
      fun l hl => insertNew_of_forall fun t ht he => hex ⟨t, hl ht, he⟩
    rw [hnew spot (fun _ ht => ht), hnew _ (List.filter_subset_self spot), List.filter_append,
      List.filter_cons_of_pos hv, List.filter_nil]

/-- Selecting commutes with adding, when equal values are selected together. -/
lemma filter_insertAll (p : T → Bool) :
    ∀ {vals spot : List T},
      (∀ v ∈ vals, ∀ t ∈ spot ++ vals, equal t v = true → p t = p v) →
      (insertAll equal spot vals).filter p = insertAll equal (spot.filter p) (vals.filter p)
  | [], _, _ => rfl
  | v :: vals, spot, h => by
      have hrest : ∀ u ∈ vals, ∀ t ∈ insertNew equal spot v ++ vals, equal t u = true →
          p t = p u := by
        intro u hu t ht
        refine h u (List.mem_cons_of_mem v hu) t ?_
        rcases List.mem_append.mp ht with ht | ht
        · rcases mem_insertNew ht with ht | rfl
          · exact List.mem_append_left _ ht
          · exact List.mem_append_right _ List.mem_cons_self
        · exact List.mem_append_right _ (List.mem_cons_of_mem v ht)
      have hself : ∀ t ∈ spot, equal t v = true → p t = p v :=
        fun t ht => h v List.mem_cons_self t (List.mem_append_left _ ht)
      rw [insertAll_cons, filter_insertAll p hrest]
      cases hv : p v with
      | true =>
          rw [List.filter_cons_of_pos hv, insertAll_cons, filter_insertNew hv hself]
      | false =>
          rw [List.filter_cons_of_neg (Bool.eq_false_iff.mp hv)]
          congr 1
          unfold insertNew
          split_ifs
          · rw [List.filter_append, List.filter_cons_of_neg (Bool.eq_false_iff.mp hv),
              List.filter_nil, List.append_nil]
          · rfl

lemma filter_dedup (p : T → Bool) {vals : List T}
    (h : ∀ v ∈ vals, ∀ t ∈ vals, equal t v = true → p t = p v) :
    (dedup equal vals).filter p = dedup equal (vals.filter p) := filter_insertAll p h

lemma insertAll_ne_nil {spot vals : List T} (h : spot ≠ [] ∨ vals ≠ []) :
    insertAll equal spot vals ≠ [] := by
  induction vals generalizing spot with
  | nil => simpa using h
  | cons v vals ih => exact ih (Or.inl (insertNew_ne_nil spot v))

/-- Values that are pairwise different are all kept, in their order. -/
lemma dedup_of_pairwise {vals : List T} (h : vals.Pairwise fun t u => equal t u = false) :
    dedup equal vals = vals := by
  have hgen : ∀ spot, (spot ++ vals).Pairwise (fun t u => equal t u = false) →
      insertAll equal spot vals = spot ++ vals := by
    clear h
    induction vals with
    | nil => simp
    | cons v vals ih =>
        intro spot hp
        have hnew : insertNew equal spot v = spot ++ [v] := insertNew_of_forall fun t ht => by
          simpa using (List.pairwise_append.mp hp).2.2 t ht v (by simp)
        rw [insertAll_cons, hnew, ih (spot ++ [v]) (by simpa using hp)]
        simp
  exact hgen [] (by simpa using h)

end Bucket

/-! ## The cache -/

/-- Each value is identified by a numerical index; several values can have the same index. -/
structure IndexedMultiCacher (T : Type) (getIndex : T → ℕ) (equal : T → T → Bool) where
  cached : List (Option (List T))
  getIndex_eq : ∀ i b, at? cached i = some b → ∀ t ∈ b, getIndex t = i
  pairwise : ∀ i b, at? cached i = some b → b.Pairwise fun t u => equal t u = false
  ne_nil : ∀ i b, at? cached i = some b → b ≠ []

namespace IndexedMultiCacher

variable {getIndex : T → ℕ} {equal : T → T → Bool}

/-- A new cache. -/
def empty : IndexedMultiCacher T getIndex equal where
  cached := []
  getIndex_eq := by simp
  pairwise := by simp
  ne_nil := by simp

def readAtIndex (c : IndexedMultiCacher T getIndex equal) (index : ℕ) : Option (List T) :=
  at? c.cached index

def isCached (c : IndexedMultiCacher T getIndex equal) (val : T) : Bool :=
  match c.readAtIndex (getIndex val) with
  | none => false
  | some cacheSpot => (cacheSpot.find? fun t => equal t val).isSome

/-- The values at an index, none when it was never written. -/
def bucket (c : IndexedMultiCacher T getIndex equal) : ℕ → List T := SparseArray.bucket c.cached

/-- One round of the loop of `cacheInner`. -/
def cacheOne (overwritable : Bool) (c : IndexedMultiCacher T getIndex equal) (val : T) :
    IndexedMultiCacher T getIndex equal :=
  let index := getIndex val
  let spot := if overwritable then [] else c.bucket index
  have hspot : ∀ t ∈ spot, getIndex t = index := by
    intro t ht
    cases overwritable with
    | true => simp [spot] at ht
    | false =>
        cases hb : at? c.cached index with
        | none => simp [spot, bucket, SparseArray.bucket, hb] at ht
        | some b =>
            exact c.getIndex_eq index b hb t (by simpa [spot, bucket, SparseArray.bucket, hb] using ht)
  have hpair : spot.Pairwise fun t u => equal t u = false := by
    cases overwritable with
    | true => simp [spot]
    | false =>
        cases hb : at? c.cached index with
        | none => simp [spot, bucket, SparseArray.bucket, hb]
        | some b =>
            simpa [spot, bucket, SparseArray.bucket, hb] using c.pairwise index b hb
  { cached := assign c.cached index (insertNew equal spot val)
    getIndex_eq := by
      intro i b hb t ht
      rw [at?_assign] at hb
      split_ifs at hb with hi
      · obtain rfl := Option.some.inj hb
        rcases mem_insertNew ht with h | rfl
        · rw [hspot t h, hi]
        · exact hi.symm
      · exact c.getIndex_eq i b hb t ht
    pairwise := by
      intro i b hb
      rw [at?_assign] at hb
      split_ifs at hb with hi
      · obtain rfl := Option.some.inj hb
        exact pairwise_insertNew val hpair
      · exact c.pairwise i b hb
    ne_nil := by
      intro i b hb
      rw [at?_assign] at hb
      split_ifs at hb with hi
      · obtain rfl := Option.some.inj hb
        exact insertNew_ne_nil spot val
      · exact c.ne_nil i b hb }

def cacheInner (c : IndexedMultiCacher T getIndex equal) (vals : List T) (overwritable : Bool) :
    IndexedMultiCacher T getIndex equal :=
  vals.foldl (cacheOne overwritable) c

def cache (c : IndexedMultiCacher T getIndex equal) (vals : List T) :
    IndexedMultiCacher T getIndex equal := c.cacheInner vals false

def cacheOverwrite (c : IndexedMultiCacher T getIndex equal) (vals : List T) :
    IndexedMultiCacher T getIndex equal := c.cacheInner vals true

def getCachedValues (c : IndexedMultiCacher T getIndex equal) : List (Option (List T)) := c.cached

/-! ## What the operations do to one index -/

@[simp]
lemma bucket_empty (i : ℕ) : (empty : IndexedMultiCacher T getIndex equal).bucket i = [] := by
  simp [bucket, empty]

lemma bucket_cacheOne (c : IndexedMultiCacher T getIndex equal) (val : T) (i : ℕ) :
    (c.cacheOne false val).bucket i
      = if i = getIndex val then insertNew equal (c.bucket i) val else c.bucket i := by
  simp only [cacheOne, bucket, SparseArray.bucket, at?_assign]
  by_cases h : i = getIndex val
  · subst h
    simp
  · simp [h]

/-- **`cache` adds to each index the values that have it.** -/
lemma bucket_cache (c : IndexedMultiCacher T getIndex equal) (vals : List T) (i : ℕ) :
    (c.cache vals).bucket i
      = insertAll equal (c.bucket i) (vals.filter fun v => getIndex v = i) := by
  unfold cache cacheInner
  induction vals generalizing c with
  | nil => rfl
  | cons v vals ih =>
      rw [List.foldl_cons, ih, bucket_cacheOne]
      by_cases h : getIndex v = i
      · rw [List.filter_cons_of_pos (by simpa using h), insertAll_cons, if_pos h.symm]
      · rw [List.filter_cons_of_neg (by simpa using h), if_neg (Ne.symm h)]

lemma getIndex_of_mem_bucket (c : IndexedMultiCacher T getIndex equal) {i : ℕ} {t : T}
    (h : t ∈ c.bucket i) : getIndex t = i := by
  unfold bucket SparseArray.bucket at h
  cases hb : at? c.cached i with
  | none => simp [hb] at h
  | some b => exact c.getIndex_eq i b hb t (by simpa [hb] using h)

/-- The cache is a graded family. -/
lemma graded_bucket (c : IndexedMultiCacher T getIndex equal) : Graded getIndex c.bucket :=
  fun _ _ h => c.getIndex_of_mem_bucket h

lemma bucket_pairwise (c : IndexedMultiCacher T getIndex equal) (i : ℕ) :
    (c.bucket i).Pairwise fun t u => equal t u = false := by
  unfold bucket SparseArray.bucket
  cases hb : at? c.cached i with
  | none => exact List.Pairwise.nil
  | some b => exact c.pairwise i b hb

/-- An index holds no value exactly when it was never written. -/
lemma bucket_eq_nil_iff (c : IndexedMultiCacher T getIndex equal) (i : ℕ) :
    c.bucket i = [] ↔ c.readAtIndex i = none := by
  unfold bucket SparseArray.bucket readAtIndex
  cases hb : at? c.cached i with
  | none => simp
  | some b => simpa using c.ne_nil i b hb

end IndexedMultiCacher

end ElusivSdk
