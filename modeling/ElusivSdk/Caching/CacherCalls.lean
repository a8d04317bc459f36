import ElusivSdk.TxManagers.TransactionCacher

/-!
# Calls of the cache

What `cache` and `cacheOverwrite` leave in the cache after any calls of them.  `cacheOverwrite` empties the
index of a value before it adds it, also when another value of the same call was just put there.

* `isCached_iff` — what is cached.
* `readAtIndex_cacheOverwrite` — of the values of one index only the last one stays.
* **`cacheOverwrite_exact_iff`** — in every state that is reached `cacheOverwrite` leaves exactly the values
  it was given when those of one index are all equal, and only then.
-/

namespace ElusivSdk

open SparseArray

variable {T : Type} {getIndex : T → ℕ} {equal : T → T → Bool}

inductive CacherCall (T : Type)
  | cache (vals : List T)
  | cacheOverwrite (vals : List T)

/-- The list has the values, each of them once. -/
structure HoldsExactly (equal : T → T → Bool) (spot vals : List T) : Prop where
  subset : spot ⊆ vals
  complete : ∀ v ∈ vals, ∃ t ∈ spot, equal t v = true
  pairwise : spot.Pairwise fun t u => equal t u = false ∧ equal u t = false

namespace IndexedMultiCacher

def call (c : IndexedMultiCacher T getIndex equal) : CacherCall T → IndexedMultiCacher T getIndex equal
  | .cache vals => c.cache vals
  | .cacheOverwrite vals => c.cacheOverwrite vals

/-- A new cache after some calls. -/
def afterCalls (calls : List (CacherCall T)) : IndexedMultiCacher T getIndex equal := calls.foldl call empty

variable (c : IndexedMultiCacher T getIndex equal)

lemma bucket_eq_getD (i : ℕ) : c.bucket i = (c.readAtIndex i).getD [] := rfl

lemma isCached_iff {v : T} : c.isCached v = true ↔ ∃ t ∈ c.bucket (getIndex v), equal t v = true := by
  rw [bucket_eq_getD, isCached]
  cases c.readAtIndex (getIndex v) with
  | none => simp
  | some cacheSpot => exact List.find?_isSome

/-- `cache` only adds. -/
lemma bucket_subset_cache (vals : List T) (i : ℕ) : c.bucket i ⊆ (c.cache vals).bucket i := by
  rw [bucket_cache]
  exact subset_insertAll _ _

lemma isCached_cache (hrefl : ∀ t, equal t t = true) {vals : List T} {v : T} (hv : v ∈ vals) :
    (c.cache vals).isCached v = true := by
  rw [isCached_iff, bucket_cache]
  exact exists_mem_insertAll hrefl (List.mem_filter.mpr ⟨hv, decide_eq_true rfl⟩)

/-- A value that overwrites is alone. -/
lemma readAtIndex_cacheOne (val : T) (i : ℕ) :
    (c.cacheOne true val).readAtIndex i = if i = getIndex val then some [val] else c.readAtIndex i :=
  at?_assign _ _ _ _

/-- **The last value of an index is the one that stays.** -/
lemma readAtIndex_cacheOverwrite (vals : List T) (i : ℕ) : (c.cacheOverwrite vals).readAtIndex i
    = ((vals.filter fun v => getIndex v = i).getLast?.map fun v => [v]).or (c.readAtIndex i) := by
  unfold cacheOverwrite cacheInner
  induction vals generalizing c with
  | nil => rfl
  | cons v vals ih =>
      rw [List.foldl_cons, ih, readAtIndex_cacheOne]
      by_cases h : getIndex v = i
      · rw [List.filter_cons_of_pos (by simpa using h), if_pos h.symm, List.getLast?_cons]
        cases (vals.filter fun v => getIndex v = i).getLast? with
        | none => rfl
        | some u => rfl
      · rw [List.filter_cons_of_neg (by simpa using h), if_neg (Ne.symm h)]

/-- An index without values stays as it was. -/
lemma readAtIndex_cacheOverwrite_of_forall {vals : List T} {i : ℕ} (h : ∀ v ∈ vals, getIndex v ≠ i) :
    (c.cacheOverwrite vals).readAtIndex i = c.readAtIndex i := by
  have hnone : (vals.filter fun v => getIndex v = i) = [] :=
    List.filter_eq_nil_iff.mpr fun v hv => by simpa using h v hv
  rw [readAtIndex_cacheOverwrite, hnone]
  rfl

lemma exists_bucket_cacheOverwrite {vals : List T} {v : T} (hv : v ∈ vals) :
    ∃ last ∈ vals.filter (fun u => getIndex u = getIndex v),
      (c.cacheOverwrite vals).bucket (getIndex v) = [last] := by
  have hne : (vals.filter fun u => getIndex u = getIndex v) ≠ [] :=
    List.ne_nil_of_mem (List.mem_filter.mpr ⟨hv, decide_eq_true rfl⟩)
  refine ⟨_, List.getLast_mem hne, ?_⟩
  rw [bucket_eq_getD, readAtIndex_cacheOverwrite, List.getLast?_eq_getLast_of_ne_nil hne]
  rfl

/-- A single value says it all when the others are equal to it. -/
lemma holdsExactly_singleton_iff {last : T} {vals : List T} (hlast : last ∈ vals) :
    HoldsExactly equal [last] vals ↔ ∀ v ∈ vals, equal last v = true := by
  constructor
  · intro h v hv
    obtain ⟨t, ht, heq⟩ := h.complete v hv
    obtain rfl := List.mem_singleton.mp ht
    exact heq
  · intro h
    exact ⟨fun t ht => List.mem_singleton.mp ht ▸ hlast, fun v hv => ⟨last, List.mem_singleton_self last, h v hv⟩,
      List.pairwise_singleton _ _⟩

/-- **The cache after any calls**: the values are stored at their index and no two of one index are equal,
`cache` removes nothing and makes its values cached, and `cacheOverwrite` leaves exactly its values at their
indices, and the others as they were — when those of one index are all equal, and only then. -/
theorem cacheOverwrite_exact_iff (hequal : Equivalence fun t u => equal t u = true)
    (calls : List (CacherCall T)) :
    let c : IndexedMultiCacher T getIndex equal := afterCalls calls
    (∀ n, ∀ t ∈ c.bucket n, getIndex t = n) ∧
    (∀ n, (c.bucket n).Pairwise fun t u => equal t u = false ∧ equal u t = false) ∧
    ∀ vals,
      (∀ n, c.bucket n ⊆ (c.cache vals).bucket n) ∧
      (∀ v ∈ vals, (c.cache vals).isCached v = true) ∧
      ((∀ v ∈ vals, HoldsExactly equal ((c.cacheOverwrite vals).bucket (getIndex v))
            (vals.filter fun u => getIndex u = getIndex v)) ∧
          (∀ n, (∀ v ∈ vals, getIndex v ≠ n) → (c.cacheOverwrite vals).readAtIndex n = c.readAtIndex n) ↔
        ∀ u ∈ vals, ∀ v ∈ vals, getIndex u = getIndex v → equal u v = true) := by
  intro c
  have hsymm : ∀ {t u}, equal t u = false → equal u t = false := fun {t u} h =>
    Bool.eq_false_iff.mpr fun htrue => Bool.eq_false_iff.mp h (hequal.symm htrue)
  refine ⟨fun n t ht => c.getIndex_of_mem_bucket ht,
    fun n => (c.bucket_pairwise n).imp fun h => ⟨h, hsymm h⟩, fun vals => ⟨c.bucket_subset_cache vals,
      fun v hv => c.isCached_cache hequal.refl hv, ?_⟩⟩
  rw [and_iff_left fun n h => c.readAtIndex_cacheOverwrite_of_forall h]
  constructor
  · intro h u hu v hv hindex
    obtain ⟨last, hlast, hbucket⟩ := c.exists_bucket_cacheOverwrite hv
    have hexact := h v hv
    rw [hbucket, holdsExactly_singleton_iff hlast] at hexact
    -- both are equal to the value that stays
    have hlastu := hexact u (List.mem_filter.mpr ⟨hu, decide_eq_true hindex⟩)
    have hlastv := hexact v (List.mem_filter.mpr ⟨hv, decide_eq_true rfl⟩)
    exact hequal.trans (hequal.symm hlastu) hlastv
  · intro h v hv
    obtain ⟨last, hlast, hbucket⟩ := c.exists_bucket_cacheOverwrite hv
    rw [hbucket, holdsExactly_singleton_iff hlast]
    intro u hu
    obtain ⟨hlastmem, hlastindex⟩ := List.mem_filter.mp hlast
    obtain ⟨humem, huindex⟩ := List.mem_filter.mp hu
    exact h last hlastmem u humem ((of_decide_eq_true hlastindex).trans (of_decide_eq_true huindex).symm)

end IndexedMultiCacher

/-- The comparison of transactions is one. -/
lemma equalTx_equivalence : Equivalence fun tx tx' => equalTx tx tx' = true where
  refl := equalTx_self
  symm h := equalTx_iff.mpr (equalTx_iff.mp h).symm
  trans h h' := equalTx_iff.mpr ((equalTx_iff.mp h).trans (equalTx_iff.mp h'))

open ElusivTransaction in
/-- A topup that was cached is replaced by another one of its nonce. -/
theorem cacheOverwrite_exact_iff_replaced :
    HoldsExactly equalTx
      (((IndexedMultiCacher.afterCalls [.cache [bareTopup 3 .LAMPORTS 5 1]] : FetchedTxs).cacheOverwrite
        [bareTopup 3 .LAMPORTS 6 2]).bucket 3) [bareTopup 3 .LAMPORTS 6 2] := by
  have hexact := ((@IndexedMultiCacher.cacheOverwrite_exact_iff _ ElusivTransaction.nonce _
    equalTx_equivalence [.cache [bareTopup 3 .LAMPORTS 5 1]]).2.2 [bareTopup 3 .LAMPORTS 6 2]).2.2.mpr
      (by decide)
  exact hexact.1 _ (List.mem_singleton_self _)

open ElusivTransaction in
/-- Of two transactions of one nonce the first one is lost. -/
theorem cacheOverwrite_loses_first :
    ((IndexedMultiCacher.afterCalls [] : FetchedTxs).cacheOverwrite
      [bareTopup 3 .LAMPORTS 5 1, bareTopup 3 .LAMPORTS 6 2]).bucket 3 = [bareTopup 3 .LAMPORTS 6 2] ∧
    equalTx (bareTopup 3 .LAMPORTS 6 2) (bareTopup 3 .LAMPORTS 5 1) = false ∧
    ¬HoldsExactly equalTx
      (((IndexedMultiCacher.afterCalls [] : FetchedTxs).cacheOverwrite
        [bareTopup 3 .LAMPORTS 5 1, bareTopup 3 .LAMPORTS 6 2]).bucket 3)
      [bareTopup 3 .LAMPORTS 5 1, bareTopup 3 .LAMPORTS 6 2] := by
  have hbucket : ((IndexedMultiCacher.afterCalls [] : FetchedTxs).cacheOverwrite
      [bareTopup 3 .LAMPORTS 5 1, bareTopup 3 .LAMPORTS 6 2]).bucket 3 = [bareTopup 3 .LAMPORTS 6 2] := by
    rw [IndexedMultiCacher.bucket_eq_getD, IndexedMultiCacher.readAtIndex_cacheOverwrite]
    rfl
  refine ⟨hbucket, by decide, ?_⟩
  rw [hbucket]
  intro h
  obtain ⟨t, ht, heq⟩ := h.complete _ List.mem_cons_self
  obtain rfl := List.mem_singleton.mp ht
  exact absurd heq (by decide)

end ElusivSdk
