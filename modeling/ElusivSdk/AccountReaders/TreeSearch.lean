import ElusivSdk.AccountReaders.ChunkSearch
import ElusivSdk.Library.Program

/-!
# The search through the chunks

A tree in which every commitment stands at one place, not before its start index (`InTree`), is searched
chunk by chunk; `FoundBefore` is what the map holds on the way.

* `InTree.foundBefore_succ` — a chunk in which none is skipped adds the commitments that are in it.
* `scanChunks_missed` — a commitment that is skipped is not found later.
* **`findCommitmentIndices_iff`** — every commitment is found at its place exactly when none is skipped
  in any chunk; **`findCommitmentIndicesInChunk_skips`**: with the start indices 2 and 10 one is.
-/

namespace ElusivSdk

open Program SkippingScan

namespace StorageAccountReader

/-! ## The map of the places found -/

lemma Indices.has_iff {res : Indices} {comm : MontArray} :
    res.has comm = true ↔ comm ∈ res.map Prod.fst := by
  rw [Indices.has, List.any_eq_true, List.mem_map]
  constructor
  · rintro ⟨entry, hmem, heq⟩
    exact ⟨entry, hmem, of_decide_eq_true heq⟩
  · rintro ⟨entry, hmem, heq⟩
    exact ⟨entry, hmem, decide_eq_true heq⟩

/-- Reading a key gives one of its entries. -/
lemma Indices.mem_of_get {res : Indices} {comm : MontArray} {index : ℕ}
    (h : res.get comm = some index) : (comm, index) ∈ res := mem_of_mapGet h

/-- With one entry for a key, reading the key gives it. -/
lemma Indices.get_of_mem {res : Indices} (hnodup : (res.map Prod.fst).Nodup) {comm : MontArray}
    {index : ℕ} (h : (comm, index) ∈ res) : res.get comm = some index := mapGet_of_mem hnodup h

lemma Indices.set_of_not_has {res : Indices} {comm : MontArray} (h : res.has comm = false)
    (index : ℕ) : res.set comm index = res ++ [(comm, index)] := by
  rw [Indices.set, h]
  rfl

/-- The entries that the positions found in a chunk give. -/
def foundEntries (accIndex : ℕ) (found : List ((MontArray × AccIndex) × Option ℕ)) : Indices :=
  found.filterMap fun e => e.2.map fun indexInAccount => (e.1.1, AccIndex.global ⟨accIndex, indexInAccount⟩)

lemma insertFound_eq {accIndex : ℕ} (ha : accIndex < STORAGE_MT_CHUNK_COUNT) :
    ∀ {found : List ((MontArray × AccIndex) × Option ℕ)} {res : Indices},
      (found.map fun e => e.1.1).Nodup → (∀ e ∈ found, res.has e.1.1 = false) →
      insertFound accIndex res found = .ok (res ++ foundEntries accIndex found)
  | [], res, _, _ => by rw [insertFound, foundEntries, List.filterMap_nil, List.append_nil]
  | (c, none) :: found, res, hnodup, hnew => by
      rw [insertFound, insertFound_eq ha (List.nodup_cons.mp hnodup).2 fun e he =>
        hnew e (List.mem_cons_of_mem _ he)]
      rfl
  | (c, some i) :: found, res, hnodup, hnew => by
      have hnodup' := List.nodup_cons.mp hnodup
      have hc : res.has c.1 = false := hnew _ List.mem_cons_self
      have hnew' : ∀ e ∈ found, Indices.has (res ++ [(c.1, AccIndex.global ⟨accIndex, i⟩)]) e.1.1 = false := by
        intro e he
        have hne : c.1 ≠ e.1.1 := fun heq => hnodup'.1 (List.mem_map.mpr ⟨e, he, heq.symm⟩)
        have hold := hnew e (List.mem_cons_of_mem _ he)
        rw [Indices.has] at hold ⊢
        rw [List.any_append, hold, List.any_cons, List.any_nil, Bool.or_false, Bool.false_or]
        exact decide_eq_false hne
      rw [insertFound, IndexConverter.accIndexToGlobalIndex_eq ha]
      show insertFound accIndex (res.set c.1 _) found = _
      rw [Indices.set_of_not_has hc, insertFound_eq ha hnodup'.2 hnew', List.append_assoc]
      rfl

/-- The entries that the positions `seen` of a chunk give for the commitments that are left. -/
def chunkEntries (accIndex : ℕ) (values : List Bytes) (left : List (MontArray × AccIndex))
    (seen : List ℕ) : Indices :=
  left.filterMap fun c => (seen.find? fun p => values[p]? = some c.1.bytes).map fun indexInAccount =>
    (c.1, AccIndex.global ⟨accIndex, indexInAccount⟩)

lemma foundEntries_foundAt (accIndex : ℕ) (values : List Bytes) (left : List (MontArray × AccIndex))
    (seen : List ℕ) :
    foundEntries accIndex (left.zip (foundAt values (left.map fun c => c.1.bytes) seen))
      = chunkEntries accIndex values left seen := by
  rw [foundAt, List.map_map, List.zip_map_right, List.zip_eq_zipWith, List.zipWith_self, List.map_map,
    foundEntries, List.filterMap_map]
  rfl

lemma mem_chunkEntries {accIndex : ℕ} {values : List Bytes} {left : List (MontArray × AccIndex)}
    {seen : List ℕ} {comm : MontArray} {index : ℕ} :
    (comm, index) ∈ chunkEntries accIndex values left seen ↔
      ∃ c ∈ left, ∃ i, (seen.find? fun p => values[p]? = some c.1.bytes) = some i ∧ c.1 = comm ∧
        AccIndex.global ⟨accIndex, i⟩ = index := by
  rw [chunkEntries, List.mem_filterMap]
  refine exists_congr fun c => and_congr_right fun _ => ?_
  rw [Option.map_eq_some_iff]
  refine exists_congr fun i => and_congr_right fun _ => ?_
  rw [Prod.mk.injEq]

lemma keys_chunkEntries_sublist (accIndex : ℕ) (values : List Bytes) (seen : List ℕ) :
    ∀ left : List (MontArray × AccIndex),
      ((chunkEntries accIndex values left seen).map Prod.fst).Sublist (left.map Prod.fst)
  | [] => List.Sublist.refl _
  | c :: left => by
      have ih := keys_chunkEntries_sublist accIndex values seen left
      rw [chunkEntries, List.filterMap_cons, List.map_cons]
      cases seen.find? fun p => decide (values[p]? = some c.1.bytes) with
      | none => exact ih.cons _
      | some i => exact ih.cons_cons _

lemma map_fst_zip_sublist {α β : Type*} :
    ∀ (l : List α) (m : List β), ((l.zip m).map Prod.fst).Sublist l
  | [], _ => List.Sublist.refl _
  | _ :: _, [] => List.nil_sublist _
  | a :: l, _ :: m => (map_fst_zip_sublist l m).cons_cons a

/-! ## Chunk by chunk -/

/-- The chunks from the first start index to the last commitment. -/
def Searched (comms : List (MontArray × AccIndex)) (place : MontArray → AccIndex) (a : ℕ) : Prop :=
  minAcc comms ≤ a ∧ ∃ c ∈ comms, a ≤ (place c.1).indexOfAccount

/-- A tree, given by the values of each chunk, in which every commitment stands at one place, not before
its start index, with populated values from the start indices on up to the commitments. -/
structure InTree (tree : ℕ → List Bytes) (place : MontArray → AccIndex)
    (comms : List (MontArray × AccIndex)) (treeChunkReader : TreeChunkAccountReader)
    (storageAcc : StorageAccBorsh) : Prop where
  chunk : ∀ a, Searched comms place a →
    getChunkFromIndex a storageAcc treeChunkReader = .ok (tree a).flatten
  length_value : ∀ a, Searched comms place a → ∀ v ∈ tree a, v.length = 32
  nodup : (comms.map fun c => c.1.bytes).Nodup
  account_lt : ∀ c ∈ comms, (place c.1).indexOfAccount < STORAGE_MT_CHUNK_COUNT
  position_lt : ∀ c ∈ comms, (place c.1).indexInAccount < STORAGE_MT_VALUES_PER_ACCOUNT
  stands_iff : ∀ c ∈ comms, ∀ a, Searched comms place a → ∀ i : ℕ,
    (tree a)[i]? = some c.1.bytes ↔ place c.1 = ⟨a, i⟩
  start_le : ∀ c ∈ comms, c.2.global ≤ (place c.1).global
  populated : ∀ a i, minAcc comms ≤ a → i < STORAGE_MT_VALUES_PER_ACCOUNT →
    (∃ c ∈ comms, startInChunk a c ≤ i) →
    (∃ c ∈ comms, AccIndex.global ⟨a, i⟩ ≤ (place c.1).global) →
    ∃ v, (tree a)[i]? = some v ∧ v ≠ zeros 32

/-- Where the search in a chunk starts for the commitments that are in this chunk or a later one. -/
def startsLeft (comms : List (MontArray × AccIndex)) (place : MontArray → AccIndex) (a : ℕ) : List ℕ :=
  (comms.filter fun c => a ≤ (place c.1).indexOfAccount).map (startInChunk a)

/-- The positions of the commitments that are in a chunk. -/
def positionsIn (comms : List (MontArray × AccIndex)) (place : MontArray → AccIndex) (a : ℕ) : List ℕ :=
  (comms.filter fun c => (place c.1).indexOfAccount = a).map fun c => (place c.1).indexInAccount

/-- The map holds exactly the commitments of the chunks before `a`, each with its place. -/
structure FoundBefore (comms : List (MontArray × AccIndex)) (place : MontArray → AccIndex) (a : ℕ)
    (res : Indices) : Prop where
  nodup : (res.map Prod.fst).Nodup
  mem_iff : ∀ comm index, (comm, index) ∈ res ↔
    ∃ c ∈ comms, c.1 = comm ∧ (place c.1).indexOfAccount < a ∧ index = (place c.1).global

/-- Every commitment is in the map with its place. -/
def Complete (comms : List (MontArray × AccIndex)) (place : MontArray → AccIndex) (res : Indices) :
    Prop :=
  ∀ c ∈ comms, res.get c.1 = some (place c.1).global

lemma minAcc_le {comms : List (MontArray × AccIndex)} :
    ∀ c ∈ comms, minAcc comms ≤ c.2.indexOfAccount := by
  have hfold : ∀ (comms : List (MontArray × AccIndex)) (acc : ℕ),
      comms.foldl (fun acc c => min acc c.2.indexOfAccount) acc ≤ acc ∧ ∀ c ∈ comms,
        comms.foldl (fun acc c => min acc c.2.indexOfAccount) acc ≤ c.2.indexOfAccount := by
    intro comms
    induction comms with
    | nil => exact fun acc => ⟨le_rfl, fun c hc => absurd hc List.not_mem_nil⟩
    | cons d comms ih =>
        intro acc
        obtain ⟨hacc, hall⟩ := ih (min acc d.2.indexOfAccount)
        refine ⟨Nat.le_trans hacc (Nat.min_le_left _ _), fun c hc => ?_⟩
        rcases List.mem_cons.mp hc with rfl | hc
        · exact Nat.le_trans hacc (Nat.min_le_right _ _)
        · exact hall c hc
  exact (hfold comms STORAGE_MT_CHUNK_COUNT).2

section Tree

variable {tree : ℕ → List Bytes} {place : MontArray → AccIndex}
  {comms : List (MontArray × AccIndex)} {treeChunkReader : TreeChunkAccountReader}
  {storageAcc : StorageAccBorsh} {a : ℕ} {res : Indices}

lemma FoundBefore.has_eq (hres : FoundBefore comms place a res) {c : MontArray × AccIndex}
    (hc : c ∈ comms) :
    res.has c.1 = decide ((place c.1).indexOfAccount < a) := by
  rw [Bool.eq_iff_iff, Indices.has_iff, decide_eq_true_eq, List.mem_map]
  constructor
  · rintro ⟨⟨comm, index⟩, hmem, heq⟩
    obtain ⟨c', -, rfl, hlt, -⟩ := (hres.mem_iff comm index).mp hmem
    rw [← (show c'.1 = c.1 from heq)]
    exact hlt
  · exact fun hlt => ⟨_, (hres.mem_iff _ _).mpr ⟨c, hc, rfl, hlt, rfl⟩, rfl⟩

/-- What is left to find at chunk `a`. -/
lemma FoundBefore.filter_eq (hres : FoundBefore comms place a res) :
    (comms.filter fun c => !res.has c.1) = comms.filter fun c => a ≤ (place c.1).indexOfAccount := by
  refine List.filter_congr fun c hc => ?_
  rw [hres.has_eq hc, ← decide_not]
  exact decide_eq_decide.mpr Nat.not_lt

/-- The map is as long as the list of commitments exactly when nothing is left to find. -/
lemma FoundBefore.length_eq_iff (hres : FoundBefore comms place a res)
    (hnodup : (comms.map Prod.fst).Nodup) :
    res.length = comms.length ↔ ∀ c ∈ comms, (place c.1).indexOfAccount < a := by
  have hsub : res.map Prod.fst ⊆ comms.map Prod.fst := by
    intro comm hcomm
    obtain ⟨⟨key, index⟩, hmem, rfl⟩ := List.mem_map.mp hcomm
    obtain ⟨c, hc, rfl, -⟩ := (hres.mem_iff key index).mp hmem
    exact List.mem_map_of_mem hc
  constructor
  · intro hlen c hc
    have hperm := (List.subperm_of_subset hres.nodup hsub).perm_of_length_le (by simp [hlen])
    have hkey := Indices.has_iff.mpr (hperm.mem_iff.mpr (List.mem_map_of_mem hc))
    rw [hres.has_eq hc] at hkey
    exact of_decide_eq_true hkey
  · intro hall
    have hperm : (res.map Prod.fst).Perm (comms.map Prod.fst) := by
      refine (List.perm_ext_iff_of_nodup hres.nodup hnodup).mpr fun comm => ⟨fun h => hsub h, ?_⟩
      intro hcomm
      obtain ⟨c, hc, rfl⟩ := List.mem_map.mp hcomm
      exact List.mem_map.mpr ⟨_, (hres.mem_iff _ _).mpr ⟨c, hc, rfl, hall c hc, rfl⟩, rfl⟩
    simpa using hperm.length_eq

lemma FoundBefore.complete (hres : FoundBefore comms place a res)
    (hall : ∀ c ∈ comms, (place c.1).indexOfAccount < a) : Complete comms place res :=
  fun c hc => Indices.get_of_mem hres.nodup ((hres.mem_iff _ _).mpr ⟨c, hc, rfl, hall c hc, rfl⟩)

/-- Different commitments are different arrays. -/
lemma InTree.nodup_keys (h : InTree tree place comms treeChunkReader storageAcc) :
    (comms.map Prod.fst).Nodup := by
  refine List.Nodup.of_map MontArray.bytes ?_
  rw [List.map_map]
  exact h.nodup

/-- The hits of the search in chunk `a`. -/
lemma InTree.hits (h : InTree tree place comms treeChunkReader storageAcc)
    (ha : Searched comms place a) :
    Hits (tree a) ((comms.filter fun c => a ≤ (place c.1).indexOfAccount).map fun c => c.1.bytes)
      ((positionsIn comms place a).insertionSort (· ≤ ·)) := by
  have hcomm : ∀ hash ∈ (comms.filter fun c => a ≤ (place c.1).indexOfAccount).map fun c => c.1.bytes,
      ∃ c ∈ comms, c.1.bytes = hash := by
    intro hash hh
    obtain ⟨c, hc, rfl⟩ := List.mem_map.mp hh
    exact ⟨c, List.mem_of_mem_filter hc, rfl⟩
  refine Hits.ofPositions ?_ (fun i => ?_) fun hash hh p q hp hq => ?_
  · rw [positionsIn]
    have hdistinct : comms.Nodup := List.Nodup.of_map _ h.nodup
    refine (hdistinct.filter _).map_on fun c hc d hd heq => ?_
    obtain ⟨hc, hca⟩ := List.mem_filter.mp hc
    obtain ⟨hd, hda⟩ := List.mem_filter.mp hd
    have hca := of_decide_eq_true hca
    have hda := of_decide_eq_true hda
    have hplace : place d.1 = ⟨a, (place c.1).indexInAccount⟩ := by rw [← hda, heq]
    have hstands := (h.stands_iff d hd a ha _).mpr hplace
    have hstands' := (h.stands_iff c hc a ha (place c.1).indexInAccount).mpr (by rw [← hca])
    exact List.inj_on_of_nodup_map h.nodup hc hd (Option.some.inj (hstands'.symm.trans hstands))
  · rw [positionsIn, List.mem_map]
    constructor
    · rintro ⟨c, hc, rfl⟩
      obtain ⟨hc, hca⟩ := List.mem_filter.mp hc
      have hca := of_decide_eq_true hca
      refine ⟨h.position_lt c hc, c.1.bytes, List.mem_map_of_mem (List.mem_filter.mpr ⟨hc, ?_⟩), ?_⟩
      · exact decide_eq_true (Nat.le_of_eq hca.symm)
      · exact (h.stands_iff c hc a ha _).mpr (by rw [← hca])
    · rintro ⟨-, hash, hh, hi⟩
      obtain ⟨c, hc, rfl⟩ := hcomm hash hh
      have hplace := (h.stands_iff c hc a ha i).mp hi
      exact ⟨c, List.mem_filter.mpr ⟨hc, decide_eq_true (by rw [hplace])⟩, by rw [hplace]⟩
  · obtain ⟨c, hc, rfl⟩ := hcomm hash hh
    have hplace := (h.stands_iff c hc a ha p).mp hp
    rw [(h.stands_iff c hc a ha q).mp hq, AccIndex.mk.injEq] at hplace
    exact hplace.2.symm

/-- The keys of what is left are new and distinct. -/
lemma insertFound_left (res : Indices) (hnodup : (comms.map Prod.fst).Nodup) (ha : a < STORAGE_MT_CHUNK_COUNT)
    (found : List (Option ℕ)) :
    insertFound a res ((comms.filter fun c => !res.has c.1).zip found)
      = .ok (res ++ foundEntries a ((comms.filter fun c => !res.has c.1).zip found)) := by
  refine insertFound_eq ha ?_ fun e he => ?_
  · have hzip : ((comms.filter fun c => !res.has c.1).zip found).map (fun e => e.1.1)
        = (((comms.filter fun c => !res.has c.1).zip found).map Prod.fst).map Prod.fst := by
      rw [List.map_map]
      rfl
    rw [hzip]
    exact hnodup.sublist (((map_fst_zip_sublist _ _).trans List.filter_sublist).map _)
  · simpa using (List.mem_filter.mp (List.of_mem_zip he).1).2

/-- After a chunk in which every hit is met, the map holds the commitments of this chunk too. -/
lemma InTree.foundBefore_succ (h : InTree tree place comms treeChunkReader storageAcc)
    (ha : Searched comms place a) (hres : FoundBefore comms place a res) :
    FoundBefore comms place (a + 1) (res ++ chunkEntries a (tree a)
      (comms.filter fun c => a ≤ (place c.1).indexOfAccount)
      ((positionsIn comms place a).insertionSort (· ≤ ·))) := by
  have H := h.hits ha
  have hentry : ∀ comm index, (comm, index) ∈ chunkEntries a (tree a)
      (comms.filter fun c => a ≤ (place c.1).indexOfAccount)
      ((positionsIn comms place a).insertionSort (· ≤ ·)) ↔
        ∃ c ∈ comms, c.1 = comm ∧ (place c.1).indexOfAccount = a ∧
          index = (place c.1).global := by
    intro comm index
    rw [mem_chunkEntries]
    constructor
    · rintro ⟨c, hc, i, hi, rfl, rfl⟩
      have hcomms := List.mem_of_mem_filter hc
      have hstands := List.find?_some hi
      have hplace := (h.stands_iff c hcomms a ha i).mp (of_decide_eq_true hstands)
      exact ⟨c, hcomms, rfl, by rw [hplace], by rw [hplace]⟩
    · rintro ⟨c, hc, rfl, hca, rfl⟩
      have hplace : place c.1 = ⟨a, (place c.1).indexInAccount⟩ := by rw [← hca]
      have hleft : c ∈ comms.filter fun c => a ≤ (place c.1).indexOfAccount :=
        List.mem_filter.mpr ⟨hc, decide_eq_true (Nat.le_of_eq hca.symm)⟩
      have hposition : (place c.1).indexInAccount ∈ (positionsIn comms place a).insertionSort (· ≤ ·) := by
        rw [List.mem_insertionSort, positionsIn]
        exact List.mem_map_of_mem (List.mem_filter.mpr ⟨hc, decide_eq_true hca⟩)
      exact ⟨c, hleft, _, H.find?_eq_some (List.mem_map_of_mem hleft)
        ((h.stands_iff c hc a ha _).mpr hplace) hposition, rfl, by rw [← hplace]⟩
  constructor
  · rw [List.map_append]
    refine List.nodup_append.mpr ⟨hres.nodup, ?_, ?_⟩
    · exact h.nodup_keys.sublist ((keys_chunkEntries_sublist a _ _ _).trans (List.filter_sublist.map _))
    · intro comm hcomm comm' hcomm' heq
      obtain ⟨⟨key, index⟩, hmem, rfl⟩ := List.mem_map.mp hcomm
      obtain ⟨⟨key', index'⟩, hmem', rfl⟩ := List.mem_map.mp hcomm'
      obtain ⟨c, -, hc, hlt, -⟩ := (hres.mem_iff key index).mp hmem
      obtain ⟨c', -, hc', heq', -⟩ := (hentry key' index').mp hmem'
      have hkeys : c.1 = c'.1 := hc.trans ((show key = key' from heq).trans hc'.symm)
      rw [hkeys, heq'] at hlt
      exact lt_irrefl a hlt
  · intro comm index
    rw [List.mem_append, hres.mem_iff, hentry]
    constructor
    · rintro (⟨c, hc, heq, hlt, hindex⟩ | ⟨c, hc, heq, hca, hindex⟩)
      · exact ⟨c, hc, heq, Nat.lt_succ_of_lt hlt, hindex⟩
      · exact ⟨c, hc, heq, Nat.lt_succ_of_le (Nat.le_of_eq hca), hindex⟩
    · rintro ⟨c, hc, heq, hlt, hindex⟩
      rcases Nat.lt_succ_iff_lt_or_eq.mp hlt with hlt | hca
      · exact Or.inl ⟨c, hc, heq, hlt, hindex⟩
      · exact Or.inr ⟨c, hc, heq, hca, hindex⟩

/-- One start index for each commitment that is left. -/
lemma length_startsLeft (comms : List (MontArray × AccIndex)) (place : MontArray → AccIndex) (a : ℕ) :
    (startsLeft comms place a).length
      = ((comms.filter fun c => a ≤ (place c.1).indexOfAccount).map fun c => c.1.bytes).length := by
  rw [startsLeft, List.length_map, List.length_map]

/-- With every hit met the search in chunk `a` finds the commitments that are in it. -/
lemma InTree.findCommitmentIndicesInChunk_ok
    (h : InTree tree place comms treeChunkReader storageAcc) (ha : Searched comms place a)
    (hskip : NoneSkipped (startsLeft comms place a) (positionsIn comms place a)) :
    findCommitmentIndicesInChunk (tree a).flatten
        ((comms.filter fun c => a ≤ (place c.1).indexOfAccount).map fun c => c.1.bytes)
        (startsLeft comms place a)
      = .ok (foundAt (tree a) ((comms.filter fun c => a ≤ (place c.1).indexOfAccount).map fun c => c.1.bytes)
          ((positionsIn comms place a).insertionSort (· ≤ ·))) := by
  have H := h.hits ha
  have hlen := length_startsLeft comms place a
  refine H.findCommitmentIndicesInChunk_ok (h.length_value a ha) hlen
    ((H.metFromStart_eq_iff hlen).mpr hskip) ?_
  rintro j ⟨start, hstart, hle⟩ hj ⟨hash, hh, hbefore⟩
  obtain ⟨c, hc, rfl⟩ := List.mem_map.mp hstart
  obtain ⟨d, hd, rfl⟩ := List.mem_map.mp hh
  obtain ⟨hd, hda⟩ := List.mem_filter.mp hd
  refine h.populated a j ha.1 hj ⟨c, List.mem_of_mem_filter hc, hle⟩ ⟨d, hd, ?_⟩
  rcases Nat.lt_or_eq_of_le (of_decide_eq_true hda) with hlt | heq
  · exact AccIndex.global_le_of_lt hlt hj
  · have hplace : place d.1 = ⟨a, (place d.1).indexInAccount⟩ := by rw [heq]
    have hge : j ≤ (place d.1).indexInAccount := by
      refine Nat.le_of_not_lt fun hlt => ?_
      refine hbefore _ ?_ hlt ((h.stands_iff d hd a ha _).mpr hplace)
      rw [List.mem_insertionSort, positionsIn]
      exact List.mem_map_of_mem (List.mem_filter.mpr ⟨hd, decide_eq_true heq.symm⟩)
    rw [hplace]
    exact Nat.add_le_add_left hge _

/-- The places entered for chunk `a` lie in it. -/
lemma mem_foundEntries {left : List (MontArray × AccIndex)} {found : List (Option ℕ)}
    {comm : MontArray} {index : ℕ} (hmem : (comm, index) ∈ foundEntries a (left.zip found)) :
    ∃ i, some i ∈ found ∧ index = AccIndex.global ⟨a, i⟩ := by
  rw [foundEntries, List.mem_filterMap] at hmem
  obtain ⟨⟨c, r⟩, he, heq⟩ := hmem
  obtain ⟨i, rfl, hi⟩ := Option.map_eq_some_iff.mp heq
  exact ⟨i, (List.of_mem_zip he).2, (Prod.mk.inj hi).2.symm⟩

/-- A round of the search through the chunks that does not fail. -/
lemma scanChunks_succ_eq_ok {fuel : ℕ} {r : Indices} (hnodup : (comms.map Prod.fst).Nodup)
    (hrun : scanChunks comms treeChunkReader storageAcc (fuel + 1) a res = .ok r) :
    (r = res ∧ ¬ (res.length ≠ comms.length ∧ a < STORAGE_MT_CHUNK_COUNT)) ∨
      ∃ chunk found, getChunkFromIndex a storageAcc treeChunkReader = .ok chunk ∧
        findCommitmentIndicesInChunk chunk ((comms.filter fun c => !res.has c.1).map fun c => c.1.bytes)
          ((comms.filter fun c => !res.has c.1).map (startInChunk a)) = .ok found ∧
        scanChunks comms treeChunkReader storageAcc fuel (a + 1)
          (res ++ foundEntries a ((comms.filter fun c => !res.has c.1).zip found)) = .ok r := by
  rw [scanChunks] at hrun
  split_ifs at hrun with hcond
  · right
    obtain ⟨chunk, hchunk, hrun⟩ := bind_eq_ok.mp hrun
    obtain ⟨found, hfound, hrun⟩ := bind_eq_ok.mp hrun
    rw [insertFound_left res hnodup hcond.2] at hrun
    exact ⟨chunk, found, hchunk, hfound, hrun⟩
  · exact Or.inl ⟨(Except.ok.inj hrun).symm, hcond⟩

/-- A commitment that was jumped over is not entered with its place later. -/
lemma scanChunks_missed (hnodup : (comms.map Prod.fst).Nodup) {comm : MontArray}
    (hlt : (place comm).indexInAccount < STORAGE_MT_VALUES_PER_ACCOUNT) :
    ∀ (fuel a : ℕ) (res : Indices) {r : Indices}, (place comm).indexOfAccount < a →
      (comm, (place comm).global) ∉ res →
      scanChunks comms treeChunkReader storageAcc fuel a res = .ok r →
      (comm, (place comm).global) ∉ r
  | 0, _, _, _, _, _, hrun => nomatch hrun
  | fuel + 1, a, res, r, ha, hnot, hrun => by
      rcases scanChunks_succ_eq_ok hnodup hrun with ⟨rfl, -⟩ | ⟨chunk, found, -, hfound, hrun⟩
      · exact hnot
      · refine scanChunks_missed hnodup hlt fuel (a + 1) _ (Nat.lt_succ_of_lt ha) ?_ hrun
        rw [List.mem_append, not_or]
        refine ⟨hnot, fun hmem => ?_⟩
        obtain ⟨i, hi, heq⟩ := mem_foundEntries hmem
        have hle := AccIndex.indexOfAccount_le (Nat.le_of_eq heq.symm) hlt
        exact absurd ha (Nat.not_lt_of_le hle)

/-- In a chunk without commitments none is skipped. -/
lemma noneSkipped_of_forall_ne (hall : ∀ c ∈ comms, (place c.1).indexOfAccount ≠ a) :
    NoneSkipped (startsLeft comms place a) (positionsIn comms place a) := by
  have hnil : positionsIn comms place a = [] := by
    rw [positionsIn, List.map_eq_nil_iff]
    refine List.filter_eq_nil_iff.mpr fun c hc => ?_
    rw [decide_eq_true_eq]
    exact hall c hc
  rw [NoneSkipped, hnil, List.insertionSort_nil, List.zip_nil_right]
  exact fun sp hsp => absurd hsp List.not_mem_nil

/-- When some start index is out of place, a commitment of the chunk is missed. -/
lemma InTree.exists_missed (h : InTree tree place comms treeChunkReader storageAcc)
    (ha : Searched comms place a) {found : List (Option ℕ)}
    (hfound : findCommitmentIndicesInChunk (tree a).flatten
      ((comms.filter fun c => a ≤ (place c.1).indexOfAccount).map fun c => c.1.bytes)
      (startsLeft comms place a) = .ok found)
    (hskip : ¬ NoneSkipped (startsLeft comms place a) (positionsIn comms place a)) :
    ∃ c ∈ comms, (place c.1).indexOfAccount = a ∧ ∀ index, (c.1, index) ∉
      foundEntries a ((comms.filter fun c => a ≤ (place c.1).indexOfAccount).zip found) := by
  have H := h.hits ha
  have hlen := length_startsLeft comms place a
  rw [NoneSkipped, ← H.metFromStart_eq_iff hlen] at hskip
  obtain ⟨hash, hh, ⟨p, -, hp⟩, hnone⟩ := H.exists_missed hskip
  obtain ⟨c, hc, rfl⟩ := List.mem_map.mp hh
  have hcomms := List.mem_of_mem_filter hc
  refine ⟨c, hcomms, by rw [(h.stands_iff c hcomms a ha p).mp hp], fun index hmem => ?_⟩
  rw [H.findCommitmentIndicesInChunk_eq (h.length_value a ha) hfound, foundEntries_foundAt,
    mem_chunkEntries] at hmem
  obtain ⟨d, -, i, hi, heq, -⟩ := hmem
  rw [heq, hnone] at hi
  cases hi

/-- **The search from chunk `a` on completes the map exactly when no commitment is skipped from there
on.** -/
lemma InTree.scanChunks_iff (h : InTree tree place comms treeChunkReader storageAcc) :
    ∀ (fuel a : ℕ) (res : Indices), minAcc comms ≤ a → STORAGE_MT_CHUNK_COUNT - a < fuel →
      FoundBefore comms place a res →
      ((∃ r, scanChunks comms treeChunkReader storageAcc fuel a res = .ok r ∧
          Complete comms place r) ↔
        ∀ b, a ≤ b → NoneSkipped (startsLeft comms place b) (positionsIn comms place b))
  | 0, _, _, _, hfuel, _ => absurd hfuel (Nat.not_lt_zero _)
  | fuel + 1, a, res, hmin, hfuel, hres => by
      by_cases hlen : res.length = comms.length
      · have hall := (hres.length_eq_iff h.nodup_keys).mp hlen
        refine iff_of_true ⟨res, ?_, hres.complete hall⟩ fun b hb =>
          noneSkipped_of_forall_ne fun c hc => Nat.ne_of_lt (Nat.lt_of_lt_of_le (hall c hc) hb)
        rw [scanChunks, if_neg fun hcond => hcond.1 hlen]
      · have hleft : ∃ c ∈ comms, a ≤ (place c.1).indexOfAccount := by
          by_contra hall
          push Not at hall
          exact hlen ((hres.length_eq_iff h.nodup_keys).mpr hall)
        have ha : Searched comms place a := ⟨hmin, hleft⟩
        obtain ⟨c₀, hc₀, hac₀⟩ := hleft
        have hcount : a < STORAGE_MT_CHUNK_COUNT := Nat.lt_of_le_of_lt hac₀ (h.account_lt c₀ hc₀)
        by_cases hskip : NoneSkipped (startsLeft comms place a) (positionsIn comms place a)
        · have hrun : scanChunks comms treeChunkReader storageAcc (fuel + 1) a res
              = scanChunks comms treeChunkReader storageAcc fuel (a + 1) (res ++ chunkEntries a (tree a)
                (comms.filter fun c => a ≤ (place c.1).indexOfAccount)
                ((positionsIn comms place a).insertionSort (· ≤ ·))) := by
            have hins := insertFound_left res h.nodup_keys hcount
              (foundAt (tree a) ((comms.filter fun c => a ≤ (place c.1).indexOfAccount).map fun c => c.1.bytes)
                ((positionsIn comms place a).insertionSort (· ≤ ·)))
            have hfound := h.findCommitmentIndicesInChunk_ok ha hskip
            rw [startsLeft] at hfound
            rw [hres.filter_eq, foundEntries_foundAt] at hins
            rw [scanChunks, if_pos ⟨hlen, hcount⟩, h.chunk a ha, hres.filter_eq]
            show (findCommitmentIndicesInChunk (tree a).flatten _ _ >>= fun foundIndices =>
              insertFound a res _ >>= fun res => _) = _
            rw [hfound]
            show (insertFound a res _ >>= fun res => _) = _
            rw [hins]
            rfl
          rw [hrun, h.scanChunks_iff fuel (a + 1) _ (Nat.le_succ_of_le hmin) (by omega)
            (h.foundBefore_succ ha hres)]
          refine ⟨fun hlater b hb => ?_, fun hall b hb => hall b (by omega)⟩
          rcases Nat.eq_or_lt_of_le hb with rfl | hb
          · exact hskip
          · exact hlater b hb
        · refine iff_of_false ?_ fun hall => hskip (hall a le_rfl)
          rintro ⟨r, hrun, hcomplete⟩
          rcases scanChunks_succ_eq_ok h.nodup_keys hrun with ⟨-, hend⟩ | ⟨chunk, found, hchunk, hfound, hrun⟩
          · exact hend ⟨hlen, hcount⟩
          · obtain rfl := Except.ok.inj (hchunk.symm.trans (h.chunk a ha))
            rw [hres.filter_eq] at hfound hrun
            obtain ⟨c, hc, hca, hmissed⟩ := h.exists_missed ha hfound hskip
            refine scanChunks_missed h.nodup_keys (h.position_lt c hc) fuel (a + 1) _ (by omega) ?_ hrun
              (Indices.mem_of_get (hcomplete c hc))
            rw [List.mem_append, not_or]
            refine ⟨fun hmem => ?_, hmissed _⟩
            obtain ⟨d, -, hd, hlt, -⟩ := (hres.mem_iff _ _).mp hmem
            rw [hd, hca] at hlt
            exact lt_irrefl a hlt

/-- Across the chunks every commitment is found at its place exactly when none is skipped. -/
lemma InTree.findCommitmentIndicesAcrossChunks_iff
    (h : InTree tree place comms treeChunkReader storageAcc) :
    (∃ r, findCommitmentIndicesAcrossChunks comms treeChunkReader storageAcc = .ok r ∧
        Complete comms place r) ↔
      ∀ a, NoneSkipped (startsLeft comms place a) (positionsIn comms place a) := by
  rw [findCommitmentIndicesAcrossChunks]
  split_ifs with hnil
  · rw [List.length_eq_zero_iff] at hnil
    subst hnil
    refine iff_of_true ⟨[], rfl, fun c hc => absurd hc List.not_mem_nil⟩ fun a =>
      noneSkipped_of_forall_ne fun c hc => absurd hc List.not_mem_nil
  · have hbefore : ∀ c ∈ comms, minAcc comms ≤ (place c.1).indexOfAccount := fun c hc =>
      Nat.le_trans (minAcc_le c hc) (AccIndex.indexOfAccount_le (h.start_le c hc) (h.position_lt c hc))
    have hres : FoundBefore comms place (minAcc comms) [] := by
      refine ⟨List.nodup_nil, fun comm index => iff_of_false List.not_mem_nil ?_⟩
      rintro ⟨c, hc, -, hlt, -⟩
      exact absurd (hbefore c hc) (Nat.not_le_of_lt hlt)
    rw [h.scanChunks_iff _ _ _ le_rfl (by omega) hres]
    refine ⟨fun hall a => ?_, fun hall a _ => hall a⟩
    rcases Nat.lt_or_ge a (minAcc comms) with hlt | hge
    · exact noneSkipped_of_forall_ne fun c hc => by
        have hle := hbefore c hc
        omega
    · exact hall a hge

end Tree

/-! ## The search -/

/-- **Every commitment is found at its place exactly when none is skipped**: in one chunk, and across
the chunks. -/
theorem findCommitmentIndices_iff {populated : List Bytes} {commHashes : List MontScalar}
    {startIndices : List ℕ} (hchunk : InChunk populated commHashes startIndices) (unused : ℕ)
    {tree : ℕ → List Bytes} {place : MontArray → AccIndex} {comms : List (MontArray × AccIndex)}
    {treeChunkReader : TreeChunkAccountReader} {storageAcc : StorageAccBorsh}
    (htree : InTree tree place comms treeChunkReader storageAcc) :
    (findCommitmentIndicesInChunk (populated ++ List.replicate unused (zeros 32)).flatten commHashes
        startIndices = .ok (commHashes.map fun hash => some (populated.idxOf hash)) ↔
      NoneSkipped startIndices (commHashes.map populated.idxOf)) ∧
    ((∃ r, findCommitmentIndicesAcrossChunks comms treeChunkReader storageAcc = .ok r ∧
        Complete comms place r) ↔
      ∀ a, NoneSkipped (startsLeft comms place a) (positionsIn comms place a)) :=
  ⟨hchunk.findCommitmentIndicesInChunk_iff unused, htree.findCommitmentIndicesAcrossChunks_iff⟩

/-! ### The start indices 2 and 10 -/

/-- Eleven different values. -/
def elevenValues : List Bytes := (List.range 11).map fun k => List.replicate 32 (UInt8.ofNat (k + 1))

/-- The values at the positions 2 and 10. -/
def twoHashes : List MontScalar := [List.replicate 32 3, List.replicate 32 11]

lemma inChunk_elevenValues : InChunk elevenValues twoHashes [2, 10] where
  value := by decide
  length_le := by decide
  nodup := by decide
  count_eq := by decide
  start_le := by decide

/-- A tree whose only values are the eleven, in its first chunk. -/
def elevenTree (a : ℕ) : List Bytes := if a = 0 then elevenValues else []

def elevenReader : TreeChunkAccountReader := fun _ => .ok ⟨1, elevenValues.flatten⟩

/-- Every chunk is in use. -/
def elevenStorage : StorageAccBorsh where
  pubkeys := List.replicate (STORAGE_MT_CHUNK_COUNT * 33) 1
  length_eq := List.length_replicate

/-- The value at position 10, searched for from position 2. -/
def tenthComms : List (MontArray × AccIndex) := [(⟨0, List.replicate 32 11⟩, ⟨0, 2⟩)]

lemma inTree_elevenTree :
    InTree elevenTree (fun comm => ⟨0, elevenValues.idxOf comm.bytes⟩) tenthComms elevenReader
      elevenStorage := by
  have hzero : ∀ a, Searched tenthComms (fun comm => ⟨0, elevenValues.idxOf comm.bytes⟩) a → a = 0 := by
    rintro a ⟨-, c, -, hle⟩
    exact Nat.le_zero.mp hle
  have hcount : ∀ c ∈ tenthComms, elevenValues.count c.1.bytes = 1 := by decide
  refine ⟨fun a ha => ?_, fun a ha => ?_, by decide, by decide, by decide, fun c hc a ha i => ?_,
    by decide, fun a i _ _ _ hle => ?_⟩
  · rw [hzero a ha]
    decide +kernel
  · rw [hzero a ha]
    decide
  · rw [hzero a ha, AccIndex.mk.injEq, and_iff_right rfl]
    exact (getElem?_eq_some_iff_of_count (hcount c hc) i).trans eq_comm
  · obtain ⟨c, hc, hle⟩ := hle
    obtain rfl := List.mem_singleton.mp hc
    have hidx : elevenValues.idxOf (List.replicate 32 11) = 10 := by decide
    have hle : a * 83887 + i ≤ 0 * 83887 + elevenValues.idxOf (List.replicate 32 11) := hle
    have ha : a = 0 := by omega
    have hi : i < elevenValues.length := by
      rw [show elevenValues.length = 11 by decide]
      omega
    rw [ha]
    exact ⟨elevenValues[i], List.getElem?_eq_getElem hi,
      (inChunk_elevenValues.value _ (List.getElem_mem hi)).2⟩

/-- The value at 10 alone is found, with the one at 2 it is not. -/
theorem findCommitmentIndices_iff_eleven :
    findCommitmentIndicesInChunk (elevenValues ++ List.replicate 5 (zeros 32)).flatten twoHashes
        [2, 10] ≠ .ok (twoHashes.map fun hash => some (elevenValues.idxOf hash)) ∧
      ∃ r, findCommitmentIndicesAcrossChunks tenthComms elevenReader elevenStorage = .ok r ∧
        Complete tenthComms (fun comm => ⟨0, elevenValues.idxOf comm.bytes⟩) r := by
  obtain ⟨hchunk, htree⟩ := findCommitmentIndices_iff inChunk_elevenValues 5 inTree_elevenTree
  refine ⟨fun hrun => absurd (hchunk.mp hrun) (by decide), htree.mpr fun a => ?_⟩
  rcases Nat.eq_zero_or_pos a with rfl | hpos
  · decide
  · exact noneSkipped_of_forall_ne fun c _ => Nat.ne_of_lt hpos

/-- **A search from the start indices 2 and 10 begins at 10**, and misses the value at 2. -/
theorem findCommitmentIndicesInChunk_skips :
    InChunk elevenValues twoHashes [2, 10] ∧
      twoHashes.map elevenValues.idxOf = [2, 10] ∧ sortAsText [2, 10] = [10, 2] ∧
      findCommitmentIndicesInChunk (elevenValues ++ List.replicate 5 (zeros 32)).flatten twoHashes
        [2, 10] = .error (.error (COULD_NOT_FETCH_DATA "commitment")) := by
  refine ⟨inChunk_elevenValues, by decide, by decide, ?_⟩
  decide +kernel

end StorageAccountReader

end ElusivSdk
