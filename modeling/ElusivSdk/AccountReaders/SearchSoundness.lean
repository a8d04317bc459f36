import ElusivSdk.AccountReaders.ChunkSearch
import ElusivSdk.Library.Program

/-!
# What the search finds is in the tree

Start indices or chunks may be such that a commitment is missed, or that the search fails.  What it does
return is right: each commitment stands at its index, in a chunk that was read, not before the first of
the start indices.

* `insertFound_mem`, `scanChunks_found` — one chunk, and chunk after chunk.
* `groupAccIndices_mem` — the commitments of a group start in one account.
* **`findCommitmentIndicesFromStartIndex_found`** — the whole search.
* `findCommitmentIndicesFromStartIndex_atStart` — one commitment that stands at its start index is found.
-/

namespace ElusivSdk

open Program

namespace StorageAccountReader

/-- The commitment stands at the place `index` of the whole sequence, not before the place `lowest`, in
a chunk that the reader gives. -/
structure Found (lowest : ℕ) (storageAcc : StorageAccBorsh) (treeChunkReader : TreeChunkAccountReader)
    (comm : MontScalar) (index : ℕ) : Prop where
  lowest_le : lowest ≤ index
  stands : ∃ place : AccIndex, place.global = index ∧ place.indexOfAccount < STORAGE_MT_CHUNK_COUNT ∧
    place.indexInAccount < STORAGE_MT_VALUES_PER_ACCOUNT ∧
    ∃ chunk, getChunkFromIndex place.indexOfAccount storageAcc treeChunkReader = .ok chunk ∧
      readCommitmentAtAccIndex chunk place.indexInAccount = some comm
  ne_zeros : comm ≠ zeros 32

lemma mem_of_mem_set {res : Indices} {comm comm' : MontArray} {index index' : ℕ}
    (h : (comm', index') ∈ res.set comm index) :
    (comm', index') ∈ res ∨ (comm' = comm ∧ index' = index) := by
  rw [Indices.set] at h
  split_ifs at h
  · obtain ⟨entry, hentry, heq⟩ := List.mem_map.mp h
    split_ifs at heq
    · exact Or.inr (Prod.mk.inj heq.symm)
    · exact Or.inl (heq ▸ hentry)
  · rcases List.mem_append.mp h with h | h
    · exact Or.inl h
    · exact Or.inr (Prod.mk.inj (List.mem_singleton.mp h))

/-- What is entered in the map was there or was found. -/
lemma insertFound_mem {accIndex : ℕ} {comm : MontArray} {index : ℕ} :
    ∀ {found : List ((MontArray × AccIndex) × Option ℕ)} {res res' : Indices},
      insertFound accIndex res found = .ok res' → (comm, index) ∈ res' →
      (comm, index) ∈ res ∨ ∃ e ∈ found, ∃ i, e.2 = some i ∧ e.1.1 = comm ∧
        accIndex < STORAGE_MT_CHUNK_COUNT ∧ AccIndex.global ⟨accIndex, i⟩ = index
  | [], res, res', hrun, hmem => by
      obtain rfl := Except.ok.inj hrun
      exact Or.inl hmem
  | (c, none) :: found, res, res', hrun, hmem => by
      have hrest : insertFound accIndex res found = .ok res' := hrun
      rcases insertFound_mem hrest hmem with hmem | ⟨e, he, hfound⟩
      · exact Or.inl hmem
      · exact Or.inr ⟨e, List.mem_cons_of_mem _ he, hfound⟩
  | (c, some i) :: found, res, res', hrun, hmem => by
      rw [insertFound] at hrun
      obtain ⟨global, hglobal, hrun⟩ := bind_eq_ok.mp hrun
      rcases insertFound_mem hrun hmem with hmem | ⟨e, he, hfound⟩
      · rcases mem_of_mem_set hmem with hmem | ⟨rfl, rfl⟩
        · exact Or.inl hmem
        · rw [IndexConverter.accIndexToGlobalIndex] at hglobal
          split_ifs at hglobal with hlt
          exact Or.inr ⟨_, List.mem_cons_self, i, rfl, rfl, Nat.lt_of_not_le hlt,
            Except.ok.inj hglobal⟩
      · exact Or.inr ⟨e, List.mem_cons_of_mem _ he, hfound⟩

section Chunks

variable {comms : List (MontArray × AccIndex)} {treeChunkReader : TreeChunkAccountReader}
  {storageAcc : StorageAccBorsh} {account lowest : ℕ}

/-- Where the search of a chunk starts is not before the lowest start, when all start in one account. -/
lemma lowest_le_of_startInChunk (haccount : ∀ c ∈ comms, c.2.indexOfAccount = account)
    (hlowest : ∀ c ∈ comms, lowest ≤ c.2.global)
    (hinside : ∀ c ∈ comms, c.2.indexInAccount < STORAGE_MT_VALUES_PER_ACCOUNT) {a first i : ℕ}
    (ha : account ≤ a) (hfirst : ∃ c ∈ comms, startInChunk a c = first) (hle : first ≤ i) :
    lowest ≤ AccIndex.global ⟨a, i⟩ := by
  obtain ⟨c, hc, rfl⟩ := hfirst
  refine Nat.le_trans (hlowest c hc) ?_
  have hin : c.2.indexInAccount < 83887 := hinside c hc
  show c.2.indexOfAccount * 83887 + c.2.indexInAccount ≤ a * 83887 + i
  rw [startInChunk] at hle
  have hacc := haccount c hc
  split_ifs at hle <;> omega

/-- **Chunk after chunk, only commitments that stand at their index are entered.** -/
lemma scanChunks_found (haccount : ∀ c ∈ comms, c.2.indexOfAccount = account)
    (hlowest : ∀ c ∈ comms, lowest ≤ c.2.global)
    (hinside : ∀ c ∈ comms, c.2.indexInAccount < STORAGE_MT_VALUES_PER_ACCOUNT) :
    ∀ (fuel a : ℕ) {res r : Indices}, account ≤ a →
      (∀ comm index, (comm, index) ∈ res → Found lowest storageAcc treeChunkReader comm.bytes index) →
      scanChunks comms treeChunkReader storageAcc fuel a res = .ok r →
      ∀ comm index, (comm, index) ∈ r → Found lowest storageAcc treeChunkReader comm.bytes index
  | 0, _, _, _, _, _, hrun => nomatch hrun
  | fuel + 1, a, res, r, ha, hres, hrun => by
      rw [scanChunks] at hrun
      split_ifs at hrun with hcond
      · obtain ⟨chunk, hchunk, hrun⟩ := bind_eq_ok.mp hrun
        obtain ⟨found, hfound, hrun⟩ := bind_eq_ok.mp hrun
        obtain ⟨res', hinsert, hrun⟩ := bind_eq_ok.mp hrun
        refine scanChunks_found haccount hlowest hinside fuel (a + 1) (Nat.le_succ_of_le ha) ?_ hrun
        intro comm index hmem
        rcases insertFound_mem hinsert hmem with hmem | ⟨⟨c, p⟩, he, i, rfl, rfl, hlt, rfl⟩
        · exact hres comm index hmem
        · -- `c` is one of the commitments that were left to find
          have hzip : (c.1.bytes, some i)
              ∈ ((comms.filter fun c => !res.has c.1).map fun c => c.1.bytes).zip found := by
            rw [List.zip_map_left]
            exact List.mem_map_of_mem (f := Prod.map (fun c => c.1.bytes) id) he
          obtain ⟨first, hfirst, hstands⟩ :=
            findCommitmentIndicesInChunk_stands hfound _ hzip i rfl
          obtain ⟨d, hd, hstart⟩ := List.mem_map.mp hfirst
          have hdmem : d ∈ comms := (List.mem_filter.mp hd).1
          exact ⟨lowest_le_of_startInChunk haccount hlowest hinside ha ⟨d, hdmem, hstart⟩
              hstands.first_le,
            ⟨⟨a, i⟩, rfl, hlt, hstands.position_lt, chunk, hchunk, hstands.read⟩, hstands.ne_zeros⟩
      · obtain rfl := Except.ok.inj hrun
        exact hres

lemma le_minAcc (hcount : account ≤ STORAGE_MT_CHUNK_COUNT)
    (haccount : ∀ c ∈ comms, c.2.indexOfAccount = account) : account ≤ minAcc comms := by
  have hfold : ∀ (comms : List (MontArray × AccIndex)) (acc : ℕ), account ≤ acc →
      (∀ c ∈ comms, c.2.indexOfAccount = account) →
      account ≤ comms.foldl (fun acc c => min acc c.2.indexOfAccount) acc := by
    intro comms
    induction comms with
    | nil => exact fun acc hacc _ => hacc
    | cons c comms ih =>
        intro acc hacc hall
        refine ih _ (Nat.le_min.mpr ⟨hacc, ?_⟩) fun d hd => hall d (List.mem_cons_of_mem _ hd)
        exact Nat.le_of_eq (hall c List.mem_cons_self).symm
  exact hfold comms _ hcount haccount

lemma findCommitmentIndicesAcrossChunks_found
    (hcount : ∀ c ∈ comms, c.2.indexOfAccount < STORAGE_MT_CHUNK_COUNT)
    (haccount : ∀ c ∈ comms, c.2.indexOfAccount = account)
    (hlowest : ∀ c ∈ comms, lowest ≤ c.2.global)
    (hinside : ∀ c ∈ comms, c.2.indexInAccount < STORAGE_MT_VALUES_PER_ACCOUNT) {r : Indices}
    (hrun : findCommitmentIndicesAcrossChunks comms treeChunkReader storageAcc = .ok r) :
    ∀ comm index, (comm, index) ∈ r → Found lowest storageAcc treeChunkReader comm.bytes index := by
  rw [findCommitmentIndicesAcrossChunks] at hrun
  split_ifs at hrun with hnil
  · obtain rfl := Except.ok.inj hrun
    exact fun _ _ hmem => absurd hmem List.not_mem_nil
  · obtain ⟨c, hc⟩ := List.exists_mem_of_length_pos (Nat.pos_of_ne_zero hnil)
    have hle : account ≤ STORAGE_MT_CHUNK_COUNT := haccount c hc ▸ Nat.le_of_lt (hcount c hc)
    exact scanChunks_found haccount hlowest hinside _ _ (le_minAcc hle haccount)
      (fun _ _ hmem => absurd hmem List.not_mem_nil) hrun

end Chunks

/-! ## Groups -/

/-- The commitments of a group are among those given, and start in the account of the group. -/
lemma groupAccIndices_mem (comms : List (MontArray × AccIndex)) :
    ∀ group ∈ groupAccIndices comms, ∀ c ∈ group.2, c ∈ comms ∧ c.2.indexOfAccount = group.1 := by
  have hfold : ∀ (later seen : List (MontArray × AccIndex))
      (res : List (ℕ × List (MontArray × AccIndex))),
      (∀ group ∈ res, ∀ c ∈ group.2, c ∈ seen ∧ c.2.indexOfAccount = group.1) →
      ∀ group ∈ later.foldl (fun res comm =>
          let group := (mapGet res comm.2.indexOfAccount).getD []
          addToSet Prod.fst res (comm.2.indexOfAccount, group ++ [comm])) res,
        ∀ c ∈ group.2, c ∈ seen ++ later ∧ c.2.indexOfAccount = group.1 := by
    intro later
    induction later with
    | nil =>
        intro seen res hres
        rwa [List.append_nil]
    | cons comm later ih =>
        intro seen res hres
        have hstep := ih (seen ++ [comm])
          (addToSet Prod.fst res
            (comm.2.indexOfAccount, (mapGet res comm.2.indexOfAccount).getD [] ++ [comm])) ?_
        · rw [List.append_assoc] at hstep
          exact hstep
        intro group hgroup c hc
        have hnew : ∀ c ∈ (mapGet res comm.2.indexOfAccount).getD [] ++ [comm],
            c ∈ seen ++ [comm] ∧ c.2.indexOfAccount = comm.2.indexOfAccount := by
          intro c hc
          rcases List.mem_append.mp hc with hc | hc
          · cases hget : mapGet res comm.2.indexOfAccount with
            | none =>
                rw [hget] at hc
                exact absurd hc List.not_mem_nil
            | some old =>
                rw [hget] at hc
                obtain ⟨hseen, haccount⟩ := hres _ (mem_of_mapGet hget) c hc
                exact ⟨List.mem_append_left _ hseen, haccount⟩
          · rw [List.mem_singleton.mp hc]
            exact ⟨List.mem_append_right _ (List.mem_singleton_self _), rfl⟩
        rcases mem_of_mem_addToSet hgroup with hgroup | rfl
        · obtain ⟨hseen, haccount⟩ := hres group hgroup c hc
          exact ⟨List.mem_append_left _ hseen, haccount⟩
        · exact hnew c hc
  exact hfold comms [] [] fun group hgroup => absurd hgroup List.not_mem_nil

/-- What a merged map holds is in one of the maps. -/
lemma mem_mergeMaps {maps : List Indices} {comm : MontArray} {index : ℕ}
    (h : (comm, index) ∈ mergeMaps maps) : ∃ map ∈ maps, (comm, index) ∈ map := by
  have hfold : ∀ items res : Indices,
      (comm, index) ∈ items.foldl (fun res item => Indices.set res item.1 item.2) res →
      (comm, index) ∈ res ∨ (comm, index) ∈ items := by
    intro items
    induction items with
    | nil => exact fun res hmem => Or.inl hmem
    | cons item items ih =>
        intro res hmem
        rcases ih _ hmem with hmem | hmem
        · rcases mem_of_mem_set hmem with hmem | ⟨rfl, rfl⟩
          · exact Or.inl hmem
          · exact Or.inr List.mem_cons_self
        · exact Or.inr (List.mem_cons_of_mem _ hmem)
  rcases hfold _ _ h with hmem | hmem
  · exact absurd hmem List.not_mem_nil
  · exact List.mem_flatten.mp hmem

/-- **Whatever the search returns stands in the tree**, in a chunk read for one of the groups, and not
before the lowest start index. -/
theorem findCommitmentIndicesFromStartIndex_found {comms : List (MontArray × LocalIndex)}
    {treeChunkReader : ℕ → TreeChunkAccountReader} {storageAcc : StorageAccBorsh} {lowest : ℕ}
    (hin : ∀ c ∈ comms, c.2.InTree) (hlowest : ∀ c ∈ comms, lowest ≤ c.2.global) {r : Indices}
    (hrun : findCommitmentIndicesFromStartIndex comms treeChunkReader storageAcc = .ok r) :
    ∀ comm index, (comm, index) ∈ r →
      ∃ group, Found lowest storageAcc (treeChunkReader group) comm.bytes index := by
  have hacc : comms.mapM (fun p => do
      let accIndex ← IndexConverter.localIndexToAccIndex p.2
      pure (p.1, accIndex)) = Except.ok (ε := Failure) (comms.map fun p => (p.1, p.2.accIndex)) :=
    mapM_of_ok fun p hp => bind_eq_ok.mpr ⟨_, (hin p hp).localIndexToAccIndex_eq, rfl⟩
  rw [findCommitmentIndicesFromStartIndex] at hrun
  obtain ⟨accIndices, hacc', hrun⟩ := bind_eq_ok.mp hrun
  obtain rfl := Except.ok.inj (hacc.symm.trans hacc')
  obtain ⟨maps, hmaps, hrun⟩ := bind_eq_ok.mp hrun
  obtain rfl := Except.ok.inj hrun
  intro comm index hmem
  obtain ⟨map, hmap, hmem⟩ := mem_mergeMaps hmem
  obtain ⟨group, hgroup, hsearch⟩ := exists_of_mem_mapM hmaps hmap
  -- every commitment of the group is one of those given
  have hgiven : ∀ c ∈ group.2, ∃ p ∈ comms, (p.1, p.2.accIndex) = c := fun c hc =>
    List.mem_map.mp (groupAccIndices_mem _ group hgroup c hc).1
  refine ⟨group.1, findCommitmentIndicesAcrossChunks_found ?_
    (fun c hc => (groupAccIndices_mem _ group hgroup c hc).2) ?_ ?_ hsearch comm index hmem⟩
  · intro c hc
    obtain ⟨p, hp, rfl⟩ := hgiven c hc
    exact (hin p hp).indexOfAccount_lt
  · intro c hc
    obtain ⟨p, hp, rfl⟩ := hgiven c hc
    exact p.2.accIndex_global ▸ hlowest p hp
  · intro c hc
    obtain ⟨p, hp, rfl⟩ := hgiven c hc
    exact Nat.mod_lt _ (by decide)

/-! ## A commitment at its start index -/

lemma findCommitmentIndicesInChunk_atStart {chunk : Bytes} {comm : MontScalar} {i : ℕ}
    (hi : i < STORAGE_MT_VALUES_PER_ACCOUNT) (hread : readCommitmentAtAccIndex chunk i = some comm)
    (hset : comm ≠ zeros 32) : findCommitmentIndicesInChunk chunk [comm] [i] = .ok [some i] := by
  have hcheck : checkCommitment [comm] comm i [none] = ([some i], true) := by
    simp [checkCommitment]
  show scanChunk chunk [comm] [i] (STORAGE_MT_VALUES_PER_ACCOUNT + 1) ⟨i, 0, [none]⟩ = _
  rw [scanChunk, if_pos hi, hread]
  dsimp only
  rw [if_neg hset, hcheck]
  rfl

lemma findCommitmentIndicesAcrossChunks_atStart {treeChunkReader : TreeChunkAccountReader}
    {storageAcc : StorageAccBorsh} {comm : MontArray} {place : AccIndex} {chunk : Bytes}
    (haccount : place.indexOfAccount < STORAGE_MT_CHUNK_COUNT)
    (hinside : place.indexInAccount < STORAGE_MT_VALUES_PER_ACCOUNT)
    (hchunk : getChunkFromIndex place.indexOfAccount storageAcc treeChunkReader = .ok chunk)
    (hread : readCommitmentAtAccIndex chunk place.indexInAccount = some comm.bytes)
    (hset : comm.bytes ≠ zeros 32) :
    findCommitmentIndicesAcrossChunks [(comm, place)] treeChunkReader storageAcc
      = .ok [(comm, place.global)] := by
  have hmin : minAcc [(comm, place)] = place.indexOfAccount := Nat.min_eq_right (Nat.le_of_lt haccount)
  have hstart : startInChunk place.indexOfAccount (comm, place) = place.indexInAccount := if_pos rfl
  have hfound := findCommitmentIndicesInChunk_atStart hinside hread hset
  have hinsert : insertFound place.indexOfAccount [] [((comm, place), some place.indexInAccount)]
      = .ok [(comm, place.global)] :=
    bind_eq_ok.mpr ⟨_, IndexConverter.accIndexToGlobalIndex_eq haccount, rfl⟩
  show scanChunks [(comm, place)] treeChunkReader storageAcc (STORAGE_MT_CHUNK_COUNT + 1)
    (minAcc [(comm, place)]) [] = _
  rw [hmin, scanChunks, if_pos ⟨by simp, haccount⟩]
  refine bind_eq_ok.mpr ⟨chunk, hchunk, bind_eq_ok.mpr ⟨[some place.indexInAccount], ?_, ?_⟩⟩
  · show findCommitmentIndicesInChunk chunk [comm.bytes] [startInChunk place.indexOfAccount (comm, place)] = _
    rw [hstart]
    exact hfound
  · -- nothing is left to find
    refine bind_eq_ok.mpr ⟨_, hinsert, ?_⟩
    show scanChunks _ _ _ (24 + 1) _ _ = _
    rw [scanChunks, if_neg (by simp)]

/-- **One commitment that stands at its start index is found there.** -/
lemma findCommitmentIndicesFromStartIndex_atStart {treeChunkReader : ℕ → TreeChunkAccountReader}
    {storageAcc : StorageAccBorsh} {comm : MontArray} {li : LocalIndex} {chunk : Bytes}
    (hin : li.InTree)
    (hchunk : getChunkFromIndex li.accIndex.indexOfAccount storageAcc
      (treeChunkReader li.accIndex.indexOfAccount) = .ok chunk)
    (hread : readCommitmentAtAccIndex chunk li.accIndex.indexInAccount = some comm.bytes)
    (hset : comm.bytes ≠ zeros 32) :
    findCommitmentIndicesFromStartIndex [(comm, li)] treeChunkReader storageAcc
      = .ok [(comm, li.global)] := by
  have hsearch := findCommitmentIndicesAcrossChunks_atStart hin.indexOfAccount_lt
    (Nat.mod_lt _ (by decide)) hchunk hread hset
  rw [li.accIndex_global] at hsearch
  rw [findCommitmentIndicesFromStartIndex]
  refine bind_eq_ok.mpr ⟨[(comm, li.accIndex)], ?_, bind_eq_ok.mpr ⟨[[(comm, li.global)]], ?_, rfl⟩⟩
  · rw [List.mapM_cons, hin.localIndexToAccIndex_eq]
    rfl
  · show List.mapM _ [(li.accIndex.indexOfAccount, [(comm, li.accIndex)])] = _
    rw [List.mapM_cons, hsearch]
    rfl

end StorageAccountReader

end ElusivSdk
