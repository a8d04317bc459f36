import ElusivSdk.AccountReaders.SearchSoundness
import ElusivSdk.ParamManagers.Openings

/-!
# Openings while commitments are inserted

`getCommitmentsInfo` reads one chunk after the other, and commitments are inserted meanwhile.  An
`Interleaving` gives the trees one after another and the moment at which each read is answered.

* `Interleaving.leaf_kept` — a commitment stays where it was inserted.
* `getCommitmentIndices_stands` — the indices that the search gives, in the tree that the root is read
  from.
* **`getCommitmentsInfo_fold`** — a commitment folds to the root when each of its siblings is, at the
  moment its chunk is read, what it is at the moment the root is read; `siblingsAgree_of_fold`: without
  collisions only then.
* **`getCommitmentsInfo_torn`** — an insertion between the siblings and the root.
-/

namespace ElusivSdk

open Format HashTree Program StorageAccountReader TreeManager

/-! ## Interleavings -/

/-- The leaf of an index. -/
def leafAt (index : ℕ) : LocalIndex := ⟨MERKLE_TREE_HEIGHT, index⟩

lemma global_leafAt (index : ℕ) : (leafAt index).global = 2 ^ MERKLE_TREE_HEIGHT - 1 + index := rfl

lemma inTree_leafAt {index : ℕ} (h : index < 2 ^ MERKLE_TREE_HEIGHT) : (leafAt index).InTree :=
  ⟨Nat.le_refl _, h⟩

section Insertions

variable {poseidon : PoseidonScalars} {empty : ℕ}

/-- The later tree has all leaves that are set in the earlier one. -/
def StoredTree.GrowsTo (tree tree' : StoredTree poseidon empty) : Prop :=
  ∀ index < 2 ^ MERKLE_TREE_HEIGHT, tree.bytes (leafAt index).global ≠ zeros 32 →
    tree'.bytes (leafAt index).global = tree.bytes (leafAt index).global

end Insertions

/-- An interleaving of insertions with the reads of one call. -/
structure Interleaving (poseidon : PoseidonScalars) (empty : ℕ) where
  /-- The tree after each insertion. -/
  trees : ℕ → StoredTree poseidon empty
  grows : ∀ n, (trees n).GrowsTo (trees (n + 1))
  /-- When a chunk is read in the search for a group of commitments. -/
  searchAt : ℕ → ℕ → ℕ
  /-- When a chunk is read for the siblings in it. -/
  siblingAt : ℕ → ℕ
  /-- When the chunk with the root is read for the root. -/
  rootAt : ℕ
  search_le_root : ∀ group a, searchAt group a ≤ rootAt

namespace Interleaving

variable {poseidon : PoseidonScalars} {empty : ℕ} (run : Interleaving poseidon empty)

/-- The tree that the root is read from. -/
def rootTree : StoredTree poseidon empty := run.trees run.rootAt

/-- The value of a node at the moment its chunk is read for the siblings. -/
def siblingRead : ℕ → ℕ → ℕ := valueRead fun a => run.trees (run.siblingAt a)

/-- The node answers every read with the tree of its moment. -/
structure Answers (reads : TreeReads) : Prop where
  search : ∀ group, ReadsFrom (fun a => run.trees (run.searchAt group a)) reads.searchAcc
    (reads.searchChunks group)
  siblings : ReadsFrom (fun a => run.trees (run.siblingAt a)) reads.openingAcc reads.siblingChunks
  root : ReadsFrom (fun _ => run.rootTree) reads.openingAcc reads.rootChunk

/-- The siblings of a leaf are, each when it is read, what they are when the root is read. -/
def SiblingsAgree (index : ℕ) : Prop :=
  ∀ li ∈ getOpeningIndices (leafAt index),
    run.siblingRead li.level li.index = run.rootTree.value li.level li.index

/-- The commitment stands at a leaf when the root is read. -/
def StandsAt (comm : ReprScalar) (index : ℕ) : Prop :=
  index < 2 ^ MERKLE_TREE_HEIGHT ∧
    run.rootTree.bytes (leafAt index).global = poseidon.reprToMont comm

/-- **A commitment stays where it was inserted.** -/
lemma leaf_kept {index : ℕ} (h : index < 2 ^ MERKLE_TREE_HEIGHT) {m n : ℕ} (hle : m ≤ n)
    (hset : (run.trees m).bytes (leafAt index).global ≠ zeros 32) :
    (run.trees n).bytes (leafAt index).global = (run.trees m).bytes (leafAt index).global := by
  induction n, hle using Nat.le_induction with
  | base => rfl
  | succ n hle ih => rw [run.grows n index h (by rwa [ih]), ih]

end Interleaving

/-! ## The search -/

lemma StoredTree.eq_of_readCommitment_chunk {poseidon : PoseidonScalars} {empty : ℕ}
    (tree : StoredTree poseidon empty) {a i : ℕ} {value : MontScalar}
    (h : readCommitmentAtAccIndex (tree.chunk a).flatten i = some value) :
    AccIndex.global ⟨a, i⟩ < getNodeCountMT MERKLE_TREE_HEIGHT ∧
      tree.bytes (AccIndex.global ⟨a, i⟩) = value := by
  rw [readCommitmentAtAccIndex_flatten fun v hv => tree.length_of_mem_chunk hv, StoredTree.chunk,
    List.getElem?_map, Option.map_eq_some_iff] at h
  obtain ⟨j, hj, hvalue⟩ := h
  obtain ⟨hlt, rfl⟩ := List.getElem?_eq_some_iff.mp hj
  rw [List.length_range] at hlt
  rw [List.getElem_range] at hvalue
  refine ⟨?_, hvalue⟩
  show a * STORAGE_MT_VALUES_PER_ACCOUNT + i < _
  omega

section Search

variable {poseidon : PoseidonScalars} {empty : ℕ} {run : Interleaving poseidon empty}
  {reads : TreeReads}

/-- A commitment that the search found stands, when the root is read, at the leaf of its index. -/
lemma Interleaving.Answers.found (hanswers : run.Answers reads) {comm : MontScalar} {group place : ℕ}
    (hfound : Found (leafAt 0).global reads.searchAcc (reads.searchChunks group) comm place) :
    ∃ index, index < 2 ^ MERKLE_TREE_HEIGHT ∧ (leafAt index).global = place ∧
      run.rootTree.bytes (leafAt index).global = comm ∧ comm ≠ zeros 32 := by
  obtain ⟨⟨a, i⟩, rfl, ha, hi, chunk, hchunk, hread⟩ := hfound.stands
  rw [hanswers.search group a ha] at hchunk
  obtain rfl := Except.ok.inj hchunk
  obtain ⟨hlt, hbytes⟩ := StoredTree.eq_of_readCommitment_chunk _ hread
  have hle := hfound.lowest_le
  obtain ⟨index, hindex⟩ := Nat.exists_eq_add_of_le hle
  have hplace : (leafAt index).global = AccIndex.global ⟨a, i⟩ := by
    rw [hindex, global_leafAt, global_leafAt, Nat.add_zero]
  have hin : index < 2 ^ MERKLE_TREE_HEIGHT := by
    rw [← hplace, getNodeCountMT, global_leafAt, pow_succ] at hlt
    omega
  rw [← hplace] at hbytes
  have hset : (run.trees (run.searchAt group a)).bytes (leafAt index).global ≠ zeros 32 := by
    rw [hbytes]
    exact hfound.ne_zeros
  refine ⟨index, hin, hplace, ?_, hfound.ne_zeros⟩
  rw [Interleaving.rootTree, run.leaf_kept hin (run.search_le_root group a) hset, hbytes]

/-- A list of values of `f` is the list of values at some list. -/
lemma exists_map_of_forall₂ {α β γ : Type} {f : γ → β} {P : α → γ → Prop} :
    ∀ {l : List α} {r : List β}, List.Forall₂ (fun a b => ∃ c, b = f c ∧ P a c) l r →
      ∃ cs : List γ, r = cs.map f ∧ List.Forall₂ P l cs
  | [], [], .nil => ⟨[], rfl, .nil⟩
  | _ :: _, _ :: _, .cons ⟨c, hc, hP⟩ hrest => by
      obtain ⟨cs, rfl, hcs⟩ := exists_map_of_forall₂ hrest
      exact ⟨c :: cs, by rw [hc, List.map_cons], .cons hP hcs⟩

/-- **The indices that the search gives.** -/
lemma getCommitmentIndices_stands (hanswers : run.Answers reads)
    {commitments : List (ReprScalar × LocalIndex)}
    (hstarts : ∀ c ∈ commitments, ∃ start < 2 ^ MERKLE_TREE_HEIGHT, c.2 = leafAt start)
    {indices : List LocalIndex}
    (hrun : getCommitmentIndices poseidon reads commitments = .ok indices) :
    ∃ leaves : List ℕ, indices = leaves.map leafAt ∧
      List.Forall₂ (fun c index => run.StandsAt c.1 index ∧ poseidon.reprToMont c.1 ≠ zeros 32)
        commitments leaves := by
  rw [getCommitmentIndices] at hrun
  obtain ⟨globalIndices, hsearch, hrun⟩ := bind_eq_ok.mp hrun
  have hstart : ∀ c ∈ commitments.zipIdx.map fun p => (MontArray.mk p.2 (poseidon.reprToMont p.1.1), p.1.2),
      c.2.InTree ∧ (leafAt 0).global ≤ c.2.global := by
    intro c hc
    obtain ⟨⟨d, i⟩, hd, rfl⟩ := List.mem_map.mp hc
    obtain ⟨start, hlt, heq⟩ := hstarts d (List.fst_mem_of_mem_zipIdx hd)
    dsimp only
    rw [heq]
    exact ⟨inTree_leafAt hlt, Nat.le_add_right _ _⟩
  have hfound := findCommitmentIndicesFromStartIndex_found (fun c hc => (hstart c hc).1)
    (fun c hc => (hstart c hc).2) hsearch
  rw [List.mapM_map] at hrun
  have hall := forall₂_of_mapM_eq_ok hrun
  refine exists_map_of_forall₂ ?_
  rw [← List.zipIdx_map_fst 0 commitments, List.forall₂_map_left_iff]
  refine hall.imp fun p li hli => ?_
  obtain ⟨c, i⟩ := p
  rw [Function.comp_apply] at hli
  dsimp only at hli
  cases hget : globalIndices.get ⟨i, poseidon.reprToMont c.1⟩ with
  | none =>
      rw [hget] at hli
      cases hli
  | some place =>
      obtain ⟨group, hplace⟩ := hfound _ _ (mem_of_mapGet hget)
      obtain ⟨index, hlt, rfl, hbytes, hset⟩ := hanswers.found hplace
      rw [hget] at hli
      dsimp only at hli
      rw [IndexConverter.globalIndexToLocalIndex_global (inTree_leafAt hlt)] at hli
      exact ⟨index, (Except.ok.inj hli).symm, ⟨hlt, hbytes⟩, hset⟩

/-! ## The call -/

lemma opening_eq_of_siblingsAgree {index : ℕ} (h : run.SiblingsAgree index) :
    opening run.siblingRead MERKLE_TREE_HEIGHT index
      = opening run.rootTree.value MERKLE_TREE_HEIGHT index := by
  rw [← map_getOpeningIndicesInner, ← map_getOpeningIndicesInner]
  exact List.map_congr_left h

/-- The value of the leaf at which a commitment stands. -/
lemma Interleaving.StandsAt.value_eq {comm : ReprScalar} {index : ℕ} (h : run.StandsAt comm index)
    (hset : poseidon.reprToMont comm ≠ zeros 32)
    (hrepr : poseidon.montToRepr (poseidon.reprToMont comm) = comm) :
    run.rootTree.value MERKLE_TREE_HEIGHT index = ofLeBytes comm := by
  have hvalue := run.rootTree.set (leafAt index) (inTree_leafAt h.1) (by rwa [h.2])
  rw [h.2, hrepr] at hvalue
  exact hvalue

lemma leafIndexToLocalIndex_eq_ok {leafIndex : ℕ} {li : LocalIndex}
    (h : IndexConverter.leafIndexToLocalIndex leafIndex = .ok li) :
    leafIndex < 2 ^ MERKLE_TREE_HEIGHT ∧ li = leafAt leafIndex := by
  rw [IndexConverter.leafIndexToLocalIndex] at h
  split_ifs at h with hlt
  exact ⟨Nat.lt_of_not_le hlt, (Except.ok.inj h).symm⟩

lemma leafIndexToLocalIndex_eq {index : ℕ} (h : index < 2 ^ MERKLE_TREE_HEIGHT) :
    IndexConverter.leafIndexToLocalIndex index = .ok (leafAt index) := if_neg (Nat.not_le_of_lt h)

/-- Each commitment is looked for from the leaf of its start index on. -/
lemma mapM_leafIndexToLocalIndex {commitments : List (ReprScalar × ℕ)}
    {starts : List (ReprScalar × LocalIndex)}
    (h : (commitments.mapM fun c => do
      let start ← IndexConverter.leafIndexToLocalIndex c.2
      pure (c.1, start)) = .ok starts) :
    starts = commitments.map (fun c => (c.1, leafAt c.2)) ∧
      ∀ c ∈ commitments, c.2 < 2 ^ MERKLE_TREE_HEIGHT := by
  induction commitments generalizing starts with
  | nil => exact ⟨(Except.ok.inj h).symm, fun c hc => absurd hc List.not_mem_nil⟩
  | cons c commitments ih =>
      rw [List.mapM_cons] at h
      obtain ⟨s, hs, h⟩ := bind_eq_ok.mp h
      obtain ⟨rest, hrest, h⟩ := bind_eq_ok.mp h
      obtain ⟨start, hstart, hs⟩ := bind_eq_ok.mp hs
      obtain ⟨hlt, rfl⟩ := leafIndexToLocalIndex_eq_ok hstart
      obtain ⟨rfl, hall⟩ := ih hrest
      obtain rfl := Except.ok.inj hs
      exact ⟨(Except.ok.inj h).symm, List.forall_mem_cons.mpr ⟨hlt, hall⟩⟩

/-- **What `getCommitmentsInfo` returns**: for each commitment the index of a leaf at which it stands,
the siblings as they were read, and the root. -/
theorem getCommitmentsInfo_eq (hdefaults : DefaultsOfEmpty poseidon empty)
    (hanswers : run.Answers reads) {commitments : List (ReprScalar × ℕ)} {infos : List CommitmentInfo}
    (hrun : getCommitmentsInfo poseidon reads commitments = .ok infos) :
    List.Forall₂ (fun c info => run.StandsAt c.1 info.index ∧ poseidon.reprToMont c.1 ≠ zeros 32 ∧
      info.opening = opening run.siblingRead MERKLE_TREE_HEIGHT info.index ∧
      info.root = run.rootTree.value 0 0) commitments infos := by
  rw [getCommitmentsInfo] at hrun
  obtain ⟨starts, hstarts, hrun⟩ := bind_eq_ok.mp hrun
  obtain ⟨rfl, hlt⟩ := mapM_leafIndexToLocalIndex hstarts
  obtain ⟨indices, hindices, hrun⟩ := bind_eq_ok.mp hrun
  obtain ⟨leaves, rfl, hstands⟩ := getCommitmentIndices_stands hanswers (fun s hs => by
    obtain ⟨c, hc, rfl⟩ := List.mem_map.mp hs
    exact ⟨c.2, hlt c hc, rfl⟩) hindices
  have hleaves : ∀ i ∈ leaves, i < 2 ^ MERKLE_TREE_HEIGHT := by
    intro i hi
    obtain ⟨k, hk, rfl⟩ := List.getElem_of_mem hi
    exact (hstands.get (by rw [hstands.length_eq]; exact hk) hk).1.1
  obtain ⟨ops, hops, hrun⟩ := bind_eq_ok.mp hrun
  obtain rfl := Except.ok.inj
    ((getOpenings_eq hdefaults hanswers.siblings hanswers.root hleaves).symm.trans hops)
  dsimp only at hrun
  rw [if_neg (by simp)] at hrun
  obtain rfl := Except.ok.inj hrun
  rw [List.zip_map_left, List.zip_map_right, List.zip_eq_zipWith, List.zipWith_self, List.map_map,
    List.map_map, List.map_map, List.forall₂_map_right_iff]
  exact (List.forall₂_map_left_iff.mp hstands).imp fun c i hi => ⟨hi.1, hi.2, rfl, rfl⟩

/-- **A commitment folded with its opening gives the root that is returned with it, when its siblings
agree**: at every leaf at which the commitment stands, each sibling is, at the moment its chunk is read,
what it is at the moment the root is read. -/
theorem getCommitmentsInfo_fold (hdefaults : DefaultsOfEmpty poseidon empty)
    (hanswers : run.Answers reads) {commitments : List (ReprScalar × ℕ)}
    (hrepr : ∀ c ∈ commitments, poseidon.montToRepr (poseidon.reprToMont c.1) = c.1)
    (hagree : ∀ c ∈ commitments, ∀ index, run.StandsAt c.1 index → run.SiblingsAgree index)
    {infos : List CommitmentInfo} (hrun : getCommitmentsInfo poseidon reads commitments = .ok infos) :
    List.Forall₂ (fun c info => foldPath poseidon.poseidonHashBigInt info.index (ofLeBytes c.1)
      info.opening = info.root) commitments infos := by
  have hinfos := getCommitmentsInfo_eq hdefaults hanswers hrun
  refine List.forall₂_iff_get.mpr ⟨hinfos.length_eq, fun k hk hk' => ?_⟩
  obtain ⟨hstands, hset, hopening, hroot⟩ := hinfos.get hk hk'
  have hmem : commitments.get ⟨k, hk⟩ ∈ commitments := List.get_mem _ _
  rw [hopening, hroot, opening_eq_of_siblingsAgree (hagree _ hmem _ hstands),
    ← hstands.value_eq hset (hrepr _ hmem)]
  exact run.rootTree.isHashTree.foldPath_opening (Nat.le_refl _) hstands.1

/-- **Without collisions it folds to the root only then.** -/
theorem siblingsAgree_of_fold {comm : ReprScalar} {index : ℕ} (hstands : run.StandsAt comm index)
    (hset : poseidon.reprToMont comm ≠ zeros 32)
    (hrepr : poseidon.montToRepr (poseidon.reprToMont comm) = comm)
    (hfree : ∀ p ∈ hashedPairs poseidon.poseidonHashBigInt index (ofLeBytes comm)
        (opening run.siblingRead MERKLE_TREE_HEIGHT index),
      ∀ q ∈ hashedPairs poseidon.poseidonHashBigInt index (ofLeBytes comm)
        (opening run.rootTree.value MERKLE_TREE_HEIGHT index),
      poseidon.poseidonHashBigInt p.1 p.2 = poseidon.poseidonHashBigInt q.1 q.2 → p = q)
    (hfold : foldPath poseidon.poseidonHashBigInt index (ofLeBytes comm)
      (opening run.siblingRead MERKLE_TREE_HEIGHT index) = run.rootTree.value 0 0) :
    run.SiblingsAgree index := by
  have hroot := run.rootTree.isHashTree.foldPath_opening (Nat.le_refl _) hstands.1
  rw [hstands.value_eq hset hrepr, ← hfold] at hroot
  obtain ⟨-, hopening⟩ := foldPath_inj (by rw [length_opening, length_opening]) hfree hroot.symm
  rw [← map_getOpeningIndicesInner, ← map_getOpeningIndicesInner] at hopening
  exact List.map_inj_left.mp hopening

/-- A commitment that stands at its start index is found, whatever is read of the opening. -/
lemma getCommitmentsInfo_atStart (hdefaults : DefaultsOfEmpty poseidon empty)
    (hanswers : run.Answers reads) {comm : ReprScalar} {index : ℕ}
    (hindex : index < 2 ^ MERKLE_TREE_HEIGHT)
    (hbytes : ∀ n, (run.trees n).bytes (leafAt index).global = poseidon.reprToMont comm)
    (hset : poseidon.reprToMont comm ≠ zeros 32) :
    getCommitmentsInfo poseidon reads [(comm, index)] = .ok
      [⟨index, opening run.siblingRead MERKLE_TREE_HEIGHT index, run.rootTree.value 0 0⟩] := by
  have hin := inTree_leafAt hindex
  have hstart : [(comm, index)].mapM (fun c => do
      let start ← IndexConverter.leafIndexToLocalIndex c.2
      pure (c.1, start)) = Except.ok (ε := Failure) [(comm, leafAt index)] := by
    have hleaf : IndexConverter.leafIndexToLocalIndex (comm, index).2 = .ok (leafAt index) :=
      leafIndexToLocalIndex_eq hindex
    rw [List.mapM_cons, hleaf]
    rfl
  have hread := StoredTree.readCommitment_chunk
    (run.trees (run.searchAt (leafAt index).accIndex.indexOfAccount
      (leafAt index).accIndex.indexOfAccount)) hin
  rw [hbytes] at hread
  have hsearch := @findCommitmentIndicesFromStartIndex_atStart _ _ ⟨0, poseidon.reprToMont comm⟩ _ _
    hin (hanswers.search _ _ hin.indexOfAccount_lt) hread hset
  have hindices : getCommitmentIndices poseidon reads [(comm, leafAt index)] = .ok [leafAt index] := by
    refine bind_eq_ok.mpr ⟨_, hsearch, ?_⟩
    have hget : Indices.get [(⟨0, poseidon.reprToMont comm⟩, (leafAt index).global)]
        ⟨0, poseidon.reprToMont comm⟩ = some (leafAt index).global := by
      refine mapGet_of_mem ?_ (List.mem_singleton_self _)
      exact List.nodup_singleton _
    show List.mapM _ [(MontArray.mk 0 (poseidon.reprToMont comm), leafAt index)] = _
    rw [List.mapM_cons]
    dsimp only
    rw [hget]
    dsimp only
    rw [IndexConverter.globalIndexToLocalIndex_global hin]
    rfl
  have hleaves : ∀ i ∈ [index], i < 2 ^ MERKLE_TREE_HEIGHT :=
    fun i hi => List.mem_singleton.mp hi ▸ hindex
  have hopenings := getOpenings_eq hdefaults hanswers.siblings hanswers.root hleaves
  refine bind_eq_ok.mpr ⟨_, hstart, bind_eq_ok.mpr ⟨_, hindices, bind_eq_ok.mpr ⟨_, hopenings, ?_⟩⟩⟩
  rw [if_neg (by simp)]
  rfl

end Search

/-! ### A second leaf -/

/-- The leaf 7 alone. -/
def oneLeaf (i : ℕ) : ℕ := if i = 0 then 7 else emptyValue MERKLE_TREE_HEIGHT

lemma oneLeaf_range (i : ℕ) : 0 < oneLeaf i ∧ oneLeaf i < 256 ^ 32 := by
  rw [oneLeaf]
  split_ifs
  · decide
  · exact emptyValue_range _ (Nat.le_refl _)

lemma plainTree_leaf {leaf : ℕ → ℕ} (hleaf : ∀ i, 0 < leaf i ∧ leaf i < 256 ^ 32) {index : ℕ}
    (h : index < 2 ^ MERKLE_TREE_HEIGHT) :
    (plainTree leaf hleaf).bytes (leafAt index).global
      = if leaf index = emptyValue MERKLE_TREE_HEIGHT then zeros 32 else leBytes 32 (leaf index) :=
  StoredTree.bytes_ofValues _ _ _ _ (inTree_leafAt h)

/-- The tree before the insertion, and after it. -/
def secondLeaf (n : ℕ) : StoredTree plainScalars (emptyValue MERKLE_TREE_HEIGHT) :=
  if n = 0 then plainTree oneLeaf oneLeaf_range else plainTree twoLeaves twoLeaves_range

lemma secondLeaf_grows (n : ℕ) : (secondLeaf n).GrowsTo (secondLeaf (n + 1)) := by
  rw [secondLeaf, secondLeaf, if_neg (Nat.succ_ne_zero n)]
  split_ifs
  · intro index hindex hset
    rw [plainTree_leaf _ hindex] at hset ⊢
    rw [plainTree_leaf _ hindex]
    have hzero : index = 0 := by
      by_contra hne
      exact hset (if_pos (if_neg hne))
    rw [hzero]
    rfl
  · exact fun _ _ _ => rfl

/-- The leaf 9 is inserted after the search.  The siblings are read at `siblingsAt`, the root after the
insertion. -/
def secondLeafRun (siblingsAt : ℕ) : Interleaving plainScalars (emptyValue MERKLE_TREE_HEIGHT) where
  trees := secondLeaf
  grows := secondLeaf_grows
  searchAt _ _ := 0
  siblingAt _ := siblingsAt
  rootAt := 1
  search_le_root _ _ := Nat.zero_le _

def secondLeafReads (siblingsAt : ℕ) : TreeReads :=
  ⟨plainStorage, fun _ => (secondLeaf 0).reader, plainStorage, (secondLeaf siblingsAt).reader,
    (secondLeaf 1).reader⟩

lemma answers_secondLeaf (siblingsAt : ℕ) :
    (secondLeafRun siblingsAt).Answers (secondLeafReads siblingsAt) :=
  ⟨fun _ => (secondLeaf 0).readsFrom_reader, (secondLeaf siblingsAt).readsFrom_reader,
    (secondLeaf 1).readsFrom_reader⟩

/-- The commitment with the value 7, looked for from the first leaf on. -/
def firstComm : ReprScalar × ℕ := (leBytes 32 7, 0)

lemma bytes_secondLeaf_zero (n : ℕ) :
    (secondLeaf n).bytes (leafAt 0).global = plainScalars.reprToMont firstComm.1 := by
  have h0 : (0 : ℕ) < 2 ^ MERKLE_TREE_HEIGHT := Nat.two_pow_pos _
  have hne : ¬ 7 = emptyValue MERKLE_TREE_HEIGHT := by decide +kernel
  rw [secondLeaf]
  split_ifs
  · exact (plainTree_leaf oneLeaf_range h0).trans (if_neg hne)
  · exact (plainTree_leaf twoLeaves_range h0).trans (if_neg hne)

lemma getCommitmentsInfo_secondLeaf (siblingsAt : ℕ) :
    getCommitmentsInfo plainScalars (secondLeafReads siblingsAt) [firstComm] = .ok
      [⟨0, opening (secondLeafRun siblingsAt).siblingRead MERKLE_TREE_HEIGHT 0,
        (secondLeaf 1).value 0 0⟩] :=
  getCommitmentsInfo_atStart defaultsOfEmpty_plain (answers_secondLeaf siblingsAt)
    (Nat.two_pow_pos _) bytes_secondLeaf_zero (leBytes_encodes (by decide)).1

/-- Siblings and root are read after the insertion. -/
theorem getCommitmentsInfo_fold_secondLeaf :
    ∃ infos, getCommitmentsInfo plainScalars (secondLeafReads 1) [firstComm] = .ok infos ∧
      List.Forall₂ (fun c info => foldPath plainHash info.index (ofLeBytes c.1) info.opening
        = info.root) [firstComm] infos :=
  ⟨_, getCommitmentsInfo_secondLeaf 1, getCommitmentsInfo_fold defaultsOfEmpty_plain
    (answers_secondLeaf 1) (fun _ _ => rfl) (fun _ _ _ _ _ _ => rfl) (getCommitmentsInfo_secondLeaf 1)⟩

/-- The siblings above the first two leaves, while no other leaf is set. -/
lemma opening_treeOf_empty {leaf : ℕ → ℕ} (hempty : ∀ i, 2 ≤ i → leaf i = emptyValue MERKLE_TREE_HEIGHT) :
    ∀ level < MERKLE_TREE_HEIGHT,
      opening (treeOf plainHash MERKLE_TREE_HEIGHT leaf) level 0
        = opening (fun level _ => emptyValue level) level 0
  | 0, _ => rfl
  | level + 1, hlevel => by
      have hnode : node plainHash leaf (MERKLE_TREE_HEIGHT - (level + 1)) 1
          = emptySubtree plainHash (emptyValue MERKLE_TREE_HEIGHT)
            (MERKLE_TREE_HEIGHT - (level + 1)) := by
        refine node_empty fun j hj _ => hempty j ?_
        have hpow : 2 ^ 1 ≤ 2 ^ (MERKLE_TREE_HEIGHT - (level + 1)) :=
          Nat.pow_le_pow_right Nat.two_pos (by omega)
        omega
      have hsub : MERKLE_TREE_HEIGHT - (MERKLE_TREE_HEIGHT - (level + 1)) = level + 1 := by omega
      rw [emptySubtree_plainHash _ (Nat.sub_le _ _), hsub] at hnode
      rw [opening, opening, opening_treeOf_empty hempty level (Nat.lt_of_succ_lt hlevel)]
      exact congrArg (· :: _) hnode

/-- The root over two leaves. -/
lemma root_treeOf {leaf : ℕ → ℕ} (hempty : ∀ i, 2 ≤ i → leaf i = emptyValue MERKLE_TREE_HEIGHT) :
    treeOf plainHash MERKLE_TREE_HEIGHT leaf 0 0
      = foldPath plainHash 0 (leaf 0) (leaf 1 :: opening (fun level _ => emptyValue level) 19 0) := by
  have htree : IsHashTree plainHash MERKLE_TREE_HEIGHT (treeOf plainHash MERKLE_TREE_HEIGHT leaf) :=
    isHashTree_treeOf MERKLE_TREE_HEIGHT leaf
  rw [← htree.foldPath_opening (Nat.le_refl _) (Nat.two_pow_pos MERKLE_TREE_HEIGHT)]
  refine congrArg (foldPath plainHash 0 (leaf 0)) (congrArg (leaf 1 :: ·) ?_)
  exact opening_treeOf_empty hempty 19 (by decide)

/-- **The leaf 9 is inserted between the reads of the siblings and of the root**: the commitment does
not fold to the root that is returned. -/
theorem getCommitmentsInfo_torn :
    (secondLeafRun 0).Answers (secondLeafReads 0) ∧
    ∃ info, getCommitmentsInfo plainScalars (secondLeafReads 0) [firstComm] = .ok [info] ∧
      foldPath plainHash info.index (ofLeBytes firstComm.1) info.opening ≠ info.root := by
  refine ⟨answers_secondLeaf 0, _, getCommitmentsInfo_secondLeaf 0, ?_⟩
  have hseven : ofLeBytes firstComm.1 = 7 := ofLeBytes_leBytes (by decide)
  have hread : (secondLeafRun 0).siblingRead = treeOf plainHash MERKLE_TREE_HEIGHT oneLeaf := rfl
  have hleaf : treeOf plainHash MERKLE_TREE_HEIGHT oneLeaf MERKLE_TREE_HEIGHT 0 = 7 := rfl
  have htree : IsHashTree plainHash MERKLE_TREE_HEIGHT
      (treeOf plainHash MERKLE_TREE_HEIGHT oneLeaf) := isHashTree_treeOf MERKLE_TREE_HEIGHT oneLeaf
  have hfold := htree.foldPath_opening (Nat.le_refl _) (Nat.two_pow_pos MERKLE_TREE_HEIGHT)
  have hroot : (secondLeaf 1).value = treeOf plainHash MERKLE_TREE_HEIGHT twoLeaves := rfl
  have hone : ∀ i, 2 ≤ i → oneLeaf i = emptyValue MERKLE_TREE_HEIGHT :=
    fun i hi => if_neg (by omega)
  have htwo : ∀ i, 2 ≤ i → twoLeaves i = emptyValue MERKLE_TREE_HEIGHT := by
    intro i hi
    rw [twoLeaves, if_neg (by omega), if_neg (by omega)]
  rw [hleaf] at hfold
  dsimp only
  rw [hseven, hread, hfold, hroot, root_treeOf hone, root_treeOf htwo]
  decide +kernel

end ElusivSdk
