import ElusivSdk.AccountReaders.ChunkSearch
import ElusivSdk.Library.HashTree
import ElusivSdk.Library.Program
import ElusivSdk.ParamManagers.TreeManager

/-!
# Openings fold to the root

A `StoredTree` is a tree of height `MERKLE_TREE_HEIGHT` as the accounts hold it: node after node from
the root down, with zeros for the nodes over empty leaves.

* `StoredTree.parse_bytes` — the value of a node is parsed from its bytes.
* `getCommitmentsAtLocalIndices_eq` — every node that is asked for is read, each from the chunk that it
  is in.
* `getOpenings_eq` — the openings, when each chunk is read from a tree of its own.
* **`getOpenings_fold`** — on one tree, every leaf folded with its opening gives the root.
-/

namespace ElusivSdk

open Format HashTree Program StorageAccountReader TreeManager

/-! ## Stored trees -/

/-- A tree as the accounts hold it. -/
structure StoredTree (poseidon : PoseidonScalars) (empty : ℕ) where
  /-- The value of a node by level and index. -/
  value : ℕ → ℕ → ℕ
  /-- The bytes of a node by its place in the whole sequence. -/
  bytes : ℕ → MontScalar
  isHashTree : IsHashTree poseidon.poseidonHashBigInt MERKLE_TREE_HEIGHT value
  length_bytes : ∀ place, (bytes place).length = 32
  /-- Zeros stand for the default value of the level. -/
  unset : ∀ li : LocalIndex, li.InTree → bytes li.global = zeros 32 → value li.level li.index
    = emptySubtree poseidon.poseidonHashBigInt empty (MERKLE_TREE_HEIGHT - li.level)
  set : ∀ li : LocalIndex, li.InTree → bytes li.global ≠ zeros 32 →
    value li.level li.index = ofLeBytes (poseidon.montToRepr (bytes li.global))

/-- The table of default values holds the hashes of empty subtrees. -/
def DefaultsOfEmpty (poseidon : PoseidonScalars) (empty : ℕ) : Prop :=
  ∀ level ≤ MERKLE_TREE_HEIGHT, (getDefault poseidon level).map ofLeBytes
    = .ok (emptySubtree poseidon.poseidonHashBigInt empty (MERKLE_TREE_HEIGHT - level))

namespace StoredTree

variable {poseidon : PoseidonScalars} {empty : ℕ} (tree : StoredTree poseidon empty)

/-- The values of one account; the last account has fewer. -/
def chunk (a : ℕ) : List MontScalar :=
  (List.range (min STORAGE_MT_VALUES_PER_ACCOUNT
    (getNodeCountMT MERKLE_TREE_HEIGHT - a * STORAGE_MT_VALUES_PER_ACCOUNT))).map fun i =>
      tree.bytes (a * STORAGE_MT_VALUES_PER_ACCOUNT + i)

lemma length_of_mem_chunk {a : ℕ} {value : MontScalar} (h : value ∈ tree.chunk a) :
    value.length = 32 := by
  obtain ⟨i, -, rfl⟩ := List.mem_map.mp h
  exact tree.length_bytes _

lemma readCommitment_chunk {li : LocalIndex} (h : li.InTree) :
    readCommitmentAtAccIndex (tree.chunk li.accIndex.indexOfAccount).flatten
      li.accIndex.indexInAccount = some (tree.bytes li.global) := by
  have hglobal : li.accIndex.indexOfAccount * STORAGE_MT_VALUES_PER_ACCOUNT
      + li.accIndex.indexInAccount = li.global := li.accIndex_global
  have hin : li.accIndex.indexInAccount < STORAGE_MT_VALUES_PER_ACCOUNT := Nat.mod_lt _ (by decide)
  have hlt := h.global_lt
  rw [readCommitmentAtAccIndex_flatten fun v hv => tree.length_of_mem_chunk hv, chunk,
    List.getElem?_map, List.getElem?_range (by omega), Option.map_some, hglobal]

/-- **The value of a node is parsed from its bytes.** -/
lemma parse_bytes (hdefaults : DefaultsOfEmpty poseidon empty) {li : LocalIndex} (h : li.InTree) :
    parseTreeBytesToBigInt poseidon (some (tree.bytes li.global)) li.level
      = .ok (tree.value li.level li.index) := by
  rw [parseTreeBytesToBigInt]
  by_cases hzero : tree.bytes li.global = zeros 32
  · rw [if_pos hzero, hdefaults li.level h.level_le, tree.unset li h hzero]
  · rw [if_neg hzero, tree.set li h hzero]

end StoredTree

/-! ## Reading nodes -/

/-- The node at the parent of a place, and all siblings above. -/
lemma inTree_of_mem_getOpeningIndices {level index : ℕ} (hlevel : level ≤ MERKLE_TREE_HEIGHT)
    (hindex : index < 2 ^ level) :
    ∀ li ∈ getOpeningIndicesInner index level, li.InTree := by
  induction level generalizing index with
  | zero => exact fun li hli => absurd hli List.not_mem_nil
  | succ level ih =>
      intro li hli
      rw [getOpeningIndicesInner] at hli
      rcases List.mem_cons.mp hli with rfl | hli
      · exact ⟨hlevel, sibling_lt hindex⟩
      · exact ih (Nat.le_of_succ_le hlevel) (half_lt hindex) li hli

/-- The siblings that are read are those of the opening. -/
lemma map_getOpeningIndicesInner (value : ℕ → ℕ → ℕ) :
    ∀ level index : ℕ, (getOpeningIndicesInner index level).map (fun li => value li.level li.index)
      = opening value level index
  | 0, _ => rfl
  | level + 1, index => by
      rw [getOpeningIndicesInner, List.map_cons, map_getOpeningIndicesInner value level, opening, sibling]

lemma indexId_injective : Function.Injective indexId := by
  rintro ⟨level, index⟩ ⟨level', index'⟩ h
  have h := congrArg String.toList h
  rw [indexId, indexId, toList_separated, toList_separated] at h
  obtain ⟨rfl, rfl⟩ := digits_separator_inj '_' (by decide) h
  rfl

section Reads

variable {poseidon : PoseidonScalars} {empty : ℕ}

/-- The chunks as they are read, each from a tree of its own. -/
def ReadsFrom (trees : ℕ → StoredTree poseidon empty) (storageAcc : StorageAccBorsh)
    (treeChunkReader : TreeChunkAccountReader) : Prop :=
  ∀ a < STORAGE_MT_CHUNK_COUNT,
    getChunkFromIndex a storageAcc treeChunkReader = .ok ((trees a).chunk a).flatten

/-- The bytes of a node in the tree that its chunk is read from. -/
def bytesRead (trees : ℕ → StoredTree poseidon empty) (li : LocalIndex) : MontScalar :=
  (trees li.accIndex.indexOfAccount).bytes li.global

/-- The value of a node in the tree that its chunk is read from. -/
def valueRead (trees : ℕ → StoredTree poseidon empty) (level index : ℕ) : ℕ :=
  (trees (LocalIndex.accIndex ⟨level, index⟩).indexOfAccount).value level index

variable {trees : ℕ → StoredTree poseidon empty} {storageAcc : StorageAccBorsh}
  {treeChunkReader rootChunkReader : TreeChunkAccountReader}

lemma getRoot_eq {tree : StoredTree poseidon empty}
    (hroot : ReadsFrom (fun _ => tree) storageAcc rootChunkReader) :
    getRoot storageAcc rootChunkReader = .ok (some (tree.bytes 0)) := by
  have hin : LocalIndex.InTree ⟨0, 0⟩ := ⟨Nat.zero_le _, Nat.one_pos⟩
  have hread := tree.readCommitment_chunk hin
  rw [getRoot, hroot 0 (by decide)]
  exact congrArg Except.ok hread

/-- Waiting for a chunk that is among those that are read. -/
lemma awaitChunk_eq (hreads : ReadsFrom trees storageAcc treeChunkReader) {accIndices : List ℕ} {a : ℕ}
    (hmem : a ∈ accIndices) (ha : a < STORAGE_MT_CHUNK_COUNT) :
    awaitChunk (getChunksFromIndices (accIndices.foldl (addToSet id) []) storageAcc treeChunkReader) a
      = .ok ((trees a).chunk a).flatten := by
  have hset : a ∈ accIndices.foldl (addToSet id) [] :=
    (mem_foldl_addToSet Function.injective_id []).mpr (Or.inr hmem)
  rw [awaitChunk, getChunksFromIndices, SparseArray.at?_foldl_assign, if_pos hset]
  exact hreads a ha

/-- **Every node is read, each from the chunk that it is in.** -/
lemma getCommitmentsAtLocalIndices_eq (hreads : ReadsFrom trees storageAcc treeChunkReader)
    {localIndices : List LocalIndex} (hin : ∀ li ∈ localIndices, li.InTree)
    (hnodup : localIndices.Nodup) :
    getCommitmentsAtLocalIndices localIndices storageAcc treeChunkReader rootChunkReader
      = .ok (localIndices.map fun li => (localIndexToString li, some (bytesRead trees li)),
        getRoot storageAcc rootChunkReader) := by
  have hacc : localIndices.mapM IndexConverter.localIndexToAccIndex
      = .ok (localIndices.map LocalIndex.accIndex) :=
    mapM_of_ok fun li hli => (hin li hli).localIndexToAccIndex_eq
  have hzip : localIndices.zip (localIndices.map LocalIndex.accIndex)
      = localIndices.map fun li => (li, li.accIndex) := by
    rw [List.zip_map_right, List.zip_eq_zipWith, List.zipWith_self, List.map_map]
    rfl
  have hfetch : (localIndices.map fun li => (li, li.accIndex)).mapM (fun p => do
      let data ← awaitChunk (getChunksFromIndices
        (((localIndices.map LocalIndex.accIndex).map AccIndex.indexOfAccount).foldl (addToSet id) [])
        storageAcc treeChunkReader) p.2.indexOfAccount
      pure (localIndexToString p.1, readCommitmentAtAccIndex data p.2.indexInAccount))
      = Except.ok (ε := Failure)
        (localIndices.map fun li => (localIndexToString li, some (bytesRead trees li))) := by
    rw [mapM_of_ok (g := fun p => (localIndexToString p.1, some (bytesRead trees p.1))), List.map_map]
    · rfl
    · intro p hp
      obtain ⟨li, hli, rfl⟩ := List.mem_map.mp hp
      have hmem : li.accIndex.indexOfAccount
          ∈ (localIndices.map LocalIndex.accIndex).map AccIndex.indexOfAccount :=
        List.mem_map_of_mem (List.mem_map_of_mem hli)
      show (awaitChunk _ li.accIndex.indexOfAccount >>= fun data => pure _) = _
      rw [awaitChunk_eq hreads hmem (hin li hli).indexOfAccount_lt]
      refine congrArg (fun val => Except.ok (localIndexToString li, val)) ?_
      exact (trees li.accIndex.indexOfAccount).readCommitment_chunk (hin li hli)
  have hkeys : (([] ++ localIndices.map fun li =>
      (localIndexToString li, some (bytesRead trees li))).map Prod.fst).Nodup := by
    rw [List.nil_append, List.map_map]
    exact hnodup.map localIndexToString_injective
  rw [getCommitmentsAtLocalIndices]
  refine bind_eq_ok.mpr ⟨_, hacc, bind_eq_ok.mpr ⟨_, by rw [hzip]; exact hfetch, ?_⟩⟩
  rw [foldl_addToSet_of_nodup [] hkeys]
  rfl

/-- The value of a sibling that was read. -/
lemma siblingValue_eq (hdefaults : DefaultsOfEmpty poseidon empty) {localIndices : List LocalIndex}
    (hnodup : localIndices.Nodup) {li : LocalIndex} (hmem : li ∈ localIndices) (hin : li.InTree) :
    siblingValue poseidon
        (localIndices.map fun li => (localIndexToString li, some (bytesRead trees li))) li
      = .ok (valueRead trees li.level li.index) := by
  have hkeys : ((localIndices.map fun li =>
      (localIndexToString li, some (bytesRead trees li))).map Prod.fst).Nodup := by
    rw [List.map_map]
    exact hnodup.map localIndexToString_injective
  rw [siblingValue, mapGet_of_mem hkeys (List.mem_map_of_mem hmem)]
  exact (trees li.accIndex.indexOfAccount).parse_bytes hdefaults hin

/-- **The openings of leaves**, when every chunk is read from a tree of its own and the root from one
more. -/
theorem getOpenings_eq (hdefaults : DefaultsOfEmpty poseidon empty) {reads : TreeReads}
    (hsiblings : ReadsFrom trees reads.openingAcc reads.siblingChunks)
    {rootTree : StoredTree poseidon empty}
    (hroot : ReadsFrom (fun _ => rootTree) reads.openingAcc reads.rootChunk) {leaves : List ℕ}
    (hleaves : ∀ i ∈ leaves, i < 2 ^ MERKLE_TREE_HEIGHT) :
    getOpenings poseidon reads (leaves.map (LocalIndex.mk MERKLE_TREE_HEIGHT))
      = .ok (leaves.map (opening (valueRead trees) MERKLE_TREE_HEIGHT), rootTree.value 0 0) := by
  have hunique : ∀ li, li ∈ (((leaves.map (LocalIndex.mk MERKLE_TREE_HEIGHT)).map
      getOpeningIndices).flatten.foldl (addToSet indexId) []) ↔
        ∃ i ∈ leaves, li ∈ getOpeningIndicesInner i MERKLE_TREE_HEIGHT := by
    intro li
    rw [mem_foldl_addToSet indexId_injective, List.mem_flatten]
    simp [getOpeningIndices]
  have hin : ∀ i ∈ leaves, ∀ li ∈ getOpeningIndicesInner i MERKLE_TREE_HEIGHT, li.InTree :=
    fun i hi => inTree_of_mem_getOpeningIndices (Nat.le_refl _) (hleaves i hi)
  have hnodup : (((leaves.map (LocalIndex.mk MERKLE_TREE_HEIGHT)).map
      getOpeningIndices).flatten.foldl (addToSet indexId) []).Nodup :=
    (nodup_foldl_addToSet [] List.nodup_nil).of_map
  rw [getOpenings, getCommitmentsAtLocalIndices_eq hsiblings (fun li hli => ?_) hnodup]
  · generalize (((leaves.map (LocalIndex.mk MERKLE_TREE_HEIGHT)).map
      getOpeningIndices).flatten.foldl (addToSet indexId) []) = unique at hunique hnodup
    have hopening : ∀ i ∈ leaves, (getOpeningIndicesInner i MERKLE_TREE_HEIGHT).mapM
        (siblingValue poseidon
          (unique.map fun li => (localIndexToString li, some (bytesRead trees li))))
          = .ok (opening (valueRead trees) MERKLE_TREE_HEIGHT i) := by
      intro i hi
      rw [← map_getOpeningIndicesInner]
      exact mapM_of_ok fun li hli =>
        siblingValue_eq hdefaults hnodup ((hunique li).mpr ⟨i, hi, hli⟩) (hin i hi li hli)
    have hopenings : ((leaves.map (LocalIndex.mk MERKLE_TREE_HEIGHT)).map getOpeningIndices).mapM
        (fun o => o.mapM (siblingValue poseidon
          (unique.map fun li => (localIndexToString li, some (bytesRead trees li)))))
          = .ok (leaves.map (opening (valueRead trees) MERKLE_TREE_HEIGHT)) := by
      rw [List.map_map, List.mapM_map]
      exact mapM_of_ok hopening
    have hparse := @StoredTree.parse_bytes _ _ rootTree hdefaults ⟨0, 0⟩ ⟨Nat.zero_le _, Nat.one_pos⟩
    refine bind_eq_ok.mpr ⟨_, rfl, bind_eq_ok.mpr ⟨_, hopenings, ?_⟩⟩
    exact bind_eq_ok.mpr ⟨_, getRoot_eq hroot, bind_eq_ok.mpr ⟨_, hparse, rfl⟩⟩
  · obtain ⟨i, hi, hli⟩ := (hunique li).mp hli
    exact hin i hi li hli

end Reads

/-! ## One tree -/

/-- **Every opening folds to the root.**  For any list of leaves of a stored tree, each opening has one
sibling for every level, and the value of the leaf folded with it is the root that is returned. -/
theorem getOpenings_fold {poseidon : PoseidonScalars} {empty : ℕ}
    (hdefaults : DefaultsOfEmpty poseidon empty) (tree : StoredTree poseidon empty)
    {reads : TreeReads} (hsiblings : ReadsFrom (fun _ => tree) reads.openingAcc reads.siblingChunks)
    (hroot : ReadsFrom (fun _ => tree) reads.openingAcc reads.rootChunk) {leaves : List ℕ}
    (hleaves : ∀ i ∈ leaves, i < 2 ^ MERKLE_TREE_HEIGHT) :
    ∃ openings root,
      getOpenings poseidon reads (leaves.map (LocalIndex.mk MERKLE_TREE_HEIGHT)) = .ok (openings, root) ∧
      root = tree.value 0 0 ∧
      List.Forall₂ (fun i siblings => siblings.length = MERKLE_TREE_HEIGHT ∧
        foldPath poseidon.poseidonHashBigInt i (tree.value MERKLE_TREE_HEIGHT i) siblings = root)
        leaves openings := by
  refine ⟨_, _, getOpenings_eq hdefaults hsiblings hroot hleaves, rfl, ?_⟩
  rw [List.forall₂_map_right_iff, List.forall₂_same]
  intro i hi
  exact ⟨length_opening _ _ _, tree.isHashTree.foldPath_opening (Nat.le_refl _) (hleaves i hi)⟩

/-! ## Storing a tree -/

/-- A tree stored with zeros for the default values and with `encode` for all others. -/
def StoredTree.ofValues {poseidon : PoseidonScalars} {empty : ℕ} {value : ℕ → ℕ → ℕ}
    (isHashTree : IsHashTree poseidon.poseidonHashBigInt MERKLE_TREE_HEIGHT value)
    (encode : ℕ → MontScalar) (length_encode : ∀ v, (encode v).length = 32)
    (hencode : ∀ li : LocalIndex, li.InTree → encode (value li.level li.index) ≠ zeros 32 ∧
      ofLeBytes (poseidon.montToRepr (encode (value li.level li.index))) = value li.level li.index) :
    StoredTree poseidon empty where
  value := value
  bytes place :=
    match IndexConverter.globalIndexToLocalIndex place with
    | .error _ => zeros 32
    | .ok li =>
        if value li.level li.index
            = emptySubtree poseidon.poseidonHashBigInt empty (MERKLE_TREE_HEIGHT - li.level)
        then zeros 32 else encode (value li.level li.index)
  isHashTree := isHashTree
  length_bytes place := by
    split
    · exact List.length_replicate
    · split_ifs
      · exact List.length_replicate
      · exact length_encode _
  unset li hin hzero := by
    rw [IndexConverter.globalIndexToLocalIndex_global hin] at hzero
    by_contra hne
    exact (hencode li hin).1 (by simpa only [if_neg hne] using hzero)
  set li hin hset := by
    rw [IndexConverter.globalIndexToLocalIndex_global hin] at hset ⊢
    have hne : value li.level li.index
        ≠ emptySubtree poseidon.poseidonHashBigInt empty (MERKLE_TREE_HEIGHT - li.level) :=
      fun heq => hset (if_pos heq)
    simp only [if_neg hne]
    exact (hencode li hin).2.symm

lemma StoredTree.bytes_ofValues {poseidon : PoseidonScalars} {empty : ℕ} {value : ℕ → ℕ → ℕ}
    (isHashTree : IsHashTree poseidon.poseidonHashBigInt MERKLE_TREE_HEIGHT value)
    (encode : ℕ → MontScalar) (length_encode : ∀ v, (encode v).length = 32)
    (hencode : ∀ li : LocalIndex, li.InTree → encode (value li.level li.index) ≠ zeros 32 ∧
      ofLeBytes (poseidon.montToRepr (encode (value li.level li.index))) = value li.level li.index)
    {li : LocalIndex} (hin : li.InTree) :
    (StoredTree.ofValues isHashTree encode length_encode hencode : StoredTree poseidon empty).bytes
        li.global
      = if value li.level li.index
          = emptySubtree poseidon.poseidonHashBigInt empty (MERKLE_TREE_HEIGHT - li.level)
        then zeros 32 else encode (value li.level li.index) := by
  show (match IndexConverter.globalIndexToLocalIndex li.global with
    | .error _ => zeros 32
    | .ok li => _) = _
  rw [IndexConverter.globalIndexToLocalIndex_global hin]

/-- A storage account with a key for every chunk, the index of the chunk in its first byte. -/
def plainStorage : StorageAccBorsh where
  pubkeys := ((List.range STORAGE_MT_CHUNK_COUNT).map fun a =>
    1 :: UInt8.ofNat a :: List.replicate 31 0).flatten
  length_eq := by decide +kernel

/-- Chunks that are all in use, by the first byte of the key. -/
def plainReader (chunks : ℕ → Bytes) : TreeChunkAccountReader :=
  fun key => .ok ⟨1, chunks (key.bytes.headD 0).toNat⟩

/-- The key of a chunk starts with the index of the chunk. -/
lemma firstByte_plainStorage : ∀ a < STORAGE_MT_CHUNK_COUNT,
    (getChunkKeyAtIndex plainStorage.pubkeys a).map
      (Option.map fun key => (key.bytes.headD 0).toNat) = .ok (some a) := by decide +kernel

lemma getChunkFromIndex_plainReader (chunks : ℕ → Bytes) {a : ℕ} (ha : a < STORAGE_MT_CHUNK_COUNT) :
    getChunkFromIndex a plainStorage (plainReader chunks) = .ok (chunks a) := by
  obtain ⟨key?, hkey, hfirst⟩ := map_eq_ok.mp (firstByte_plainStorage a ha)
  obtain ⟨key, rfl, hbyte⟩ := Option.map_eq_some_iff.mp hfirst
  rw [getChunkFromIndex, hkey]
  show (TreeChunkAccountReader.getTreeChunk (plainReader chunks) key >>= fun chunk =>
    pure chunk.commitment_data) = _
  rw [TreeChunkAccountReader.getTreeChunk, plainReader, hbyte]
  rfl

/-! ### Two leaves -/

/-- The default value of a level as a number. -/
def emptyValue (level : ℕ) : ℕ := ofLeBytes (defaultValues.getD level [])

/-- A hash of numbers for examples, with the hashes that the table of default values lists. -/
def plainHash (a b : ℕ) : ℕ :=
  match (List.range MERKLE_TREE_HEIGHT).find? fun level =>
      a = emptyValue (level + 1) ∧ b = emptyValue (level + 1) with
  | some level => emptyValue level
  | none => (3 * a + 5 * b) % 2 ^ 255 + 1

/-- Scalars with one form. -/
def plainScalars : PoseidonScalars := ⟨id, id, plainHash⟩

lemma emptyValue_range : ∀ level ≤ MERKLE_TREE_HEIGHT,
    0 < emptyValue level ∧ emptyValue level < 256 ^ 32 := by decide +kernel

lemma plainHash_emptyValue : ∀ level < MERKLE_TREE_HEIGHT,
    plainHash (emptyValue (level + 1)) (emptyValue (level + 1)) = emptyValue level := by decide +kernel

lemma emptySubtree_plainHash : ∀ height ≤ MERKLE_TREE_HEIGHT,
    emptySubtree plainHash (emptyValue MERKLE_TREE_HEIGHT) height
      = emptyValue (MERKLE_TREE_HEIGHT - height)
  | 0, _ => rfl
  | height + 1, h => by
      have hsub : MERKLE_TREE_HEIGHT - height = MERKLE_TREE_HEIGHT - (height + 1) + 1 := by omega
      rw [emptySubtree, emptySubtree_plainHash height (Nat.le_of_succ_le h), hsub,
        plainHash_emptyValue _ (by omega)]

lemma defaultsOfEmpty_plain : DefaultsOfEmpty plainScalars (emptyValue MERKLE_TREE_HEIGHT) := by
  intro level hlevel
  have hsome : level < defaultValues.length := Nat.lt_succ_of_le hlevel
  have hsub : MERKLE_TREE_HEIGHT - (MERKLE_TREE_HEIGHT - level) = level := by omega
  show _ = Except.ok (emptySubtree plainHash (emptyValue MERKLE_TREE_HEIGHT) _)
  rw [emptySubtree_plainHash _ (Nat.sub_le _ _), hsub, getDefault, List.getElem?_eq_getElem hsome,
    emptyValue, List.getD_eq_getElem?_getD, List.getElem?_eq_getElem hsome]
  rfl

lemma plainHash_range (a b : ℕ) : 0 < plainHash a b ∧ plainHash a b < 256 ^ 32 := by
  rw [plainHash]
  split
  · next level hfind =>
      have hlt := List.mem_range.mp (List.mem_of_find?_eq_some hfind)
      exact emptyValue_range level (Nat.le_of_lt hlt)
  · have hlt : (3 * a + 5 * b) % 2 ^ 255 < 2 ^ 255 := Nat.mod_lt _ (by decide)
    refine ⟨Nat.succ_pos _, Nat.lt_of_le_of_lt hlt ?_⟩
    decide

/-- Values that can be stored in 32 bytes, and not as zeros. -/
lemma leBytes_encodes {v : ℕ} (h : 0 < v ∧ v < 256 ^ 32) :
    leBytes 32 v ≠ zeros 32 ∧ ofLeBytes (leBytes 32 v) = v := by
  have hv := ofLeBytes_leBytes h.2
  refine ⟨fun hzero => ?_, hv⟩
  rw [hzero] at hv
  have hz : ofLeBytes (zeros 32) = 0 := by decide
  omega

lemma node_plainHash_range {leaf : ℕ → ℕ} (hleaf : ∀ i, 0 < leaf i ∧ leaf i < 256 ^ 32) :
    ∀ height i : ℕ, 0 < node plainHash leaf height i ∧ node plainHash leaf height i < 256 ^ 32
  | 0, i => hleaf i
  | _ + 1, _ => plainHash_range _ _

/-- The tree over leaves, stored. -/
def plainTree (leaf : ℕ → ℕ) (hleaf : ∀ i, 0 < leaf i ∧ leaf i < 256 ^ 32) :
    StoredTree plainScalars (emptyValue MERKLE_TREE_HEIGHT) :=
  .ofValues (isHashTree_treeOf MERKLE_TREE_HEIGHT leaf) (leBytes 32) (length_leBytes 32)
    fun li _ => leBytes_encodes (node_plainHash_range hleaf _ li.index)

/-- The chunks of a tree, as a node answers with them. -/
def StoredTree.reader {poseidon : PoseidonScalars} {empty : ℕ} (tree : StoredTree poseidon empty) :
    TreeChunkAccountReader := plainReader fun a => (tree.chunk a).flatten

lemma StoredTree.readsFrom_reader {poseidon : PoseidonScalars} {empty : ℕ}
    (tree : StoredTree poseidon empty) : ReadsFrom (fun _ => tree) plainStorage tree.reader :=
  fun _ ha => getChunkFromIndex_plainReader _ ha

/-- The leaves 7 and 9, and no others. -/
def twoLeaves (i : ℕ) : ℕ :=
  if i = 0 then 7 else if i = 1 then 9 else emptyValue MERKLE_TREE_HEIGHT

lemma twoLeaves_range (i : ℕ) : 0 < twoLeaves i ∧ twoLeaves i < 256 ^ 32 := by
  rw [twoLeaves]
  split_ifs
  · decide
  · decide
  · exact emptyValue_range _ (Nat.le_refl _)

/-- All chunks read from the tree with the two leaves. -/
def twoLeavesReads : TreeReads :=
  let reader := (plainTree twoLeaves twoLeaves_range).reader
  ⟨plainStorage, fun _ => reader, plainStorage, reader, reader⟩

/-- The openings of both leaves and of one that is not set, asked for at once. -/
theorem getOpenings_fold_twoLeaves :
    ∃ openings root,
      getOpenings plainScalars twoLeavesReads ([0, 1, 500000].map (LocalIndex.mk MERKLE_TREE_HEIGHT))
        = .ok (openings, root) ∧
      List.Forall₂ (fun leaf siblings => siblings.length = MERKLE_TREE_HEIGHT ∧
        foldPath plainHash leaf.1 leaf.2 siblings = root)
        [(0, 7), (1, 9), (500000, emptyValue MERKLE_TREE_HEIGHT)] openings := by
  have hreads := (plainTree twoLeaves twoLeaves_range).readsFrom_reader
  obtain ⟨openings, root, hrun, -, hfold⟩ := @getOpenings_fold plainScalars _
    defaultsOfEmpty_plain (plainTree twoLeaves twoLeaves_range) twoLeavesReads hreads hreads _
    (show ∀ i ∈ [0, 1, 500000], i < 2 ^ MERKLE_TREE_HEIGHT by decide)
  refine ⟨openings, root, hrun, ?_⟩
  show List.Forall₂ _ ([0, 1, 500000].map fun i => (i, twoLeaves i)) openings
  exact List.forall₂_map_left_iff.mpr hfold

end ElusivSdk
