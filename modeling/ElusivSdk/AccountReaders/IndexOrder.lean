import ElusivSdk.AccountReaders.StorageAccountReader
import ElusivSdk.Library.Program
import Mathlib.Data.Prod.Lex

/-!
# The order of the indices

The nodes of the tree are numbered level by level, and the numbers are cut into accounts of some size.  Both
numberings keep the order: that of levels and places in them, and that of accounts and places in them.

* `lt_iff_toLex_divMod` — numbers are ordered as their quotients and remainders are.
* `IndexConverter.globalIndexToLocalIndex_eq`, `IndexConverter.globalIndextoAccIndex_eq` — what the
  conversions give.
* **`IndexConverter.conversions_orderIso`** — the conversions undo each other and keep the order, for every
  size and count of accounts that have room for the tree, and a start leaf lies before every leaf that is
  not before it.
-/

namespace ElusivSdk

/-! ## Positions -/

/-- Numbers in the order of their quotients, and of the remainders for equal quotients. -/
lemma lt_iff_toLex_divMod {v g g' : ℕ} :
    g < g' ↔ toLex (g / v, g % v) < toLex (g' / v, g' % v) := by
  rw [Prod.Lex.toLex_lt_toLex]
  have hg := Nat.div_add_mod g v
  have hg' := Nat.div_add_mod g' v
  constructor
  · intro hlt
    rcases Nat.lt_or_eq_of_le (Nat.div_le_div_right (c := v) hlt.le) with hquot | hquot
    · exact .inl hquot
    · refine .inr ⟨hquot, ?_⟩
      rw [hquot] at hg
      show g % v < g' % v
      omega
  · rintro (hquot | ⟨hquot, hrem⟩)
    · exact Nat.lt_of_not_le fun hle => absurd (Nat.div_le_div_right hle) (Nat.not_le_of_lt hquot)
    · have hquot : g / v = g' / v := hquot
      have hrem : g % v < g' % v := hrem
      rw [hquot] at hg
      omega

/-- The account, and the place in it. -/
def AccIndex.position (index : AccIndex) : ℕ ×ₗ ℕ := toLex (index.indexOfAccount, index.indexInAccount)

/-- The level, and the place in it. -/
def LocalIndex.position (li : LocalIndex) : ℕ ×ₗ ℕ := toLex (li.level, li.index)

lemma LocalIndex.InTree.global_lt_of_position_lt {li li' : LocalIndex} (h : li.InTree)
    (hlt : li.position < li'.position) : li.global < li'.global := by
  have hindex := h.index_lt
  have hpos := Nat.two_pow_pos li.level
  rw [LocalIndex.global, LocalIndex.global]
  rcases Prod.Lex.toLex_lt_toLex.mp hlt with hlevel | ⟨hlevel, hplace⟩
  · -- the levels before take less than all of them together
    have hpow : 2 ^ (li.level + 1) ≤ 2 ^ li'.level := Nat.pow_le_pow_right Nat.two_pos hlevel
    rw [pow_succ] at hpow
    omega
  · have hlevel : li.level = li'.level := hlevel
    have hplace : li.index < li'.index := hplace
    rw [hlevel]
    omega

/-- **Nodes are numbered in the order of their positions.** -/
lemma LocalIndex.InTree.global_lt_iff {li li' : LocalIndex} (h : li.InTree) (h' : li'.InTree) :
    li.global < li'.global ↔ li.position < li'.position := by
  refine ⟨fun hlt => ?_, h.global_lt_of_position_lt⟩
  rcases lt_trichotomy li.position li'.position with hpos | hpos | hpos
  · exact hpos
  · obtain ⟨hlevel, hindex⟩ := Prod.mk.inj (toLex.injective hpos)
    rw [LocalIndex.global, LocalIndex.global, hlevel, hindex] at hlt
    exact absurd hlt (lt_irrefl _)
  · exact absurd (h'.global_lt_of_position_lt hpos) (not_lt.mpr hlt.le)

/-! ## The conversions -/

namespace IndexConverter

lemma localIndexToGlobalIndex_eq_ok_iff {li : LocalIndex} {g : ℕ} :
    localIndexToGlobalIndex li = .ok g ↔ li.InTree ∧ g = li.global := by
  rw [localIndexToGlobalIndex]
  split_ifs with hlevel hindex
  · exact iff_of_false (fun h => by cases h) fun h => absurd h.1.level_le (not_le.mpr hlevel)
  · exact iff_of_false (fun h => by cases h) fun h => absurd h.1.index_lt (not_lt.mpr hindex)
  · rw [Except.ok.injEq, eq_comm]
    exact (and_iff_right ⟨not_lt.mp hlevel, not_le.mp hindex⟩).symm

/-- Every number below the count of nodes is that of a node. -/
lemma globalIndexToLocalIndex_eq {g : ℕ} (hg : g < getNodeCountMT MERKLE_TREE_HEIGHT) :
    ∃ li : LocalIndex, li.InTree ∧ li.global = g ∧ globalIndexToLocalIndex g = .ok li := by
  have hlow : 2 ^ getLevelFromIndex g ≤ g + 1 := Nat.pow_log_le_self 2 (Nat.succ_ne_zero g)
  have hhigh : g + 1 < 2 ^ (getLevelFromIndex g + 1) := Nat.lt_pow_succ_log_self (by decide) _
  have hlevel : getLevelFromIndex g < MERKLE_TREE_HEIGHT + 1 := by
    refine Nat.log_lt_of_lt_pow (Nat.succ_ne_zero g) ?_
    rw [getNodeCountMT] at hg
    omega
  rw [pow_succ] at hhigh
  refine ⟨⟨getLevelFromIndex g, g - (2 ^ getLevelFromIndex g - 1)⟩,
    ⟨Nat.le_of_lt_succ hlevel, ?_⟩, ?_, if_neg (not_le.mpr hg)⟩
  · show g - (2 ^ getLevelFromIndex g - 1) < 2 ^ getLevelFromIndex g
    omega
  · show 2 ^ getLevelFromIndex g - 1 + (g - (2 ^ getLevelFromIndex g - 1)) = g
    omega

variable {v a : ℕ}

/-- Accounts with room for the tree have a place for every node. -/
lemma globalIndextoAccIndex_eq (hroom : getNodeCountMT MERKLE_TREE_HEIGHT ≤ v * a) {g : ℕ}
    (hg : g < getNodeCountMT MERKLE_TREE_HEIGHT) :
    globalIndextoAccIndex g v a = .ok ⟨g / v, g % v⟩ ∧ g / v < a := by
  have haccount : g / v < a := Nat.div_lt_of_lt_mul (lt_of_lt_of_le hg hroom)
  refine ⟨?_, haccount⟩
  rw [globalIndextoAccIndex, if_neg (not_le.mpr hg), if_neg (not_le.mpr haccount)]

/-- The conversion only succeeds with the position. -/
lemma eq_of_globalIndextoAccIndex {g : ℕ} {acc : AccIndex} (h : globalIndextoAccIndex g v a = .ok acc) :
    acc = ⟨g / v, g % v⟩ := by
  rw [globalIndextoAccIndex] at h
  split_ifs at h
  exact (Except.ok.inj h).symm

/-- From a leaf to its account, over the node and its number. -/
def leafIndexToAccIndex (leafIndex v a : ℕ) : Except Failure AccIndex := do
  let li ← leafIndexToLocalIndex leafIndex
  let g ← localIndexToGlobalIndex li
  globalIndextoAccIndex g v a

lemma leaf_inTree {leaf : ℕ} (h : leaf < getNodeCountLevel MERKLE_TREE_HEIGHT) :
    LocalIndex.InTree ⟨MERKLE_TREE_HEIGHT, leaf⟩ := ⟨le_rfl, h⟩

lemma leafIndexToAccIndex_eq (hroom : getNodeCountMT MERKLE_TREE_HEIGHT ≤ v * a) {leaf : ℕ}
    (h : leaf < getNodeCountLevel MERKLE_TREE_HEIGHT) :
    leafIndexToAccIndex leaf v a = .ok ⟨LocalIndex.global ⟨MERKLE_TREE_HEIGHT, leaf⟩ / v,
      LocalIndex.global ⟨MERKLE_TREE_HEIGHT, leaf⟩ % v⟩ := by
  have hleaf : leafIndexToLocalIndex leaf = .ok ⟨MERKLE_TREE_HEIGHT, leaf⟩ := if_neg (not_le.mpr h)
  rw [leafIndexToAccIndex, Program.bind_of_ok hleaf,
    Program.bind_of_ok (localIndexToGlobalIndex_eq_ok_iff.mpr ⟨leaf_inTree h, rfl⟩),
    (globalIndextoAccIndex_eq hroom (leaf_inTree h).global_lt).1]

/-- A leaf that is not before a start is not before it in its account either. -/
lemma startInChunk_le {start leaf : ℕ} (hle : start ≤ leaf)
    (hleaf : leaf < getNodeCountLevel MERKLE_TREE_HEIGHT) : ∃ startAcc leafAcc,
      (leafIndexToLocalIndex start >>= localIndexToAccIndex) = .ok startAcc ∧
      (leafIndexToLocalIndex leaf >>= localIndexToAccIndex) = .ok leafAcc ∧
      startAcc.indexOfAccount ≤ leafAcc.indexOfAccount ∧
      ∀ comm, StorageAccountReader.startInChunk leafAcc.indexOfAccount (comm, startAcc)
        ≤ leafAcc.indexInAccount := by
  have hstart := lt_of_le_of_lt hle hleaf
  have hstartOk : leafIndexToLocalIndex start = .ok ⟨MERKLE_TREE_HEIGHT, start⟩ :=
    if_neg (not_le.mpr hstart)
  have hleafOk : leafIndexToLocalIndex leaf = .ok ⟨MERKLE_TREE_HEIGHT, leaf⟩ := if_neg (not_le.mpr hleaf)
  have hglobal : LocalIndex.global ⟨MERKLE_TREE_HEIGHT, start⟩
      ≤ LocalIndex.global ⟨MERKLE_TREE_HEIGHT, leaf⟩ := Nat.add_le_add_left hle _
  refine ⟨_, _, (Program.bind_of_ok hstartOk _).trans (leaf_inTree hstart).localIndexToAccIndex_eq,
    (Program.bind_of_ok hleafOk _).trans (leaf_inTree hleaf).localIndexToAccIndex_eq,
    Nat.div_le_div_right hglobal, fun comm => ?_⟩
  rw [StorageAccountReader.startInChunk]
  split_ifs with haccount
  · by_contra hlt
    have hlt := not_le.mp hlt
    exact absurd (lt_iff_toLex_divMod.mpr (Prod.Lex.toLex_lt_toLex.mpr (.inr ⟨haccount.symm, hlt⟩)))
      (not_lt.mpr hglobal)
  · exact Nat.zero_le _

/-- **The conversions are bijections that keep the order**: between nodes and their numbers; between
numbers and accounts, for every size and count of accounts with room for the tree; leaves are ordered as
their places in accounts are; and the search in a chunk starts at or before a leaf that is not before the
start leaf. -/
theorem conversions_orderIso :
    (∀ li : LocalIndex, li.level ≤ MERKLE_TREE_HEIGHT → li.index < 2 ^ li.level →
      ∃ g, localIndexToGlobalIndex li = .ok g ∧ g < getNodeCountMT MERKLE_TREE_HEIGHT ∧
        globalIndexToLocalIndex g = .ok li) ∧
    (∀ g < getNodeCountMT MERKLE_TREE_HEIGHT, ∃ li, globalIndexToLocalIndex g = .ok li ∧
      li.level ≤ MERKLE_TREE_HEIGHT ∧ li.index < 2 ^ li.level ∧ localIndexToGlobalIndex li = .ok g) ∧
    (∀ (li li' : LocalIndex) (g g' : ℕ), localIndexToGlobalIndex li = .ok g →
      localIndexToGlobalIndex li' = .ok g' → (g < g' ↔ li.position < li'.position)) ∧
    (∀ v a : ℕ, 0 < v → getNodeCountMT MERKLE_TREE_HEIGHT ≤ v * a →
      (∀ g < getNodeCountMT MERKLE_TREE_HEIGHT, ∃ acc, globalIndextoAccIndex g v a = .ok acc ∧
        acc.indexInAccount < v ∧ accIndexToGlobalIndex acc v a = .ok g) ∧
      (∀ (g g' : ℕ) (acc acc' : AccIndex), globalIndextoAccIndex g v a = .ok acc →
        globalIndextoAccIndex g' v a = .ok acc' → (g < g' ↔ acc.position < acc'.position)) ∧
      ∀ leaf < getNodeCountLevel MERKLE_TREE_HEIGHT, ∀ leaf' < getNodeCountLevel MERKLE_TREE_HEIGHT,
        ∃ acc acc', leafIndexToAccIndex leaf v a = .ok acc ∧ leafIndexToAccIndex leaf' v a = .ok acc' ∧
          (leaf < leaf' ↔ acc.position < acc'.position)) ∧
    ∀ start leaf : ℕ, start ≤ leaf → leaf < getNodeCountLevel MERKLE_TREE_HEIGHT → ∃ startAcc leafAcc,
      (leafIndexToLocalIndex start >>= localIndexToAccIndex) = .ok startAcc ∧
      (leafIndexToLocalIndex leaf >>= localIndexToAccIndex) = .ok leafAcc ∧
      startAcc.indexOfAccount ≤ leafAcc.indexOfAccount ∧
      ∀ comm, StorageAccountReader.startInChunk leafAcc.indexOfAccount (comm, startAcc)
        ≤ leafAcc.indexInAccount := by
  refine ⟨?_, ?_, ?_, ?_, fun start leaf => startInChunk_le⟩
  · intro li hlevel hindex
    have hli : li.InTree := ⟨hlevel, hindex⟩
    exact ⟨li.global, localIndexToGlobalIndex_eq_ok_iff.mpr ⟨hli, rfl⟩, hli.global_lt,
      globalIndexToLocalIndex_global hli⟩
  · intro g hg
    obtain ⟨li, hli, hglobal, hok⟩ := globalIndexToLocalIndex_eq hg
    exact ⟨li, hok, hli.level_le, hli.index_lt,
      localIndexToGlobalIndex_eq_ok_iff.mpr ⟨hli, hglobal.symm⟩⟩
  · intro li li' g g' h h'
    obtain ⟨hli, rfl⟩ := localIndexToGlobalIndex_eq_ok_iff.mp h
    obtain ⟨hli', rfl⟩ := localIndexToGlobalIndex_eq_ok_iff.mp h'
    exact hli.global_lt_iff hli'
  · intro v a hv hroom
    refine ⟨?_, ?_, ?_⟩
    · intro g hg
      obtain ⟨hok, haccount⟩ := globalIndextoAccIndex_eq hroom hg
      refine ⟨_, hok, Nat.mod_lt g hv, ?_⟩
      rw [accIndexToGlobalIndex, if_neg (not_le.mpr haccount), Nat.div_add_mod']
    · intro g g' acc acc' h h'
      obtain rfl := eq_of_globalIndextoAccIndex h
      obtain rfl := eq_of_globalIndextoAccIndex h'
      exact lt_iff_toLex_divMod
    · intro leaf hleaf leaf' hleaf'
      refine ⟨_, _, leafIndexToAccIndex_eq hroom hleaf, leafIndexToAccIndex_eq hroom hleaf', ?_⟩
      exact Iff.trans (Nat.add_lt_add_iff_left).symm lt_iff_toLex_divMod

/-- Accounts of a size that divides no level. -/
theorem conversions_orderIso_small : ∃ acc, globalIndextoAccIndex 100 7 300000 = .ok acc ∧
    acc.indexInAccount < 7 ∧ accIndexToGlobalIndex acc 7 300000 = .ok 100 :=
  (conversions_orderIso.2.2.2.1 7 300000 (by decide) (by decide)).1 100 (by decide)

end IndexConverter

end ElusivSdk
