import ElusivSdk.Types
import Mathlib.Data.Nat.Log
import Mathlib.Tactic.Ring

/-!
# Indices of the tree

The values of the on-chain tree stand level by level in one sequence that is cut into accounts.  A
`LocalIndex` names a value by its level and its place there, an `AccIndex` by its account and its place
there, a global index by its place in the sequence.

* `LocalIndex.global_lt`, `LocalIndex.accIndex` — the places of the nodes of the tree.
* `globalIndexToLocalIndex_global` — the place of a node names the node.
* **`localIndexToString_injective`** — the text of an index names it.
-/

namespace ElusivSdk

def STORAGE_MT_VALUES_PER_ACCOUNT : ℕ := 83887
def STORAGE_MT_CHUNK_COUNT : ℕ := 25

def INDEX_OUT_OF_BOUNDS : String := "Index out of bounds"

structure LocalIndex where
  level : ℕ
  index : ℕ
deriving DecidableEq, Repr

structure AccIndex where
  indexOfAccount : ℕ
  indexInAccount : ℕ
deriving DecidableEq, Repr

def getNodeCountMT (height : ℕ) : ℕ := 2 ^ (height + 1) - 1
def getNodeCountLevel (level : ℕ) : ℕ := 2 ^ level

namespace IndexConverter

def localIndexToGlobalIndex (index : LocalIndex) : Except Failure ℕ :=
  if index.level > MERKLE_TREE_HEIGHT then .error (.error INDEX_OUT_OF_BOUNDS)
  else if index.index ≥ getNodeCountLevel index.level then .error (.error INDEX_OUT_OF_BOUNDS)
  else .ok (2 ^ index.level - 1 + index.index)

def globalIndextoAccIndex (index : ℕ) (valuesPerAccount : ℕ := STORAGE_MT_VALUES_PER_ACCOUNT)
    (accountCount : ℕ := STORAGE_MT_CHUNK_COUNT) : Except Failure AccIndex :=
  if index ≥ getNodeCountMT MERKLE_TREE_HEIGHT then .error (.error INDEX_OUT_OF_BOUNDS)
  else if index / valuesPerAccount ≥ accountCount then .error (.error INDEX_OUT_OF_BOUNDS)
  else .ok ⟨index / valuesPerAccount, index % valuesPerAccount⟩

/-- `Math.floor(Math.log2(globalIndex + 1))`. -/
def getLevelFromIndex (globalIndex : ℕ) : ℕ := Nat.log 2 (globalIndex + 1)

def globalIndexToLocalIndex (globalIndex : ℕ) : Except Failure LocalIndex :=
  if globalIndex ≥ getNodeCountMT MERKLE_TREE_HEIGHT then .error (.error INDEX_OUT_OF_BOUNDS)
  else
    let level := getLevelFromIndex globalIndex
    .ok ⟨level, globalIndex - (2 ^ level - 1)⟩

def accIndexToGlobalIndex (accIndex : AccIndex)
    (valuesPerAccount : ℕ := STORAGE_MT_VALUES_PER_ACCOUNT)
    (accountCount : ℕ := STORAGE_MT_CHUNK_COUNT) : Except Failure ℕ :=
  if accIndex.indexOfAccount ≥ accountCount then .error (.error INDEX_OUT_OF_BOUNDS)
  else .ok (accIndex.indexOfAccount * valuesPerAccount + accIndex.indexInAccount)

def localIndexToAccIndex (index : LocalIndex) : Except Failure AccIndex := do
  let globalI ← localIndexToGlobalIndex index
  globalIndextoAccIndex globalI

def leafIndexToLocalIndex (leafIndex : ℕ) : Except Failure LocalIndex :=
  if leafIndex ≥ getNodeCountLevel MERKLE_TREE_HEIGHT then .error (.error INDEX_OUT_OF_BOUNDS)
  else .ok ⟨MERKLE_TREE_HEIGHT, leafIndex⟩

end IndexConverter

def localIndexToString (li : LocalIndex) : String := toString li.index ++ "," ++ toString li.level

/-- The place of the value in the whole sequence. -/
def AccIndex.global (index : AccIndex) : ℕ :=
  index.indexOfAccount * STORAGE_MT_VALUES_PER_ACCOUNT + index.indexInAccount

lemma IndexConverter.accIndexToGlobalIndex_eq {index : AccIndex}
    (h : index.indexOfAccount < STORAGE_MT_CHUNK_COUNT) :
    accIndexToGlobalIndex index = .ok index.global := if_neg (Nat.not_le_of_lt h)

/-- Values in the order of the sequence lie in accounts in this order. -/
lemma AccIndex.indexOfAccount_le {index index' : AccIndex} (hle : index.global ≤ index'.global)
    (h : index'.indexInAccount < STORAGE_MT_VALUES_PER_ACCOUNT) :
    index.indexOfAccount ≤ index'.indexOfAccount := by
  have hle : index.indexOfAccount * 83887 + index.indexInAccount
    ≤ index'.indexOfAccount * 83887 + index'.indexInAccount := hle
  have h : index'.indexInAccount < 83887 := h
  omega

lemma AccIndex.global_le_of_lt {index : AccIndex} {a i : ℕ} (hlt : a < index.indexOfAccount)
    (hi : i < STORAGE_MT_VALUES_PER_ACCOUNT) : AccIndex.global ⟨a, i⟩ ≤ index.global := by
  show a * 83887 + i ≤ index.indexOfAccount * 83887 + index.indexInAccount
  have hi : i < 83887 := hi
  omega

/-! ## Nodes of the tree -/

namespace LocalIndex

/-- A node of the tree. -/
structure InTree (li : LocalIndex) : Prop where
  level_le : li.level ≤ MERKLE_TREE_HEIGHT
  index_lt : li.index < 2 ^ li.level

/-- The place of a node in the whole sequence. -/
def global (li : LocalIndex) : ℕ := 2 ^ li.level - 1 + li.index

def accIndex (li : LocalIndex) : AccIndex :=
  ⟨li.global / STORAGE_MT_VALUES_PER_ACCOUNT, li.global % STORAGE_MT_VALUES_PER_ACCOUNT⟩

variable {li : LocalIndex}

lemma InTree.global_lt (h : li.InTree) : li.global < getNodeCountMT MERKLE_TREE_HEIGHT := by
  have hpos : 0 < 2 ^ li.level := Nat.two_pow_pos _
  have hle : 2 ^ (li.level + 1) ≤ 2 ^ (MERKLE_TREE_HEIGHT + 1) :=
    Nat.pow_le_pow_right Nat.two_pos (Nat.succ_le_succ h.level_le)
  have hlt := h.index_lt
  rw [pow_succ] at hle
  rw [global, getNodeCountMT]
  omega

lemma InTree.indexOfAccount_lt (h : li.InTree) : li.accIndex.indexOfAccount < STORAGE_MT_CHUNK_COUNT := by
  have hlt : li.global < 2097151 := h.global_lt
  show li.global / 83887 < 25
  omega

lemma accIndex_global (li : LocalIndex) : li.accIndex.global = li.global := by
  show li.global / 83887 * 83887 + li.global % 83887 = li.global
  omega

lemma InTree.localIndexToAccIndex_eq (h : li.InTree) :
    IndexConverter.localIndexToAccIndex li = .ok li.accIndex := by
  have hglobal : IndexConverter.localIndexToGlobalIndex li = .ok li.global := by
    have hindex : ¬ li.index ≥ getNodeCountLevel li.level := Nat.not_le_of_lt h.index_lt
    rw [IndexConverter.localIndexToGlobalIndex, if_neg (Nat.not_lt.mpr h.level_le), if_neg hindex,
      global]
  rw [IndexConverter.localIndexToAccIndex, hglobal]
  show IndexConverter.globalIndextoAccIndex li.global = _
  have haccount : ¬ li.global / STORAGE_MT_VALUES_PER_ACCOUNT ≥ STORAGE_MT_CHUNK_COUNT :=
    Nat.not_le_of_lt h.indexOfAccount_lt
  rw [IndexConverter.globalIndextoAccIndex, if_neg (Nat.not_le_of_lt h.global_lt), if_neg haccount,
    accIndex]

end LocalIndex

namespace IndexConverter

/-- **The place of a node names the node.** -/
lemma globalIndexToLocalIndex_global {li : LocalIndex} (h : li.InTree) :
    globalIndexToLocalIndex li.global = .ok li := by
  have hlevel : getLevelFromIndex li.global = li.level := by
    have hpos : 0 < 2 ^ li.level := Nat.two_pow_pos _
    have hlt := h.index_lt
    refine Nat.log_eq_of_pow_le_of_lt_pow ?_ ?_
    · rw [LocalIndex.global]
      omega
    · rw [pow_succ, LocalIndex.global]
      omega
  rw [globalIndexToLocalIndex, if_neg (Nat.not_le_of_lt h.global_lt), hlevel]
  refine congrArg Except.ok ?_
  rw [LocalIndex.global, Nat.add_sub_cancel_left]

end IndexConverter

/-! ## Indices as text -/

lemma takeWhile_digits (n : ℕ) {separator : Char} (hsep : separator.isDigit = false)
    (text : List Char) :
    (Nat.toDigits 10 n ++ separator :: text).takeWhile Char.isDigit = Nat.toDigits 10 n := by
  have hdigit : ∀ c ∈ Nat.toDigits 10 n, c.isDigit = true :=
    fun c hc => Nat.isDigit_of_mem_toDigits (by decide) (by decide) hc
  rw [List.takeWhile_append_of_pos hdigit, List.takeWhile_cons_of_neg (by rw [hsep]; decide),
    List.append_nil]

lemma toDigits_injective : Function.Injective (Nat.toDigits 10) := by
  intro a b h
  rw [← Nat.ofDigitChars_ten_toDigits (n := a), h, Nat.ofDigitChars_ten_toDigits]

/-- Two numbers can be read off their decimal digits with a separator between. -/
lemma digits_separator_inj {a b a' b' : ℕ} (separator : Char) (hsep : separator.isDigit = false)
    (h : Nat.toDigits 10 a ++ separator :: Nat.toDigits 10 b
      = Nat.toDigits 10 a' ++ separator :: Nat.toDigits 10 b') : a = a' ∧ b = b' := by
  have ha : Nat.toDigits 10 a = Nat.toDigits 10 a' := by
    rw [← takeWhile_digits a hsep, h, takeWhile_digits a' hsep]
  rw [ha] at h
  exact ⟨toDigits_injective ha, toDigits_injective (List.cons.inj (List.append_cancel_left h)).2⟩

/-- The text of two numbers with a separator between. -/
lemma toList_separated (a b : ℕ) (separator : String) :
    (toString a ++ separator ++ toString b).toList
      = Nat.toDigits 10 a ++ (separator.toList ++ Nat.toDigits 10 b) := by
  have hchars : ∀ n : ℕ, (toString n).toList = Nat.toDigits 10 n := fun n => Nat.toList_repr
  rw [String.toList_append, String.toList_append, hchars, hchars, List.append_assoc]

/-- **The text of an index names it.** -/
lemma localIndexToString_injective : Function.Injective localIndexToString := by
  rintro ⟨level, index⟩ ⟨level', index'⟩ h
  have h := congrArg String.toList h
  rw [localIndexToString, localIndexToString, toList_separated, toList_separated] at h
  obtain ⟨rfl, rfl⟩ := digits_separator_inj ',' (by decide) h
  rfl

end ElusivSdk
