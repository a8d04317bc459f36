import Mathlib.Data.List.Basic
import Mathlib.Data.Nat.Log
import Mathlib.Tactic.Ring

/-!
# Hash trees

A complete binary tree with a value at every node, level 0 being the root.  Every value above the
leaves is the hash of the two below it (`IsHashTree`).

* `opening` — the siblings on the way from a node to the root; `foldPath` hashes a value with them.
* **`IsHashTree.foldPath_opening`** — folding the value of a node with its opening gives the root.
* `foldPath_inj` — without collisions two openings that fold to the same value are equal.
* `treeOf` — the tree over given leaves; `treeOf_empty`: a subtree of empty leaves has the hash
  `emptySubtree` of its height.
-/

namespace HashTree

variable {α : Type*}

/-- The other child of the same parent. -/
def sibling (i : ℕ) : ℕ := if i % 2 = 0 then i + 1 else i - 1

/-- The siblings from the node `i` of a level up to the root. -/
def opening (value : ℕ → ℕ → α) : ℕ → ℕ → List α
  | 0, _ => []
  | level + 1, i => value (level + 1) (sibling i) :: opening value level (i / 2)

@[simp]
lemma length_opening (value : ℕ → ℕ → α) : ∀ level i : ℕ, (opening value level i).length = level
  | 0, _ => rfl
  | level + 1, i => by rw [opening, List.length_cons, length_opening value level (i / 2)]

lemma sibling_lt {level i : ℕ} (h : i < 2 ^ (level + 1)) : sibling i < 2 ^ (level + 1) := by
  rw [pow_succ] at h ⊢
  rw [sibling]
  split_ifs <;> omega

lemma half_lt {level i : ℕ} (h : i < 2 ^ (level + 1)) : i / 2 < 2 ^ level := by
  rw [pow_succ] at h
  omega

variable (hash : α → α → α)

/-- The value hashed with one sibling after the other, on the left or on the right by the parity of the
index. -/
def foldPath : ℕ → α → List α → α
  | _, value, [] => value
  | i, value, s :: siblings =>
      foldPath (i / 2) (if i % 2 = 0 then hash value s else hash s value) siblings

/-- Every value of a level above the leaves is the hash of the two values below it. -/
def IsHashTree (depth : ℕ) (value : ℕ → ℕ → α) : Prop :=
  ∀ level < depth, ∀ i < 2 ^ level,
    value level i = hash (value (level + 1) (2 * i)) (value (level + 1) (2 * i + 1))

variable {hash}

/-- A node and its sibling are hashed to the value of their parent. -/
lemma IsHashTree.parent {depth : ℕ} {value : ℕ → ℕ → α} (h : IsHashTree hash depth value)
    {level i : ℕ} (hlevel : level < depth) (hi : i < 2 ^ (level + 1)) :
    (if i % 2 = 0 then hash (value (level + 1) i) (value (level + 1) (sibling i))
      else hash (value (level + 1) (sibling i)) (value (level + 1) i)) = value level (i / 2) := by
  rw [h level hlevel (i / 2) (half_lt hi), sibling]
  split_ifs with heven
  · have h0 : 2 * (i / 2) = i := by omega
    rw [h0]
  · have h0 : 2 * (i / 2) = i - 1 := by omega
    have h1 : i - 1 + 1 = i := by omega
    rw [h0, h1]

/-- **Folding the value of a node with its opening gives the root.** -/
theorem IsHashTree.foldPath_opening {depth : ℕ} {value : ℕ → ℕ → α}
    (h : IsHashTree hash depth value) :
    ∀ {level i : ℕ}, level ≤ depth → i < 2 ^ level →
      foldPath hash i (value level i) (opening value level i) = value 0 0
  | 0, i, _, hi => by
      rw [pow_zero, Nat.lt_one_iff] at hi
      rw [hi]
      rfl
  | level + 1, i, hlevel, hi => by
      rw [opening, foldPath, h.parent hlevel hi]
      exact h.foldPath_opening (Nat.le_of_succ_le hlevel) (half_lt hi)

variable (hash)

/-- The pairs that are hashed on the way. -/
def hashedPairs : ℕ → α → List α → List (α × α)
  | _, _, [] => []
  | i, value, s :: siblings =>
      let pair := if i % 2 = 0 then (value, s) else (s, value)
      pair :: hashedPairs (i / 2) (hash pair.1 pair.2) siblings

variable {hash}

lemma foldPath_cons (i : ℕ) (v s : α) (siblings : List α) :
    foldPath hash i v (s :: siblings) = foldPath hash (i / 2)
      (hash (if i % 2 = 0 then (v, s) else (s, v)).1 (if i % 2 = 0 then (v, s) else (s, v)).2)
      siblings := by
  rw [foldPath]
  split_ifs <;> rfl

/-- **Without a collision among the pairs that are hashed**, two paths to the same result have the same
value and the same siblings. -/
theorem foldPath_inj :
    ∀ {siblings siblings' : List α} {i : ℕ} {v v' : α}, siblings.length = siblings'.length →
      (∀ p ∈ hashedPairs hash i v siblings, ∀ q ∈ hashedPairs hash i v' siblings',
        hash p.1 p.2 = hash q.1 q.2 → p = q) →
      foldPath hash i v siblings = foldPath hash i v' siblings' → v = v' ∧ siblings = siblings'
  | [], [], _, _, _, _, _, h => ⟨h, rfl⟩
  | s :: siblings, s' :: siblings', i, v, v', hlen, hfree, h => by
      rw [foldPath_cons, foldPath_cons] at h
      obtain ⟨hhash, htail⟩ := foldPath_inj (Nat.succ.inj hlen)
        (fun p hp q hq => hfree p (List.mem_cons_of_mem _ hp) q (List.mem_cons_of_mem _ hq)) h
      have hpair := hfree _ List.mem_cons_self _ List.mem_cons_self hhash
      split_ifs at hpair
      all_goals
        obtain ⟨rfl, rfl⟩ := Prod.mk.inj hpair
        exact ⟨rfl, by rw [htail]⟩

/-! ## The tree over given leaves -/

variable (hash)

/-- The hash of a subtree of the given height in which all leaves are `empty`. -/
def emptySubtree (empty : α) : ℕ → α
  | 0 => empty
  | height + 1 => hash (emptySubtree empty height) (emptySubtree empty height)

/-- The value of a node by its height. -/
def node (leaf : ℕ → α) : ℕ → ℕ → α
  | 0, i => leaf i
  | height + 1, i => hash (node leaf height (2 * i)) (node leaf height (2 * i + 1))

/-- The tree of the given depth over leaves. -/
def treeOf (depth : ℕ) (leaf : ℕ → α) (level i : ℕ) : α := node hash leaf (depth - level) i

variable {hash}

lemma isHashTree_treeOf (depth : ℕ) (leaf : ℕ → α) :
    IsHashTree hash depth (treeOf hash depth leaf) := by
  intro level hlevel i _
  have hsub : depth - level = depth - (level + 1) + 1 := by omega
  rw [treeOf, hsub, node, treeOf, treeOf]

/-- A subtree of empty leaves. -/
lemma node_empty {leaf : ℕ → α} {empty : α} :
    ∀ {height i : ℕ}, (∀ j, i * 2 ^ height ≤ j → j < (i + 1) * 2 ^ height → leaf j = empty) →
      node hash leaf height i = emptySubtree hash empty height
  | 0, i, h => h i (by simp) (by simp)
  | height + 1, i, h => by
      have hlo : i * 2 ^ (height + 1) = 2 * i * 2 ^ height := by ring
      have hmid : (2 * i + 1) * 2 ^ height = 2 * i * 2 ^ height + 2 ^ height := by ring
      have hhi : (i + 1) * 2 ^ (height + 1) = (2 * i + 1 + 1) * 2 ^ height := by ring
      have htop : (2 * i + 1 + 1) * 2 ^ height = (2 * i + 1) * 2 ^ height + 2 ^ height := by ring
      rw [hlo, hhi] at h
      rw [node, emptySubtree, node_empty fun j h1 h2 => h j h1 (by omega),
        node_empty fun j h1 h2 => h j (by omega) h2]

end HashTree
