import Mathlib.Data.List.Nodup

/-!
# Sets and maps in the order of insertion

A `GeneralSet` holds one item for each id.  A map of the language is such a set of entries whose id is
the key.

* `addToSet` — adding an item keeps the place of an id that is there.
* `mem_foldl_addToSet` — with different ids for different items, a set holds what was added to it.
* `mapGet_of_mem` — reading a key gives the value of its entry.
-/

namespace ElusivSdk

/-- `GeneralSet.add`: a set with an id for each value keeps the place of an id it knows. -/
def addToSet {α β : Type} [DecidableEq β] (getId : α → β) (set : List α) (item : α) : List α :=
  if set.any fun x => getId x = getId item then
    set.map fun x => if getId x = getId item then item else x
  else set ++ [item]

section AddToSet

variable {α β : Type} [DecidableEq β] {getId : α → β}

lemma addToSet_of_new {set : List α} {item : α} (h : getId item ∉ set.map getId) :
    addToSet getId set item = set ++ [item] := by
  rw [addToSet, if_neg]
  rw [List.any_eq_true]
  rintro ⟨x, hx, heq⟩
  exact h (List.mem_map.mpr ⟨x, hx, of_decide_eq_true heq⟩)

lemma addToSet_of_mem {set : List α} {item : α} (h : getId item ∈ set.map getId) :
    (addToSet getId set item).map getId = set.map getId := by
  obtain ⟨x, hx, heq⟩ := List.mem_map.mp h
  rw [addToSet, if_pos (List.any_eq_true.mpr ⟨x, hx, decide_eq_true heq⟩), List.map_map]
  refine List.map_congr_left fun y _ => ?_
  rw [Function.comp_apply]
  split_ifs with hy
  · exact hy.symm
  · rfl

/-- Adding an item never puts an id in twice. -/
lemma nodup_addToSet {set : List α} (hset : (set.map getId).Nodup) (item : α) :
    ((addToSet getId set item).map getId).Nodup := by
  by_cases hmem : getId item ∈ set.map getId
  · rwa [addToSet_of_mem hmem]
  · rw [addToSet_of_new hmem, List.map_append, List.map_singleton, List.nodup_append]
    refine ⟨hset, List.nodup_singleton _, fun x hx y hy heq => hmem ?_⟩
    rw [← List.mem_singleton.mp hy, ← heq]
    exact hx

/-- What is in a set was in it before or was added. -/
lemma mem_of_mem_addToSet {set : List α} {item x : α} (h : x ∈ addToSet getId set item) :
    x ∈ set ∨ x = item := by
  rw [addToSet] at h
  split_ifs at h
  · obtain ⟨y, hy, heq⟩ := List.mem_map.mp h
    split_ifs at heq
    · exact Or.inr heq.symm
    · exact Or.inl (heq ▸ hy)
  · rcases List.mem_append.mp h with h | h
    · exact Or.inl h
    · exact Or.inr (List.mem_singleton.mp h)

/-- Items with distinct ids are the set built from them. -/
lemma foldl_addToSet_of_nodup {items : List α} :
    ∀ set : List α, ((set ++ items).map getId).Nodup →
      items.foldl (addToSet getId) set = set ++ items := by
  induction items with
  | nil => exact fun set _ => (List.append_nil set).symm
  | cons item items ih =>
      intro set hnodup
      have hnew : getId item ∉ set.map getId := by
        rw [List.map_append, List.map_cons] at hnodup
        exact fun hmem => (List.nodup_append.mp hnodup).2.2 _ hmem _ List.mem_cons_self rfl
      rw [List.foldl_cons, addToSet_of_new hnew, ih _ (by rwa [List.append_assoc]),
        List.append_assoc]
      rfl

/-- The set is shorter when an id occurs twice. -/
lemma nodup_of_length_foldl_addToSet {items : List α} :
    ∀ set : List α, (set.map getId).Nodup →
      (items.foldl (addToSet getId) set).length ≤ set.length + items.length ∧
        ((items.foldl (addToSet getId) set).length = set.length + items.length →
          ((set ++ items).map getId).Nodup) := by
  induction items with
  | nil =>
      intro set hset
      exact ⟨Nat.le_refl _, fun _ => by rwa [List.append_nil]⟩
  | cons item items ih =>
      intro set hset
      rw [List.foldl_cons, List.length_cons]
      by_cases hmem : getId item ∈ set.map getId
      · have hids := addToSet_of_mem hmem
        have hlen : (addToSet getId set item).length = set.length := by
          simpa using congrArg List.length hids
        obtain ⟨hle, -⟩ := ih (addToSet getId set item) (by rwa [hids])
        rw [hlen] at hle
        exact ⟨by omega, fun heq => by omega⟩
      · rw [addToSet_of_new hmem]
        have hset' : ((set ++ [item]).map getId).Nodup := by
          rw [← addToSet_of_new hmem]
          exact nodup_addToSet hset item
        obtain ⟨hle, hnodup⟩ := ih _ hset'
        rw [List.length_append, List.length_singleton] at hle hnodup
        refine ⟨by omega, fun heq => ?_⟩
        have hres := hnodup (by omega)
        rwa [List.append_assoc] at hres

lemma mem_addToSet (hinj : Function.Injective getId) {set : List α} {item x : α} :
    x ∈ addToSet getId set item ↔ x ∈ set ∨ x = item := by
  by_cases hmem : item ∈ set
  · have hsame : addToSet getId set item = set := by
      rw [addToSet, if_pos (List.any_eq_true.mpr ⟨item, hmem, decide_eq_true rfl⟩)]
      conv_rhs => rw [← List.map_id set]
      refine List.map_congr_left fun y _ => ?_
      split_ifs with hid
      · exact (hinj hid).symm
      · rfl
    rw [hsame]
    refine ⟨Or.inl, fun h => h.elim id fun hx => ?_⟩
    rwa [hx]
  · have hnew : getId item ∉ set.map getId := fun h => hmem ((List.mem_map_of_injective hinj).mp h)
    rw [addToSet_of_new hnew, List.mem_append, List.mem_singleton]

/-- **A set holds exactly what was added to it, each id once**, when different items have different
ids. -/
lemma mem_foldl_addToSet (hinj : Function.Injective getId) {items : List α} {x : α} :
    ∀ set : List α, x ∈ items.foldl (addToSet getId) set ↔ x ∈ set ∨ x ∈ items := by
  induction items with
  | nil => simp
  | cons item items ih =>
      intro set
      rw [List.foldl_cons, ih, mem_addToSet hinj, List.mem_cons, or_assoc]

lemma nodup_foldl_addToSet {items : List α} :
    ∀ set : List α, (set.map getId).Nodup → ((items.foldl (addToSet getId) set).map getId).Nodup := by
  induction items with
  | nil => exact fun set hset => hset
  | cons item items ih => exact fun set hset => ih _ (nodup_addToSet hset item)

end AddToSet

/-! ## Maps -/

section Maps

variable {κ β : Type} [DecidableEq κ]

/-- Reading a key of a map. -/
def mapGet (map : List (κ × β)) (key : κ) : Option β :=
  (map.find? fun entry => entry.1 = key).map Prod.snd

lemma mem_of_mapGet {map : List (κ × β)} {key : κ} {value : β} (h : mapGet map key = some value) :
    (key, value) ∈ map := by
  rw [mapGet, Option.map_eq_some_iff] at h
  obtain ⟨⟨key', value'⟩, hfind, rfl⟩ := h
  have hfound := List.find?_some hfind
  have hkey : key' = key := of_decide_eq_true hfound
  rw [← hkey]
  exact List.mem_of_find?_eq_some hfind

/-- With one entry for a key, reading the key gives its value. -/
lemma mapGet_of_mem {map : List (κ × β)} (hnodup : (map.map Prod.fst).Nodup) {key : κ} {value : β}
    (h : (key, value) ∈ map) : mapGet map key = some value := by
  cases hget : mapGet map key with
  | none =>
      rw [mapGet, Option.map_eq_none_iff, List.find?_eq_none] at hget
      exact absurd (decide_eq_true rfl) (hget _ h)
  | some value' =>
      have heq := List.inj_on_of_nodup_map hnodup (mem_of_mapGet hget) h rfl
      rw [Prod.mk.injEq] at heq
      rw [heq.2]

end Maps

end ElusivSdk
