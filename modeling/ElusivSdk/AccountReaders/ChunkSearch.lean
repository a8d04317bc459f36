import ElusivSdk.AccountReaders.StorageAccountReader
import ElusivSdk.Library.SkippingScan

/-!
# The search in one chunk

The positions at which the hashes stand, in ascending order, are the *hits* of a scan that skips ahead
(`Hits`).

* `NoneSkipped` — the condition on the start indices: in the order of their text, none exceeds the hit
  at its place.
* `Hits.scanChunk_eq` — a scan that returns has found the hits it met, and no others.
* `Hits.scanChunk_isOk` — a scan that jumps over no hit returns, on a populated chunk.
* `findCommitmentIndicesInChunk_stands` — whatever is found stands in the chunk.
* **`InChunk.findCommitmentIndicesInChunk_iff`** — on a chunk with a populated prefix every hash is
  found at its position exactly when none is skipped.
-/

namespace ElusivSdk

open SkippingScan

namespace StorageAccountReader

/-! ## Reading a chunk -/

/-- A buffer of values of one length is read value by value. -/
lemma readFixedLengthValue_flatten {length : ℕ} (hpos : 0 < length) :
    ∀ {values : List Bytes}, (∀ v ∈ values, v.length = length) → ∀ i : ℕ,
      readFixedLengthValueFromBuffer values.flatten i length = values[i]?
  | [], _, i => by
      have hend : (i + 1) * length > [].flatten.length (α := UInt8) :=
        Nat.mul_pos (Nat.succ_pos i) hpos
      rw [readFixedLengthValueFromBuffer, if_pos hend]
      rfl
  | v :: vs, h, 0 => by
      have hv : v.length = length := h v List.mem_cons_self
      rw [readFixedLengthValueFromBuffer, List.flatten_cons, List.length_append, Nat.zero_add,
        Nat.one_mul, if_neg (by omega), ← hv, List.take_left, Nat.zero_mul, List.drop_zero,
        List.getElem?_cons_zero]
  | v :: vs, h, i + 1 => by
      have hv : v.length = length := h v List.mem_cons_self
      rw [List.getElem?_cons_succ,
        ← readFixedLengthValue_flatten hpos (fun x hx => h x (List.mem_cons_of_mem v hx)) i,
        readFixedLengthValueFromBuffer, readFixedLengthValueFromBuffer, List.flatten_cons,
        List.length_append, hv]
      have hstop : (i + 1 + 1) * length = length + (i + 1) * length := by
        rw [Nat.succ_mul (i + 1), Nat.add_comm]
      have hstart : (i + 1) * length = length + i * length := by rw [Nat.succ_mul, Nat.add_comm]
      refine if_congr (by omega) rfl (congrArg some ?_)
      rw [hstop, ← hv, List.take_length_add_append, hv, hstart, ← hv, List.drop_length_add_append]

lemma readCommitmentAtAccIndex_flatten {values : List Bytes} (h : ∀ v ∈ values, v.length = 32)
    (i : ℕ) : readCommitmentAtAccIndex values.flatten i = values[i]? :=
  readFixedLengthValue_flatten (by decide) h i

/-! ## The scan of one chunk -/

/-- For each hash the position among `seen` at which it stands. -/
def foundAt (values : List Bytes) (commHashes : List MontScalar) (seen : List ℕ) : List (Option ℕ) :=
  commHashes.map fun h => seen.find? fun p => values[p]? = some h

/-- The positions at which the hashes stand, in ascending order; no hash stands at two. -/
structure Hits (values : List Bytes) (commHashes : List MontScalar) (hits : List ℕ) : Prop where
  ascending : hits.Pairwise (· < ·)
  mem_iff : ∀ i, i ∈ hits ↔
    i < STORAGE_MT_VALUES_PER_ACCOUNT ∧ ∃ h ∈ commHashes, values[i]? = some h
  unique : ∀ h ∈ commHashes, ∀ p q : ℕ, values[p]? = some h → values[q]? = some h → p = q

section Scan

variable {values : List Bytes} {commHashes : List MontScalar} {sorted : List ℕ}

lemma foundAt_nil (values : List Bytes) (commHashes : List MontScalar) :
    foundAt values commHashes [] = List.replicate commHashes.length none := by
  rw [foundAt]
  exact List.map_const' ..

/-- Once every hash is found, later positions change nothing. -/
lemma foundAt_append_of_all {seen : List ℕ}
    (h : (foundAt values commHashes seen).all Option.isSome = true) (later : List ℕ) :
    foundAt values commHashes (seen ++ later) = foundAt values commHashes seen := by
  refine List.map_congr_left fun x hx => ?_
  have hsome := List.all_eq_true.mp h _ (List.mem_map_of_mem hx)
  rw [List.find?_append, Option.or_of_isSome hsome]

lemma checkCommitment_fst (commHashes : List MontScalar) {i : ℕ} {v : Bytes} (hv : values[i]? = some v) (seen : List ℕ) :
    (checkCommitment commHashes v i (foundAt values commHashes seen)).1
      = foundAt values commHashes (seen ++ [i]) := by
  rw [checkCommitment, foundAt, foundAt, List.zipWith_map_right, List.zipWith_self]
  refine List.map_congr_left fun h _ => ?_
  rw [List.find?_append]
  cases seen.find? fun p => decide (values[p]? = some h) with
  | some p => rfl
  | none =>
      by_cases hh : h = v
      · simp [hh, hv]
      · simp [hh, hv, Ne.symm hh]

lemma checkCommitment_snd {i : ℕ} {v : Bytes} (seen : List ℕ) :
    (checkCommitment commHashes v i (foundAt values commHashes seen)).2 = true ↔
      v ∈ commHashes ∧ ∀ p ∈ seen, values[p]? ≠ some v := by
  have hzip : commHashes.zip (foundAt values commHashes seen)
      = commHashes.map fun h => (h, seen.find? fun p => values[p]? = some h) := by
    rw [foundAt, List.zip_map_right, List.zip_eq_zipWith, List.zipWith_self, List.map_map]
    rfl
  rw [checkCommitment, hzip, List.any_map, List.any_eq_true]
  constructor
  · rintro ⟨h, hh, hmatch⟩
    obtain ⟨hnone, rfl⟩ := of_decide_eq_true hmatch
    refine ⟨hh, fun p hp heq => ?_⟩
    exact absurd (decide_eq_true heq) (by simpa using List.find?_eq_none.mp hnone p hp)
  · rintro ⟨hv, hne⟩
    refine ⟨v, hv, decide_eq_true ⟨List.find?_eq_none.mpr fun p hp => ?_, rfl⟩⟩
    simpa using hne p hp

lemma skipTo_add_one (k i : ℕ) :
    skipTo sorted (k + 1) i + 1 = next i (sorted.drop (k + 1)) := by
  rw [skipTo]
  cases hk : sorted[k + 1]? with
  | none => rw [List.drop_eq_nil_of_le (List.getElem?_eq_none_iff.mp hk), next]
  | some start =>
      obtain ⟨hlt, rfl⟩ := List.getElem?_eq_some_iff.mp hk
      rw [List.drop_eq_getElem_cons hlt, next]
      dsimp only
      split_ifs <;> omega

variable {hits : List ℕ}

lemma Hits.foundAt_append_of_notMem (H : Hits values commHashes hits) {i : ℕ}
    (hi : i < STORAGE_MT_VALUES_PER_ACCOUNT) (hnot : i ∉ hits) (seen : List ℕ) :
    foundAt values commHashes (seen ++ [i]) = foundAt values commHashes seen := by
  refine List.map_congr_left fun h hh => ?_
  have hne : ¬ values[i]? = some h := fun heq => hnot ((H.mem_iff i).mpr ⟨hi, h, hh, heq⟩)
  rw [List.find?_append, List.find?_singleton, if_neg (by simpa using hne), Option.or_none]

/-- One round of the scan. -/
lemma Hits.scanChunk_succ (H : Hits values commHashes hits) (h32 : ∀ v ∈ values, v.length = 32)
    {i k : ℕ} {v : Bytes} {seen : List ℕ} (hi : i < STORAGE_MT_VALUES_PER_ACCOUNT)
    (hv : values[i]? = some v) (hz : v ≠ zeros 32) (hseen : ∀ p ∈ seen, p < i) (fuel : ℕ) :
    scanChunk values.flatten commHashes sorted (fuel + 1) ⟨i, k, foundAt values commHashes seen⟩
      = if (foundAt values commHashes (seen ++ [i])).all Option.isSome then
          .ok (foundAt values commHashes (seen ++ [i]))
        else if i ∈ hits then
          scanChunk values.flatten commHashes sorted fuel
            ⟨next i (sorted.drop (k + 1)), k + 1, foundAt values commHashes (seen ++ [i])⟩
        else
          scanChunk values.flatten commHashes sorted fuel
            ⟨i + 1, k, foundAt values commHashes seen⟩ := by
  have hfst := checkCommitment_fst commHashes hv seen
  have hsnd : (checkCommitment commHashes v i (foundAt values commHashes seen)).2 = true ↔
      i ∈ hits := by
    rw [checkCommitment_snd, H.mem_iff]
    constructor
    · exact fun h => ⟨hi, v, h.1, hv⟩
    · rintro ⟨-, h, hh, heq⟩
      obtain rfl := Option.some.inj (hv.symm.trans heq)
      refine ⟨hh, fun p hp hpv => ?_⟩
      exact absurd (H.unique v hh p i hpv hv) (Nat.ne_of_lt (hseen p hp))
  rw [scanChunk, if_pos hi, readCommitmentAtAccIndex_flatten h32, hv]
  dsimp only
  rw [if_neg hz, hfst]
  by_cases hall : (foundAt values commHashes (seen ++ [i])).all Option.isSome = true
  · rw [if_pos hall, if_pos hall]
  · rw [if_neg hall, if_neg hall]
    by_cases hmem : i ∈ hits
    · rw [if_pos (hsnd.mpr hmem), if_pos hmem, skipTo_add_one]
    · rw [if_neg fun h => hmem (hsnd.mp h), if_neg hmem, H.foundAt_append_of_notMem hi hmem]

/-- **A scan that returns has found the hits it met, and no others.** -/
lemma Hits.scanChunk_eq (H : Hits values commHashes hits) (h32 : ∀ v ∈ values, v.length = 32) :
    ∀ (fuel i k : ℕ) (seen : List ℕ) {res : List (Option ℕ)}, (∀ p ∈ seen, p < i) →
      scanChunk values.flatten commHashes sorted fuel ⟨i, k, foundAt values commHashes seen⟩ = .ok res →
      res = foundAt values commHashes (seen ++ met i (sorted.drop (k + 1)) hits)
  | 0, _, _, _, _, _, hrun => nomatch hrun
  | fuel + 1, i, k, seen, res, hseen, hrun => by
      rcases Nat.lt_or_ge i STORAGE_MT_VALUES_PER_ACCOUNT with hi | hi
      · cases hv : values[i]? with
        | none =>
            rw [scanChunk, if_pos hi, readCommitmentAtAccIndex_flatten h32, hv] at hrun
            nomatch hrun
        | some v =>
            by_cases hz : v = zeros 32
            · rw [scanChunk, if_pos hi, readCommitmentAtAccIndex_flatten h32, hv] at hrun
              dsimp only at hrun
              rw [if_pos hz] at hrun
              nomatch hrun
            · have hseen' : ∀ p ∈ seen ++ [i], p < i + 1 := by
                intro p hp
                rcases List.mem_append.mp hp with hp | hp
                · exact Nat.lt_succ_of_lt (hseen p hp)
                · rw [List.mem_singleton.mp hp]
                  exact Nat.lt_succ_self i
              have hlt := lt_next i (sorted.drop (k + 1))
              rw [H.scanChunk_succ h32 hi hv hz hseen] at hrun
              split_ifs at hrun with hall hmem
              · obtain rfl := Except.ok.inj hrun
                by_cases hmem : i ∈ hits
                · have hlater := foundAt_append_of_all hall
                    (met (next i (sorted.drop (k + 1))) (sorted.drop (k + 1)).tail hits)
                  rw [List.append_assoc, List.singleton_append] at hlater
                  rw [met_of_mem _ H.ascending hmem, hlater]
                · rw [H.foundAt_append_of_notMem hi hmem] at hall ⊢
                  rw [foundAt_append_of_all hall]
              · have ih := H.scanChunk_eq h32 fuel _ _ _
                  (fun p hp => Nat.lt_of_lt_of_le (hseen' p hp) hlt) hrun
                rw [ih, met_of_mem _ H.ascending hmem, List.append_assoc, List.singleton_append,
                  List.tail_drop]
              · have ih := H.scanChunk_eq h32 fuel _ _ _
                  (fun p hp => Nat.lt_succ_of_lt (hseen p hp)) hrun
                rw [ih, met_of_notMem _ hmem]
      · rw [scanChunk, if_neg (Nat.not_lt_of_ge hi)] at hrun
        obtain rfl := Except.ok.inj hrun
        have hnil : met i (sorted.drop (k + 1)) hits = [] := met_eq_nil (fun p hp =>
          Nat.lt_of_lt_of_le ((H.mem_iff p).mp hp).1 hi) (sorted.drop (k + 1))
        rw [hnil, List.append_nil]

/-- A scan that jumps over no hit returns, when every value is populated up to which some hash does not
stand in the chunk. -/
lemma Hits.scanChunk_isOk (H : Hits values commHashes hits) (h32 : ∀ v ∈ values, v.length = 32) :
    ∀ (fuel i k : ℕ) (seen : List ℕ), STORAGE_MT_VALUES_PER_ACCOUNT - i < fuel →
      (∀ p ∈ seen, p < i) → (∀ p ∈ hits, p < i → p ∈ seen) →
      (∀ p ∈ hits, i ≤ p → p ∈ met i (sorted.drop (k + 1)) hits) →
      ¬ (foundAt values commHashes seen).all Option.isSome = true →
      (∀ j, i ≤ j → j < STORAGE_MT_VALUES_PER_ACCOUNT →
        (∃ h ∈ commHashes, ∀ p ∈ hits, p < j → values[p]? ≠ some h) →
        ∃ v, values[j]? = some v ∧ v ≠ zeros 32) →
      ∃ res, scanChunk values.flatten commHashes sorted fuel
        ⟨i, k, foundAt values commHashes seen⟩ = .ok res
  | 0, _, _, _, hfuel, _, _, _, _, _ => absurd hfuel (Nat.not_lt_zero _)
  | fuel + 1, i, k, seen, hfuel, hseen, hbehind, hahead, hopen, hfill => by
      rcases Nat.lt_or_ge i STORAGE_MT_VALUES_PER_ACCOUNT with hi | hi
      · have hmissing : ∃ h ∈ commHashes, ∀ p ∈ hits, p < i → values[p]? ≠ some h := by
          by_contra hall
          push Not at hall
          refine hopen (List.all_eq_true.mpr fun r hr => ?_)
          obtain ⟨h, hh, rfl⟩ := List.mem_map.mp hr
          obtain ⟨p, hp, hlt, hv⟩ := hall h hh
          exact List.find?_isSome.mpr ⟨p, hbehind p hp hlt, decide_eq_true hv⟩
        obtain ⟨v, hv, hz⟩ := hfill i le_rfl hi hmissing
        have hlt := lt_next i (sorted.drop (k + 1))
        rw [H.scanChunk_succ h32 hi hv hz hseen]
        split_ifs with hall hmem
        · exact ⟨_, rfl⟩
        · rw [met_of_mem _ H.ascending hmem, List.tail_drop] at hahead
          refine H.scanChunk_isOk h32 fuel _ _ _ (by omega) (fun p hp => ?_)
            (fun p hp hpi => ?_) (fun p hp hpi => ?_) hall fun j hj => hfill j (by omega)
          · rcases List.mem_append.mp hp with hp | hp
            · exact Nat.lt_trans (hseen p hp) hlt
            · rw [List.mem_singleton.mp hp]
              exact hlt
          · rcases Nat.lt_trichotomy p i with hpi' | rfl | hpi'
            · exact List.mem_append_left _ (hbehind p hp hpi')
            · exact List.mem_append_right _ List.mem_cons_self
            · -- the scan meets every hit ahead, so it does not jump over `p`
              rcases List.mem_cons.mp (hahead p hp (by omega)) with rfl | hmet
              · exact absurd hpi' (lt_irrefl p)
              · have hle := le_of_mem_met hmet
                omega
          · rcases List.mem_cons.mp (hahead p hp (by omega)) with rfl | hmet
            · omega
            · exact hmet
        · rw [met_of_notMem _ hmem] at hahead
          refine H.scanChunk_isOk h32 fuel _ _ _ (by omega)
            (fun p hp => Nat.lt_succ_of_lt (hseen p hp)) (fun p hp hpi => ?_)
            (fun p hp hpi => hahead p hp (by omega)) hopen fun j hj => hfill j (by omega)
          have hne : p ≠ i := fun heq => hmem (heq ▸ hp)
          exact hbehind p hp (by omega)
      · rw [scanChunk, if_neg (Nat.not_lt_of_ge hi)]
        exact ⟨_, rfl⟩

end Scan

/-! ## Positions on any chunk -/

/-- The hash stands in the chunk, at a position from `first` on. -/
structure StandsAt (chunk : Bytes) (first : ℕ) (hash : MontScalar) (position : ℕ) : Prop where
  first_le : first ≤ position
  position_lt : position < STORAGE_MT_VALUES_PER_ACCOUNT
  read : readCommitmentAtAccIndex chunk position = some hash
  ne_zeros : hash ≠ zeros 32

/-- Every position that is known is one at which its hash stands. -/
def AllStand (chunk : Bytes) (first : ℕ) (commHashes : List MontScalar) (res : List (Option ℕ)) : Prop :=
  ∀ entry ∈ commHashes.zip res, ∀ p, entry.2 = some p → StandsAt chunk first entry.1 p

lemma zip_zipWith_right {α β γ : Type*} (f : α → β → γ) :
    ∀ (l : List α) (m : List β), l.zip (List.zipWith f l m) = (l.zip m).map fun e => (e.1, f e.1 e.2)
  | [], _ => rfl
  | _ :: _, [] => rfl
  | a :: l, b :: m => by
      rw [List.zipWith_cons_cons, List.zip_cons_cons, List.zip_cons_cons, List.map_cons,
        zip_zipWith_right f l m]

lemma AllStand.check {chunk : Bytes} {first : ℕ} {commHashes : List MontScalar}
    {res : List (Option ℕ)} (hres : AllStand chunk first commHashes res) {i : ℕ} {v : Bytes}
    (hv : StandsAt chunk first v i) :
    AllStand chunk first commHashes (checkCommitment commHashes v i res).1 := by
  intro entry hmem p hp
  rw [checkCommitment, zip_zipWith_right] at hmem
  obtain ⟨⟨hash, r⟩, he, rfl⟩ := List.mem_map.mp hmem
  dsimp only at hp ⊢
  split_ifs at hp with hnew
  · obtain ⟨-, rfl⟩ := hnew
    obtain rfl := Option.some.inj hp
    exact hv
  · exact hres _ he p hp

lemma le_skipTo (sorted : List ℕ) (k i : ℕ) : i ≤ skipTo sorted k i := by
  rw [skipTo]
  split
  · exact Nat.le_refl _
  · dsimp only
    split_ifs <;> omega

/-- Whatever a chunk holds, the hashes stand at the positions found. -/
lemma scanChunk_allStand {chunk : Bytes} {first : ℕ} {commHashes : List MontScalar} {sorted : List ℕ} :
    ∀ (fuel i k : ℕ) (seen : List (Option ℕ)) {res : List (Option ℕ)}, first ≤ i →
      AllStand chunk first commHashes seen →
      scanChunk chunk commHashes sorted fuel ⟨i, k, seen⟩ = .ok res →
      AllStand chunk first commHashes res
  | 0, _, _, _, _, _, _, hrun => nomatch hrun
  | fuel + 1, i, k, seen, res, hfirst, hseen, hrun => by
      rw [scanChunk] at hrun
      split_ifs at hrun with hi
      · cases hv : readCommitmentAtAccIndex chunk i with
        | none =>
            rw [hv] at hrun
            nomatch hrun
        | some v =>
            rw [hv] at hrun
            dsimp only at hrun
            split_ifs at hrun with hz hall hfound
            all_goals have hseen' := hseen.check ⟨hfirst, hi, hv, hz⟩
            · obtain rfl := Except.ok.inj hrun
              exact hseen'
            · have hle := le_skipTo sorted (k + 1) i
              exact scanChunk_allStand fuel _ _ _ (by omega) hseen' hrun
            · exact scanChunk_allStand fuel _ _ _ (by omega) hseen' hrun
      · obtain rfl := Except.ok.inj hrun
        exact hseen

/-- **What a search returns stands in the chunk**, from one of the start indices on. -/
lemma findCommitmentIndicesInChunk_stands {chunk : Bytes} {commHashes : List MontScalar}
    {startIndices : List ℕ} {res : List (Option ℕ)}
    (hrun : findCommitmentIndicesInChunk chunk commHashes startIndices = .ok res) :
    ∀ entry ∈ commHashes.zip res, ∀ p, entry.2 = some p →
      ∃ first ∈ startIndices, StandsAt chunk first entry.1 p := by
  have hnone : ∀ entry ∈ commHashes.zip (List.replicate commHashes.length (none : Option ℕ)),
      entry.2 = none := fun entry he => List.eq_of_mem_replicate (List.of_mem_zip he).2
  rw [findCommitmentIndicesInChunk] at hrun
  intro entry he p hp
  cases hsorted : (sortAsText startIndices)[0]? with
  | none =>
      rw [hsorted] at hrun
      obtain rfl := Except.ok.inj hrun
      rw [hnone entry he] at hp
      nomatch hp
  | some first =>
      rw [hsorted] at hrun
      have hstart : AllStand chunk first commHashes (List.replicate commHashes.length none) := by
        intro entry he p hp
        rw [hnone entry he] at hp
        nomatch hp
      have hmem : first ∈ startIndices :=
        (List.perm_insertionSort _ startIndices).mem_iff.mp (List.mem_of_getElem? hsorted)
      exact ⟨first, hmem, scanChunk_allStand _ _ _ _ (Nat.le_refl _) hstart hrun entry he p hp⟩

/-! ## One chunk -/

/-- **The condition on start indices**: in the order of their text, none exceeds the position at its
place among the positions in ascending order. -/
def NoneSkipped (startIndices positions : List ℕ) : Prop :=
  ∀ sp ∈ (sortAsText startIndices).zip (positions.insertionSort (· ≤ ·)), sp.1 ≤ sp.2

instance (startIndices positions : List ℕ) : Decidable (NoneSkipped startIndices positions) :=
  inferInstanceAs (Decidable (∀ sp ∈ _, _))

/-- The hits that the search in a chunk meets. -/
def metFromStart (startIndices hits : List ℕ) : List ℕ :=
  match sortAsText startIndices with
  | [] => []
  | first :: bounds => met first bounds hits

section Chunk

variable {values : List Bytes} {commHashes : List MontScalar} {startIndices hits : List ℕ}

lemma metFromStart_sublist : (metFromStart startIndices hits).Sublist hits := by
  rw [metFromStart]
  split
  · exact List.nil_sublist hits
  · exact met_sublist _ _ _

lemma sortAsText_eq_nil (h : sortAsText startIndices = []) : startIndices = [] := by
  have hlen := congrArg List.length h
  rw [sortAsText, List.length_insertionSort] at hlen
  exact List.length_eq_zero_iff.mp hlen

/-- **What the search in one chunk returns, when it returns.** -/
lemma Hits.findCommitmentIndicesInChunk_eq (H : Hits values commHashes hits)
    (h32 : ∀ v ∈ values, v.length = 32) {res : List (Option ℕ)}
    (hrun : findCommitmentIndicesInChunk values.flatten commHashes startIndices = .ok res) :
    res = foundAt values commHashes (metFromStart startIndices hits) := by
  rw [findCommitmentIndicesInChunk] at hrun
  cases hsorted : sortAsText startIndices with
  | nil =>
      rw [hsorted] at hrun
      obtain rfl := Except.ok.inj hrun
      rw [metFromStart, hsorted]
      exact (foundAt_nil values commHashes).symm
  | cons first bounds =>
      rw [hsorted, ← foundAt_nil values] at hrun
      have heq := H.scanChunk_eq h32 _ first 0 [] (by simp) hrun
      rw [metFromStart, hsorted]
      exact heq

/-- Without a start index out of place every hit is met. -/
lemma Hits.metFromStart_eq_iff (H : Hits values commHashes hits)
    (hlen : startIndices.length = commHashes.length) :
    metFromStart startIndices hits = hits ↔
      ∀ sp ∈ (sortAsText startIndices).zip hits, sp.1 ≤ sp.2 := by
  rw [metFromStart]
  split
  · next hnil =>
      rw [sortAsText_eq_nil hnil, List.length_nil, eq_comm, List.length_eq_zero_iff] at hlen
      have hits_eq : hits = [] := by
        refine List.eq_nil_iff_forall_not_mem.mpr fun p hp => ?_
        obtain ⟨-, h, hh, -⟩ := (H.mem_iff p).mp hp
        rw [hlen] at hh
        exact List.not_mem_nil hh
      rw [hits_eq, hnil]
      simp
  · next first bounds hcons =>
      rw [hcons]
      exact met_eq_self_iff first bounds H.ascending

/-- A search without a start index out of place finds every hash that stands in the chunk. -/
lemma Hits.findCommitmentIndicesInChunk_ok (H : Hits values commHashes hits)
    (h32 : ∀ v ∈ values, v.length = 32) (hlen : startIndices.length = commHashes.length)
    (hmet : metFromStart startIndices hits = hits)
    (hfill : ∀ j, (∃ start ∈ startIndices, start ≤ j) → j < STORAGE_MT_VALUES_PER_ACCOUNT →
      (∃ h ∈ commHashes, ∀ p ∈ hits, p < j → values[p]? ≠ some h) →
      ∃ v, values[j]? = some v ∧ v ≠ zeros 32) :
    findCommitmentIndicesInChunk values.flatten commHashes startIndices
      = .ok (foundAt values commHashes hits) := by
  have hex : ∃ res, findCommitmentIndicesInChunk values.flatten commHashes startIndices
      = .ok res := by
    rw [metFromStart] at hmet
    rw [findCommitmentIndicesInChunk]
    cases hsorted : sortAsText startIndices with
    | nil => exact ⟨_, rfl⟩
    | cons first bounds =>
        rw [hsorted] at hmet
        have hfirst : first ∈ startIndices :=
          (List.mem_insertionSort TextLE).mp (hsorted ▸ List.mem_cons_self : first ∈ sortAsText _)
        have hne : commHashes ≠ [] := by
          intro hnil
          rw [hnil, List.length_nil, List.length_eq_zero_iff] at hlen
          rw [hlen] at hfirst
          exact List.not_mem_nil hfirst
        have hahead : ∀ p ∈ hits, p ∈ met first bounds hits := by
          intro p hp
          rw [show met first bounds hits = hits from hmet]
          exact hp
        rw [← foundAt_nil values]
        refine H.scanChunk_isOk h32 _ first 0 [] (by omega) (by simp) (fun p hp hlt => ?_)
          (fun p hp _ => hahead p hp) ?_ fun j hj => hfill j ⟨first, hfirst, hj⟩
        · have hle := le_of_mem_met (hahead p hp)
          omega
        · rw [foundAt_nil]
          cases commHashes with
          | nil => exact absurd rfl hne
          | cons h hs => exact Bool.false_ne_true
  obtain ⟨res, hres⟩ := hex
  rw [hres, H.findCommitmentIndicesInChunk_eq h32 hres, hmet]

/-- A hash whose position is jumped over is not found. -/
lemma Hits.find?_eq_none (H : Hits values commHashes hits) {h : MontScalar} {p : ℕ} {seen : List ℕ}
    (hh : h ∈ commHashes) (hp : values[p]? = some h) (hnot : p ∉ seen) :
    (seen.find? fun q => values[q]? = some h) = none := by
  refine List.find?_eq_none.mpr fun q hq => ?_
  rw [decide_eq_true_eq]
  intro hv
  exact hnot (H.unique h hh q p hv hp ▸ hq)

/-- A hash whose position is met is found there. -/
lemma Hits.find?_eq_some (H : Hits values commHashes hits) {h : MontScalar} {p : ℕ} {seen : List ℕ}
    (hh : h ∈ commHashes) (hp : values[p]? = some h) (hmem : p ∈ seen) :
    (seen.find? fun q => values[q]? = some h) = some p := by
  cases hq : seen.find? fun q => decide (values[q]? = some h) with
  | none => exact absurd (decide_eq_true hp) (List.find?_eq_none.mp hq p hmem)
  | some q =>
      have hv := List.find?_some hq
      rw [H.unique h hh q p (of_decide_eq_true hv) hp]

/-- When not every hit is met, some hash that stands in the chunk is not found. -/
lemma Hits.exists_missed (H : Hits values commHashes hits)
    (hne : metFromStart startIndices hits ≠ hits) :
    ∃ h ∈ commHashes, (∃ p ∈ hits, values[p]? = some h) ∧
      ((metFromStart startIndices hits).find? fun q => values[q]? = some h) = none := by
  have hnodup : hits.Nodup := H.ascending.imp fun hlt => Nat.ne_of_lt hlt
  have hmissed : ∃ p ∈ hits, p ∉ metFromStart startIndices hits := by
    by_contra hall
    push Not at hall
    exact hne (metFromStart_sublist.eq_of_length_le (List.subperm_of_subset hnodup hall).length_le)
  obtain ⟨p, hp, hnot⟩ := hmissed
  obtain ⟨-, h, hh, hv⟩ := (H.mem_iff p).mp hp
  exact ⟨h, hh, ⟨p, hp, hv⟩, H.find?_eq_none hh hv hnot⟩

/-- The positions of the hashes, put in order. -/
lemma Hits.ofPositions {positions : List ℕ} (hnodup : positions.Nodup)
    (hmem : ∀ i, i ∈ positions ↔
      i < STORAGE_MT_VALUES_PER_ACCOUNT ∧ ∃ h ∈ commHashes, values[i]? = some h)
    (hunique : ∀ h ∈ commHashes, ∀ p q : ℕ, values[p]? = some h → values[q]? = some h → p = q) :
    Hits values commHashes (positions.insertionSort (· ≤ ·)) where
  ascending := by
    have hperm := List.perm_insertionSort (· ≤ ·) positions
    have hle := List.pairwise_insertionSort (· ≤ ·) positions
    exact (hle.and (hperm.nodup_iff.mpr hnodup)).imp fun h => Nat.lt_of_le_of_ne h.1 h.2
  mem_iff i := by rw [List.mem_insertionSort, hmem]
  unique := hunique

end Chunk

/-! ### A populated prefix -/

/-- An element that a list holds once has one position. -/
lemma getElem?_eq_some_iff_of_count {α : Type*} [BEq α] [LawfulBEq α] {a : α} :
    ∀ {l : List α}, l.count a = 1 → ∀ i : ℕ, l[i]? = some a ↔ i = l.idxOf a
  | [], h, _ => by simp at h
  | x :: xs, h, i => by
      by_cases hx : x = a
      · subst hx
        rw [List.count_cons_self, Nat.add_eq_right, List.count_eq_zero] at h
        rw [List.idxOf_cons_self]
        cases i with
        | zero => simp
        | succ i =>
            rw [List.getElem?_cons_succ]
            exact iff_of_false (fun hi => h (List.mem_of_getElem? hi)) (Nat.succ_ne_zero i)
      · rw [List.count_cons_of_ne hx] at h
        rw [List.idxOf_cons_ne xs hx]
        cases i with
        | zero => simpa using hx
        | succ i =>
            rw [List.getElem?_cons_succ, getElem?_eq_some_iff_of_count h i]
            omega

/-- A chunk whose populated part holds each of the hashes once, not before its start index. -/
structure InChunk (populated : List Bytes) (commHashes : List MontScalar) (startIndices : List ℕ) :
    Prop where
  value : ∀ v ∈ populated, v.length = 32 ∧ v ≠ zeros 32
  length_le : populated.length ≤ STORAGE_MT_VALUES_PER_ACCOUNT
  nodup : commHashes.Nodup
  count_eq : ∀ h ∈ commHashes, populated.count h = 1
  start_le : List.Forall₂ (fun start h => start ≤ populated.idxOf h) startIndices commHashes

namespace InChunk

variable {populated : List Bytes} {commHashes : List MontScalar} {startIndices : List ℕ}

lemma mem (h : InChunk populated commHashes startIndices) {hash : MontScalar}
    (hh : hash ∈ commHashes) : hash ∈ populated :=
  List.count_pos_iff.mp (by rw [h.count_eq hash hh]; exact Nat.one_pos)

lemma getElem?_eq_some_iff (h : InChunk populated commHashes startIndices) (unused : ℕ)
    {hash : MontScalar} (hh : hash ∈ commHashes) (i : ℕ) :
    (populated ++ List.replicate unused (zeros 32))[i]? = some hash ↔ i = populated.idxOf hash := by
  rw [← getElem?_eq_some_iff_of_count (h.count_eq hash hh)]
  rcases Nat.lt_or_ge i populated.length with hi | hi
  · rw [List.getElem?_append_left hi]
  · rw [List.getElem?_append_right hi, List.getElem?_eq_none hi, List.getElem?_replicate]
    refine iff_of_false (fun heq => ?_) nofun
    split_ifs at heq
    exact (h.value hash (h.mem hh)).2 (Option.some.inj heq).symm

lemma hits (h : InChunk populated commHashes startIndices) (unused : ℕ) :
    Hits (populated ++ List.replicate unused (zeros 32)) commHashes
      ((commHashes.map populated.idxOf).insertionSort (· ≤ ·)) := by
  refine Hits.ofPositions ?_ (fun i => ?_) fun hash hh p q hp hq => ?_
  · refine h.nodup.map_on fun x hx y hy heq => ?_
    exact (List.idxOf_inj (h.mem hx)).mp heq
  · rw [List.mem_map]
    constructor
    · rintro ⟨hash, hh, rfl⟩
      have hlt := List.idxOf_lt_length_of_mem (h.mem hh)
      exact ⟨Nat.lt_of_lt_of_le hlt h.length_le, hash, hh,
        (h.getElem?_eq_some_iff unused hh _).mpr rfl⟩
    · rintro ⟨-, hash, hh, hi⟩
      exact ⟨hash, hh, ((h.getElem?_eq_some_iff unused hh i).mp hi).symm⟩
  · rw [(h.getElem?_eq_some_iff unused hh p).mp hp, (h.getElem?_eq_some_iff unused hh q).mp hq]

lemma length_value (h : InChunk populated commHashes startIndices) (unused : ℕ) :
    ∀ v ∈ populated ++ List.replicate unused (zeros 32), v.length = 32 := by
  intro v hv
  rcases List.mem_append.mp hv with hv | hv
  · exact (h.value v hv).1
  · rw [List.eq_of_mem_replicate hv]
    exact List.length_replicate

/-- In one chunk every hash is found at its position exactly when none is skipped. -/
lemma findCommitmentIndicesInChunk_iff (h : InChunk populated commHashes startIndices)
    (unused : ℕ) :
    findCommitmentIndicesInChunk (populated ++ List.replicate unused (zeros 32)).flatten commHashes
        startIndices = .ok (commHashes.map fun hash => some (populated.idxOf hash)) ↔
      NoneSkipped startIndices (commHashes.map populated.idxOf) := by
  have H := h.hits unused
  have hlen : startIndices.length = commHashes.length := h.start_le.length_eq
  have hmem : ∀ hash ∈ commHashes,
      populated.idxOf hash ∈ (commHashes.map populated.idxOf).insertionSort (· ≤ ·) :=
    fun hash hh => (List.mem_insertionSort _).mpr (List.mem_map_of_mem hh)
  rw [NoneSkipped, ← H.metFromStart_eq_iff hlen]
  constructor
  · intro hrun
    by_contra hne
    obtain ⟨hash, hh, -, hnone⟩ := H.exists_missed hne
    have heq := H.findCommitmentIndicesInChunk_eq (h.length_value unused) hrun
    have hhash := List.map_inj_left.mp heq hash hh
    rw [hnone] at hhash
    nomatch hhash
  · intro hmet
    rw [H.findCommitmentIndicesInChunk_ok (h.length_value unused) hlen hmet]
    · refine congrArg Except.ok (List.map_congr_left fun hash hh => ?_)
      exact H.find?_eq_some hh ((h.getElem?_eq_some_iff unused hh _).mpr rfl) (hmem hash hh)
    · rintro j - - ⟨hash, hh, hbefore⟩
      have hj : j < populated.length := by
        refine Nat.lt_of_le_of_lt (Nat.le_of_not_lt fun hlt => ?_)
          (List.idxOf_lt_length_of_mem (h.mem hh))
        exact hbefore _ (hmem hash hh) hlt ((h.getElem?_eq_some_iff unused hh _).mpr rfl)
      refine ⟨populated[j], ?_, (h.value _ (List.getElem_mem hj)).2⟩
      rw [List.getElem?_append_left hj, List.getElem?_eq_getElem hj]

end InChunk

end StorageAccountReader

end ElusivSdk
