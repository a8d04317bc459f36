import ElusivSdk.TxBuilding.WardenSerialization
import Mathlib.Data.List.Pairwise

/-!
# Input commitments on their way to the warden

The inputs of a join split are written twice: from the public inputs of the proof, and from the join split of
an instruction.  Empty inputs are left out and have to come last, and a root that is the first one is not
written again.

* `JoinSplitBorsh.serializeJSON` — the second writer.
* `jsonsOf` — what is written for inputs, `readInputs` what is read from it.
* **`serializeInputCommitments_spec`** — when the first writer throws; otherwise the inputs are read back,
  and the second writer goes on with the same entries, if there are any.
-/

namespace ElusivSdk

open Format Program

/-! ## The other writer -/

def InputCommitmentBorsh.serializeJSON (serialization : Serialization) (comm : InputCommitmentBorsh) :
    Except Failure InputCommitmentSerializedJSON := do
  let root ← match comm.root with
    | none => pure none
    | some root => if root = 0 then pure none else some <$> serialization.serializeU256BigInt root
  let nullifierHash ← serialization.serializeU256BigInt comm.nullifier_hash
  pure { root := root, nullifier_hash := nullifierHash }

def OptionalFeeBorsh.serializeJSON (serialization : Serialization) (fee : OptionalFeeBorsh) :
    Except Failure OptionalFeeSerializedJSON := do
  let amount ← serialization.bigIntToNumber fee.amount
  pure { collector := fee.collector.bytes, amount := amount }

namespace JoinSplitBorsh

/-- Later roots that are the first one are taken out. -/
def compressRoots : List InputCommitmentSerializedJSON → Except Failure (List InputCommitmentSerializedJSON)
  | [] => .error .typeError
  | first :: rest =>
      match first.root with
      | none => .error (.error "At least one valid root required")
      | some firstRoot => .ok (first :: rest.map fun comm =>
          if comm.root = some firstRoot then { comm with root := none } else comm)

def serializeComms (serialization : Serialization) (joinSplit : JoinSplitBorsh) :
    Except Failure (List InputCommitmentSerializedJSON) :=
  let nHashes := joinSplit.input_commitments.map InputCommitmentBorsh.nullifier_hash
  let filtered := nHashes.filter fun n => n != 0
  if filtered ≠ nHashes.take filtered.length then
    .error (.error "Empty nHashes must be at the end")
  else do
    let serializedComms ← joinSplit.input_commitments.mapM fun comm => comm.serializeJSON serialization
    compressRoots serializedComms

/-- The rest of the join split, once its inputs are written. -/
def withComms (serialization : Serialization) (joinSplit : JoinSplitBorsh)
    (comms : List InputCommitmentSerializedJSON) : Except Failure JoinSplitSerializedJSON :=
  if joinSplit.metadata.length ≠ COMMITMENT_METADATA_LENGTH then
    .error (.error "Invalid length for metadata")
  else do
    let outputCommitment ← serialization.serializeU256BigInt joinSplit.output_commitment
    let amount ← serialization.bigIntToNumber joinSplit.amount
    let fee ← serialization.bigIntToNumber joinSplit.fee
    let optionalFee ← joinSplit.optional_fee.serializeJSON serialization
    pure
      { input_commitments := comms
        output_commitment := outputCommitment
        recent_commitment_index := joinSplit.recent_commitment_index
        amount := amount
        fee := fee
        fee_version := joinSplit.fee_version
        optional_fee := optionalFee
        token_id := joinSplit.token_id
        metadata := joinSplit.metadata }

def serializeJSON (serialization : Serialization) (joinSplit : JoinSplitBorsh) :
    Except Failure JoinSplitSerializedJSON := do
  let comms ← joinSplit.serializeComms serialization
  joinSplit.withComms serialization comms

end JoinSplitBorsh

/-! ## Empty inputs -/

/-- A zero stands before another number. -/
def ZeroBefore (nHashes : List ℕ) : Prop :=
  ∃ i j : ℕ, i < j ∧ nHashes[i]? = some 0 ∧ ∃ n ∈ nHashes[j]?, n ≠ 0

/-- A filter keeps what comes first when nothing that it drops comes before what it keeps. -/
lemma filter_eq_take_iff {α : Type*} {p : α → Bool} : ∀ {l : List α},
    l.filter p = l.take (l.filter p).length ↔ l.Pairwise fun a b => p b = true → p a = true
  | [] => by simp
  | a :: l => by
      rw [List.pairwise_cons]
      by_cases ha : p a = true
      · rw [List.filter_cons_of_pos ha, List.length_cons, List.take_succ_cons, List.cons.injEq,
          and_iff_right rfl, filter_eq_take_iff]
        exact (and_iff_right fun _ _ _ => ha).symm
      · have hdropped : (∀ b ∈ l, p b = true → p a = true) ↔ l.filter p = [] := by
          rw [List.filter_eq_nil_iff]
          exact forall₂_congr fun b _ => ⟨fun h hb => ha (h hb), fun h hb => absurd hb h⟩
        rw [List.filter_cons_of_neg ha, hdropped]
        cases hfilter : l.filter p with
        | nil =>
            refine iff_of_true rfl ⟨rfl, ?_⟩
            rw [List.pairwise_iff_forall_sublist]
            intro b c hsub hc
            exact absurd hc (List.filter_eq_nil_iff.mp hfilter c (hsub.subset (by simp)))
        | cons b kept =>
            -- the filtered list would start with what was dropped
            have hb : p b = true := List.of_mem_filter (hfilter ▸ List.mem_cons_self)
            refine iff_of_false (fun h => ?_) (fun h => by cases h.1)
            rw [List.length_cons, List.take_succ_cons, List.cons.injEq] at h
            exact ha (h.1 ▸ hb)

lemma filter_eq_take_iff_not_zeroBefore {nHashes : List ℕ} :
    (nHashes.filter fun n => n != 0) = nHashes.take (nHashes.filter fun n => n != 0).length ↔
      ¬ZeroBefore nHashes := by
  rw [filter_eq_take_iff, List.pairwise_iff_getElem]
  constructor
  · rintro h ⟨i, j, hij, hzero, n, hn, hne⟩
    obtain ⟨hi, hi0⟩ := List.getElem?_eq_some_iff.mp hzero
    obtain ⟨hj, rfl⟩ := List.getElem?_eq_some_iff.mp hn
    have hkept := h i j hi hj hij (bne_iff_ne.mpr hne)
    exact absurd hi0 (bne_iff_ne.mp hkept)
  · intro h i j hi hj hij hkept
    refine bne_iff_ne.mpr fun hzero => h ⟨i, j, hij, ?_, nHashes[j], ?_, bne_iff_ne.mp hkept⟩
    · rw [List.getElem?_eq_getElem hi, hzero]
    · exact List.getElem?_eq_getElem hj

/-! ## What is written -/

/-- The inputs that are not empty. -/
def liveInputs (roots nHashes : List ℕ) : List (ℕ × ℕ) :=
  (roots.zip nHashes).take (nHashes.filter fun n => n != 0).length

/-- A zero is read as the first root. -/
def rootOr (first root : ℕ) : ℕ := if root = 0 then first else root

def readInput (first : ℕ) (input : ℕ × ℕ) : ℕ × ℕ := (rootOr first input.1, input.2)

/-- The entry of a later input. -/
def jsonOf (first : ℕ) (input : ℕ × ℕ) : InputCommitmentSerializedJSON :=
  { root := if input.1 = first then none else some (leBytes 32 input.1)
    nullifier_hash := leBytes 32 input.2 }

/-- The entries of inputs. -/
def jsonsOf : List (ℕ × ℕ) → List InputCommitmentSerializedJSON
  | [] => []
  | (first, nHash) :: rest => { root := some (leBytes 32 first), nullifier_hash := leBytes 32 nHash } ::
      rest.map fun input => jsonOf first (readInput first input)

/-- The inputs of entries; without a root it is the first one. -/
def readInputs (json : List InputCommitmentSerializedJSON) : List (ℕ × ℕ) :=
  let firstRoot := (json.head?.bind InputCommitmentSerializedJSON.root).getD []
  json.map fun comm => (ofLeBytes (comm.root.getD firstRoot), ofLeBytes comm.nullifier_hash)

/-- Both numbers are in the range of their field. -/
def FitsU256 (input : ℕ × ℕ) : Prop := input.1 < 256 ^ 32 ∧ input.2 < 256 ^ 32

lemma length_jsonsOf (inputs : List (ℕ × ℕ)) : (jsonsOf inputs).length = inputs.length := by
  cases inputs with
  | nil => rfl
  | cons input rest => rw [jsonsOf, List.length_cons, List.length_map, List.length_cons]

lemma FitsU256.readInput {first : ℕ} (hfirst : first < 256 ^ 32) {input : ℕ × ℕ} (h : FitsU256 input) :
    FitsU256 (readInput first input) := by
  refine ⟨?_, h.2⟩
  dsimp only [ElusivSdk.readInput, rootOr]
  split_ifs
  · exact hfirst
  · exact h.1

/-- **The inputs are read back.** -/
lemma readInputs_jsonsOf {first nHash : ℕ} {rest : List (ℕ × ℕ)} (hne : first ≠ 0)
    (hfits : ∀ input ∈ (first, nHash) :: rest, FitsU256 input) :
    readInputs (jsonsOf ((first, nHash) :: rest)) = ((first, nHash) :: rest).map (readInput first) := by
  have hhead := hfits _ List.mem_cons_self
  have hself : rootOr first first = first := if_neg hne
  rw [jsonsOf, readInputs, List.map_cons, List.map_cons, readInput, hself, List.map_map]
  refine congrArg₂ List.cons ?_ (List.map_congr_left fun input hinput => ?_)
  · exact Prod.ext (ofLeBytes_leBytes hhead.1) (ofLeBytes_leBytes hhead.2)
  · have hinput := (hfits _ (List.mem_cons_of_mem _ hinput)).readInput hhead.1
    refine Prod.ext ?_ (ofLeBytes_leBytes hinput.2)
    dsimp only [Function.comp_apply, jsonOf, List.head?_cons, Option.bind_some, Option.getD_some]
    split_ifs with hfirst
    · rw [hfirst]
      exact ofLeBytes_leBytes hhead.1
    · exact ofLeBytes_leBytes hinput.1

/-! ## The two writers -/

/-- The package writes a number that fits the field in its bytes. -/
def Serialization.WritesU256 (serialization : Serialization) : Prop :=
  ∀ n < 256 ^ 32, (serialization.bigIntToUint8ArrLE n).length ≤ 32

section

variable {serialization : Serialization} (hs : serialization.WritesU256)

include hs

lemma serializeU256BigInt_of_lt {n : ℕ} (hn : n < 256 ^ 32) :
    serialization.serializeU256BigInt n = .ok (leBytes 32 n) := by
  have hok : serialization.serializeU256BigInt n
      = .ok (padLE (serialization.bigIntToUint8ArrLE n) 32) := by
    rw [Serialization.serializeU256BigInt]
    exact if_neg (not_lt.mpr (hs n hn))
  rw [hok, serialization.serializeU256BigInt_eq hok]

lemma serializeNHashes_eq {nHashes : List ℕ} (hfits : ∀ n ∈ nHashes, n < 256 ^ 32) :
    (ZeroBefore nHashes ∧
      serialization.serializeNHashes nHashes = .error (.error "Empty nHashes must be at the end")) ∨
    (¬ZeroBefore nHashes ∧ serialization.serializeNHashes nHashes
      = .ok ((nHashes.take (nHashes.filter fun n => n != 0).length).map (leBytes 32))) := by
  by_cases hzero : ZeroBefore nHashes
  · refine .inl ⟨hzero, ?_⟩
    rw [Serialization.serializeNHashes]
    exact if_pos fun h => filter_eq_take_iff_not_zeroBefore.mp h hzero
  · have hfilter := filter_eq_take_iff_not_zeroBefore.mpr hzero
    refine .inr ⟨hzero, ?_⟩
    rw [Serialization.serializeNHashes]
    refine (if_neg (not_not.mpr hfilter)).trans ?_
    rw [mapM_of_ok fun n hn => serializeU256BigInt_of_lt hs (hfits n (List.mem_of_mem_filter hn))]
    exact congrArg (fun kept => Except.ok (kept.map (leBytes 32))) hfilter

lemma serializeRoots_eq {first : ℕ} {rest : List ℕ} (hfits : ∀ root ∈ first :: rest, root < 256 ^ 32) :
    serialization.serializeRoots (first :: rest) = .ok (some (leBytes 32 first) ::
      rest.map fun root => if root = 0 ∨ root = first then none else some (leBytes 32 root)) := by
  rw [Serialization.serializeRoots,
    bind_of_ok (serializeU256BigInt_of_lt hs (hfits first List.mem_cons_self)),
    bind_of_ok (mapM_of_ok (g := fun root => if root = 0 ∨ root = first then none
      else some (leBytes 32 root)) fun root hroot => ?_)]
  · rfl
  · split_ifs
    · rfl
    · rw [serializeU256BigInt_of_lt hs (hfits root (List.mem_cons_of_mem _ hroot))]
      rfl

omit hs in
/-- The entries of the later inputs, root by root. -/
lemma mapIdx_eq_map_jsonOf (first : ℕ) : ∀ (roots nHashes : List ℕ),
    roots.length = nHashes.length → ∀ k,
    ((nHashes.take k).map (leBytes 32)).mapIdx (fun i nHash =>
      ({ root := (roots.map fun root => if root = 0 ∨ root = first then none
            else some (leBytes 32 root))[i]?.join, nullifier_hash := nHash } : InputCommitmentSerializedJSON))
      = ((roots.zip nHashes).take k).map fun input => jsonOf first (readInput first input)
  | [], [], _, k => by simp
  | root :: roots, nHash :: nHashes, hlen, 0 => rfl
  | root :: roots, nHash :: nHashes, hlen, k + 1 => by
      have hroot : (if root = 0 ∨ root = first then none else some (leBytes 32 root))
          = (jsonOf first (readInput first (root, nHash))).root := by
        dsimp only [jsonOf, readInput, rootOr]
        by_cases hzero : root = 0
        · rw [if_pos (.inl hzero), if_pos hzero, if_pos rfl]
        · rw [if_neg hzero]
          simp only [hzero, false_or]
      simp only [List.take_succ_cons, List.map_cons, List.mapIdx_cons, List.zip_cons_cons,
        List.getElem?_cons_zero, List.getElem?_cons_succ, Option.join_some, hroot]
      exact congrArg (List.cons _) (mapIdx_eq_map_jsonOf first roots nHashes (Nat.succ.inj hlen) k)

/-- What the first writer writes. -/
lemma serializeInputCommitments_eq {first : ℕ} {roots nHashes : List ℕ}
    (hlen : (first :: roots).length = nHashes.length)
    (hroots : ∀ root ∈ first :: roots, root < 256 ^ 32) (hhashes : ∀ n ∈ nHashes, n < 256 ^ 32) :
    (ZeroBefore nHashes ∧ serialization.serializeInputCommitments (first :: roots) nHashes
      = .error (.error "Empty nHashes must be at the end")) ∨
    (¬ZeroBefore nHashes ∧ serialization.serializeInputCommitments (first :: roots) nHashes
      = .ok (jsonsOf (liveInputs (first :: roots) nHashes))) := by
  rcases serializeNHashes_eq hs hhashes with ⟨hzero, herror⟩ | ⟨hzero, hok⟩
  · refine .inl ⟨hzero, ?_⟩
    rw [Serialization.serializeInputCommitments, herror]
    rfl
  · refine .inr ⟨hzero, ?_⟩
    rw [Serialization.serializeInputCommitments, bind_of_ok hok, bind_of_ok (serializeRoots_eq hs hroots)]
    refine congrArg Except.ok ?_
    rw [liveInputs]
    generalize (nHashes.filter fun n => n != 0).length = k
    cases nHashes with
    | nil => exact absurd hlen (Nat.succ_ne_zero _)
    | cons nHash nHashes =>
        cases k with
        | zero => rfl
        | succ k =>
            rw [List.take_succ_cons, List.map_cons, List.mapIdx_cons, List.zip_cons_cons,
              List.take_succ_cons, jsonsOf, ← mapIdx_eq_map_jsonOf first roots nHashes (Nat.succ.inj hlen) k]
            rfl

omit hs in
/-- Roots in range are told apart by their bytes. -/
lemma compress_eq_jsonOf {first : ℕ} (hfirst : first < 256 ^ 32) {input : ℕ × ℕ}
    (hinput : FitsU256 input) :
    (if (if input.1 = 0 then none else some (leBytes 32 input.1)) = some (leBytes 32 first) then
        ({ root := none, nullifier_hash := leBytes 32 input.2 } : InputCommitmentSerializedJSON)
      else { root := if input.1 = 0 then none else some (leBytes 32 input.1)
             nullifier_hash := leBytes 32 input.2 }) = jsonOf first (readInput first input) := by
  dsimp only [jsonOf, readInput, rootOr]
  by_cases hzero : input.1 = 0
  · simp only [hzero, if_true, ite_self]
  · simp only [if_neg hzero, Option.some_inj]
    by_cases heq : input.1 = first
    · rw [heq, if_pos rfl, if_pos rfl]
    · have hbytes : leBytes 32 input.1 ≠ leBytes 32 first := fun h => heq <| by
        rw [← ofLeBytes_leBytes hinput.1, h, ofLeBytes_leBytes hfirst]
      rw [if_neg hbytes, if_neg heq]

lemma InputCommitmentBorsh.serializeJSON_eq {comm : InputCommitmentBorsh}
    (hfits : FitsU256 (comm.root.getD 0, comm.nullifier_hash)) :
    comm.serializeJSON serialization = .ok
      { root := if comm.root.getD 0 = 0 then none else some (leBytes 32 (comm.root.getD 0))
        nullifier_hash := leBytes 32 comm.nullifier_hash } := by
  have hhash := serializeU256BigInt_of_lt hs hfits.2
  rw [InputCommitmentBorsh.serializeJSON]
  cases hroot : comm.root with
  | none => exact bind_eq_ok.mpr ⟨none, rfl, bind_eq_ok.mpr ⟨_, hhash, rfl⟩⟩
  | some root =>
      rw [hroot] at hfits
      by_cases hzero : root = 0
      · subst hzero
        exact bind_eq_ok.mpr ⟨none, rfl, bind_eq_ok.mpr ⟨_, hhash, rfl⟩⟩
      · have hsome : (some <$> serialization.serializeU256BigInt root) = .ok (some (leBytes 32 root)) := by
          have hok : serialization.serializeU256BigInt root = .ok (leBytes 32 root) :=
            serializeU256BigInt_of_lt hs hfits.1
          rw [hok]
          rfl
        dsimp only
        rw [if_neg hzero, bind_of_ok hsome, Option.getD_some, if_neg hzero]
        exact bind_eq_ok.mpr ⟨_, hhash, rfl⟩

end

/-- The commitments of a join split are these inputs; where it is the first one, a later root can be left
out. -/
structure JoinSplitBorsh.Has (joinSplit : JoinSplitBorsh) (first : ℕ) (inputs : List (ℕ × ℕ)) : Prop where
  firstRoot : ∀ comm ∈ joinSplit.input_commitments.head?, comm.root = some first
  inputs_eq : joinSplit.input_commitments.map (fun comm =>
    readInput first (comm.root.getD 0, comm.nullifier_hash)) = inputs.map (readInput first)

namespace JoinSplitBorsh.Has

variable {joinSplit : JoinSplitBorsh} {first : ℕ} {inputs : List (ℕ × ℕ)}

lemma nHashes_eq (h : joinSplit.Has first inputs) :
    joinSplit.input_commitments.map InputCommitmentBorsh.nullifier_hash = inputs.map Prod.snd := by
  have hsnd := congrArg (List.map Prod.snd) h.inputs_eq
  rw [List.map_map, List.map_map] at hsnd
  exact hsnd

/-- What is in the join split is in range, as the inputs are. -/
lemma fits (h : joinSplit.Has first inputs) (hfirst : first < 256 ^ 32)
    (hfits : ∀ input ∈ inputs, FitsU256 input) {comm : InputCommitmentBorsh}
    (hcomm : comm ∈ joinSplit.input_commitments) :
    FitsU256 (comm.root.getD 0, comm.nullifier_hash) := by
  have hmem := List.mem_map_of_mem (f := fun comm : InputCommitmentBorsh =>
    readInput first (comm.root.getD 0, comm.nullifier_hash)) hcomm
  rw [h.inputs_eq] at hmem
  obtain ⟨input, hinput, heq⟩ := List.mem_map.mp hmem
  have hread := (hfits input hinput).readInput hfirst
  rw [heq] at hread
  refine ⟨?_, hread.2⟩
  have hroot : rootOr first (comm.root.getD 0) < 256 ^ 32 := hread.1
  rw [rootOr] at hroot
  split_ifs at hroot with hzero
  · rw [hzero]
    exact Nat.pow_pos (by decide)
  · exact hroot

end JoinSplitBorsh.Has

/-- What the second writer writes for at least one input. -/
lemma JoinSplitBorsh.serializeComms_eq {serialization : Serialization} (hs : serialization.WritesU256)
    {joinSplit : JoinSplitBorsh} {first nHash : ℕ} {rest : List (ℕ × ℕ)} (hne : first ≠ 0)
    (hfits : ∀ input ∈ (first, nHash) :: rest, FitsU256 input)
    (hnonzero : ∀ input ∈ (first, nHash) :: rest, input.2 ≠ 0)
    (h : joinSplit.Has first ((first, nHash) :: rest)) :
    joinSplit.serializeComms serialization = .ok (jsonsOf ((first, nHash) :: rest)) := by
  have hfirst := (hfits _ List.mem_cons_self).1
  have hfilter : ((joinSplit.input_commitments.map InputCommitmentBorsh.nullifier_hash).filter
      fun n => n != 0) = joinSplit.input_commitments.map InputCommitmentBorsh.nullifier_hash := by
    rw [h.nHashes_eq, List.filter_eq_self]
    intro n hn
    obtain ⟨input, hinput, rfl⟩ := List.mem_map.mp hn
    exact bne_iff_ne.mpr (hnonzero input hinput)
  have hall := fun comm hcomm =>
    @InputCommitmentBorsh.serializeJSON_eq serialization hs comm (h.fits hfirst hfits hcomm)
  rw [serializeComms]
  refine (if_neg (not_not.mpr ?_)).trans ?_
  · rw [hfilter, List.take_length]
  rw [bind_of_ok (mapM_of_ok hall)]
  have heq := h.inputs_eq
  have hroot := h.firstRoot
  have hin := fun comm (hcomm : comm ∈ joinSplit.input_commitments) => h.fits hfirst hfits hcomm
  generalize joinSplit.input_commitments = comms at heq hroot hin
  cases comms with
  | nil => cases heq
  | cons comm comms =>
      obtain ⟨hhead, htail⟩ := List.cons_eq_cons.mp heq
      have hcomm : comm.root = some first := hroot comm rfl
      have hhash : comm.nullifier_hash = nHash := congrArg Prod.snd hhead
      rw [List.map_cons, hcomm, hhash, Option.getD_some, if_neg hne]
      refine congrArg Except.ok (congrArg (List.cons _) ?_)
      have hrest : rest.map (fun input => jsonOf first (readInput first input))
          = (rest.map (readInput first)).map (jsonOf first) := by rw [List.map_map]; rfl
      rw [hrest, ← htail, List.map_map, List.map_map]
      exact List.map_congr_left fun c hc =>
        compress_eq_jsonOf hfirst (hin c (List.mem_cons_of_mem _ hc))

lemma map_snd_liveInputs {roots nHashes : List ℕ} (hlen : roots.length = nHashes.length) :
    (liveInputs roots nHashes).map Prod.snd = nHashes.take (nHashes.filter fun n => n != 0).length := by
  rw [liveInputs, List.map_take, List.map_snd_zip hlen.ge]

lemma fits_of_mem_liveInputs {roots nHashes : List ℕ} (hroots : ∀ root ∈ roots, root < 256 ^ 32)
    (hhashes : ∀ n ∈ nHashes, n < 256 ^ 32) : ∀ input ∈ liveInputs roots nHashes, FitsU256 input := by
  intro input hinput
  have hmem := List.mem_of_mem_take hinput
  exact ⟨hroots _ (List.of_mem_zip hmem).1, hhashes _ (List.of_mem_zip hmem).2⟩

lemma length_liveInputs {roots nHashes : List ℕ} (hlen : roots.length = nHashes.length) :
    (liveInputs roots nHashes).length = (nHashes.filter fun n => n != 0).length := by
  rw [liveInputs, List.length_take, List.length_zip, hlen, min_self]
  exact min_eq_left (List.length_filter_le _ _)

lemma ne_zero_of_mem_liveInputs {roots nHashes : List ℕ} (hlen : roots.length = nHashes.length)
    (hzero : ¬ZeroBefore nHashes) : ∀ input ∈ liveInputs roots nHashes, input.2 ≠ 0 := by
  intro input hinput
  have hmem := List.mem_map_of_mem (f := Prod.snd) hinput
  rw [map_snd_liveInputs hlen, ← filter_eq_take_iff_not_zeroBefore.mpr hzero] at hmem
  exact bne_iff_ne.mp (List.of_mem_filter (p := fun n => n != 0) hmem)

/-- The first input comes with the first root. -/
lemma liveInputs_cons (root : ℕ) (roots nHashes : List ℕ) : liveInputs (root :: roots) nHashes = [] ∨
    ∃ nHash rest, liveInputs (root :: roots) nHashes = (root, nHash) :: rest := by
  rw [liveInputs]
  cases nHashes with
  | nil => exact .inl rfl
  | cons nHash nHashes =>
      cases ((nHash :: nHashes).filter fun n => n != 0).length with
      | zero => exact .inl rfl
      | succ k => exact .inr ⟨nHash, (roots.zip nHashes).take k, rfl⟩

/-- Without inputs the second writer throws. -/
lemma JoinSplitBorsh.serializeComms_of_nil {serialization : Serialization} {joinSplit : JoinSplitBorsh}
    (h : joinSplit.input_commitments = []) : joinSplit.serializeComms serialization = .error .typeError := by
  rw [serializeComms, h]
  rfl

/-- **The input commitments of the JSON.**  The first writer throws exactly when a zero comes before another
hash; otherwise there is an entry for each hash that is not zero, the hashes and roots are read back, and
the second writer, on the same commitments, goes on with the same entries if there are any, and throws if
there is none. -/
theorem serializeInputCommitments_spec {serialization : Serialization} (hs : serialization.WritesU256)
    {roots nHashes : List ℕ} (hlen : roots.length = nHashes.length) {first : ℕ}
    (hfirst : roots.head? = some first) (hne : first ≠ 0) (hroots : ∀ root ∈ roots, root < 256 ^ 32)
    (hhashes : ∀ n ∈ nHashes, n < 256 ^ 32) :
    ((∃ failure, serialization.serializeInputCommitments roots nHashes = .error failure) ↔
      ZeroBefore nHashes) ∧
    (¬ZeroBefore nHashes → ∃ json, serialization.serializeInputCommitments roots nHashes = .ok json ∧
      json.length = (nHashes.filter fun n => n != 0).length ∧
      readInputs json = (liveInputs roots nHashes).map (readInput first) ∧
      (liveInputs roots nHashes).map Prod.snd = nHashes.take json.length ∧
      (liveInputs roots nHashes).map Prod.fst = roots.take json.length ∧
      ∀ joinSplit : JoinSplitBorsh, joinSplit.Has first (liveInputs roots nHashes) →
        joinSplit.serializeJSON serialization = if json = [] then .error .typeError
          else joinSplit.withComms serialization json) := by
  cases roots with
  | nil => cases hfirst
  | cons root roots =>
      obtain rfl := Option.some.inj hfirst
      have hfits := fits_of_mem_liveInputs hroots hhashes
      rcases serializeInputCommitments_eq hs hlen hroots hhashes with ⟨hzero, herror⟩ | ⟨hzero, hok⟩
      · exact ⟨iff_of_true ⟨_, herror⟩ hzero, fun h => absurd hzero h⟩
      · refine ⟨iff_of_false (fun ⟨failure, h⟩ => ?_) hzero, fun _ => ?_⟩
        · rw [hok] at h
          contradiction
        · have hlength : (jsonsOf (liveInputs (root :: roots) nHashes)).length
              = (nHashes.filter fun n => n != 0).length := by
            rw [length_jsonsOf, length_liveInputs hlen]
          have hfst : (liveInputs (root :: roots) nHashes).map Prod.fst
              = (root :: roots).take (nHashes.filter fun n => n != 0).length := by
            rw [liveInputs, List.map_take, List.map_fst_zip hlen.le]
          refine ⟨_, hok, hlength, ?_, ?_, ?_, fun joinSplit h => ?_⟩
          · rcases liveInputs_cons root roots nHashes with hnil | ⟨nHash, rest, hcons⟩
            · rw [hnil]
              rfl
            · rw [hcons] at hfits ⊢
              exact readInputs_jsonsOf hne hfits
          · rw [hlength, map_snd_liveInputs hlen]
          · rw [hlength, hfst]
          · rw [JoinSplitBorsh.serializeJSON]
            have hnonzero := ne_zero_of_mem_liveInputs hlen hzero
            rcases liveInputs_cons root roots nHashes with hnil | ⟨nHash, rest, hcons⟩
            · rw [hnil] at h ⊢
              rw [JoinSplitBorsh.serializeComms_of_nil (List.map_eq_nil_iff.mp h.inputs_eq)]
              rfl
            · rw [hcons] at h hfits hnonzero ⊢
              rw [bind_of_ok (JoinSplitBorsh.serializeComms_eq hs hne hfits hnonzero h)]
              rfl

lemma plainSerialization_writesU256 : plainSerialization.WritesU256 := by
  intro n hn
  have hbytes : plainSerialization.bigIntToUint8ArrLE n = leBytes 32 n := if_pos hn
  rw [hbytes, length_leBytes]

/-- A join split of which only the inputs matter. -/
def joinSplitOf (comms : List InputCommitmentBorsh) : JoinSplitBorsh :=
  { input_commitments := comms
    output_commitment := 3
    recent_commitment_index := 0
    fee_version := 0
    amount := 1
    fee := 1
    optional_fee := ⟨ElusivTransaction.bareKey 0, 0⟩
    token_id := 0
    metadata := List.replicate COMMITMENT_METADATA_LENGTH 0 }

/-- Two inputs, the second of them without a root. -/
theorem serializeInputCommitments_spec_two : ∃ json,
    plainSerialization.serializeInputCommitments [5, 0, 7] [1, 2, 0] = .ok json ∧ json.length = 2 ∧
      readInputs json = [(5, 1), (5, 2)] ∧
      (joinSplitOf [⟨some 5, 1⟩, ⟨none, 2⟩]).serializeJSON plainSerialization
        = (joinSplitOf [⟨some 5, 1⟩, ⟨none, 2⟩]).withComms plainSerialization json := by
  have hroots : ∀ root ∈ [5, 0, 7], root < 256 ^ 32 := by decide
  have hhashes : ∀ n ∈ [1, 2, 0], n < 256 ^ 32 := by decide
  obtain ⟨json, hok, hlen, hread, -, -, hjson⟩ := (@serializeInputCommitments_spec plainSerialization
    plainSerialization_writesU256 [5, 0, 7] [1, 2, 0] rfl 5 rfl (by decide) hroots hhashes).2
    (filter_eq_take_iff_not_zeroBefore.mp rfl)
  refine ⟨json, hok, hlen, hread, ?_⟩
  have hhas : (joinSplitOf [⟨some 5, 1⟩, ⟨none, 2⟩]).Has 5 (liveInputs [5, 0, 7] [1, 2, 0]) :=
    ⟨fun comm hcomm => Option.some.inj hcomm ▸ rfl, rfl⟩
  rw [hjson _ hhas, if_neg]
  rintro rfl
  cases hlen

/-- Without a hash nothing is written, and the join split without inputs cannot be written. -/
theorem serializeInputCommitments_disagrees_without_inputs :
    ¬ZeroBefore [0] ∧ plainSerialization.serializeInputCommitments [1] [0] = .ok [] ∧
      liveInputs [1] [0] = [] ∧
      (joinSplitOf []).serializeJSON plainSerialization = .error .typeError := by
  refine ⟨filter_eq_take_iff_not_zeroBefore.mp rfl, ?_, rfl, rfl⟩
  rcases @serializeInputCommitments_eq plainSerialization plainSerialization_writesU256 1 [] [0] rfl
    (by decide) (by decide) with ⟨hzero, -⟩ | ⟨-, hok⟩
  · exact absurd hzero (filter_eq_take_iff_not_zeroBefore.mp rfl)
  · exact hok

end ElusivSdk
