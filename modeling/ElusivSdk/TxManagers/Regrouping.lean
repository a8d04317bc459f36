import ElusivSdk.TxManagers.IdentifierTxFetcher

/-!
# Regrouping the answers of a node

The signatures of all nonces are asked for in one call, and the answers are cut back by running offsets.
Here the node may answer each question as it likes, with null as well.

* `BatchConnection` — a node that answers all questions of a call, in their order.
* `handedToConverter` — the groups that are converted, with the offsets of the source.
* `questions`, `answersTo`, `groupOf` — the groups without offsets: an answer belongs to the nonce whose
  signature was asked for.
* **`getTxsFromNonces_hands_groups`** — what is converted are these groups, in the order of the request.
-/

namespace ElusivSdk

open Program

/-- What a node answers to a call; it answers every question, some with null. -/
structure BatchConnection where
  getConfirmedSignaturesForAddress2 : PublicKey → List ConfirmedSignatureInfo
  getParsedTransactions : List String → List (Option ParsedTransactionWithMeta)
  length_getParsedTransactions : ∀ sigs, (getParsedTransactions sigs).length = sigs.length

/-- A node that answers the same question always alike. -/
def RPCConnection.toBatchConnection (conn : RPCConnection) : BatchConnection where
  getConfirmedSignaturesForAddress2 := conn.getConfirmedSignaturesForAddress2
  getParsedTransactions := conn.getParsedTransactions
  length_getParsedTransactions _ := List.length_map _

namespace BatchConnection

variable (conn : BatchConnection)

/-- Failed transactions are left out. -/
def getTxSigsForIdKeyFromBlockchain (idKey : PublicKey) : List ConfirmedSignatureInfo :=
  (conn.getConfirmedSignaturesForAddress2 idKey).filter fun sig => sig.err.isNone

end BatchConnection

namespace IdentifierTxFetcher

section

variable (rvk : RVKWrapper) (conn : BatchConnection)

/-- The signatures of a nonce.  The array of keys has holes where a nonce is cached, and `hole` is what is
found there. -/
def identifiedSig (hole : ℕ → PublicKey) (n : ℕ × Bool) : IdentifiedSigs :=
  { sigs := if n.2 then [] else conn.getTxSigsForIdKeyFromBlockchain (rvk.getIdentifierKey n.1)
    nonce := n.1
    idKey := if n.2 then hole n.1 else rvk.getIdentifierKey n.1 }

def identifiedSigs (hole : ℕ → PublicKey) (nonces : List (ℕ × Bool)) : List IdentifiedSigs :=
  nonces.map (identifiedSig rvk conn hole)

/-- The groups of responses that are converted. -/
def handedToConverter (sigs : List IdentifiedSigs) : Except Failure (List NoncedTxResponse) :=
  if sigs.length = 0 then .ok []
  else
    let preparedSigs := (sigs.flatMap IdentifiedSigs.sigs).map ConfirmedSignatureInfo.signature
    if preparedSigs.length = 0 then .ok []
    else do
      let realTxs := conn.getParsedTransactions preparedSigs
      let totalTxResponses ← ((txRanges 0 sigs).zip sigs).mapM fun p => groupResponses realTxs p.1 p.2
      .ok ((totalTxResponses.filterMap id).filter fun tx => tx.txResponse.length != 0)

/-! ## Groups without offsets -/

/-- All questions, each with the position of the nonce that it is asked for. -/
def questions (nonces : List (ℕ × Bool)) : List (ℕ × ConfirmedSignatureInfo) :=
  nonces.zipIdx.flatMap fun n =>
    if n.1.2 then []
    else (conn.getTxSigsForIdKeyFromBlockchain (rvk.getIdentifierKey n.1.1)).map fun sig => (n.2, sig)

/-- What is answered to the questions of one position, with the signatures that were asked for. -/
def answersTo (nonces : List (ℕ × Bool)) (position : ℕ) :
    List (ConfirmedSignatureInfo × Option ParsedTransactionWithMeta) :=
  let asked := questions rvk conn nonces
  let answers := conn.getParsedTransactions (asked.map fun question => question.2.signature)
  ((asked.zip answers).filter fun answer => answer.1.1 == position).map fun answer =>
    (answer.1.2, answer.2)

/-- The group of a nonce: there is one when the nonce is not cached, has a signature of a transaction that did
not fail, and no answer is null. -/
def groupOf (nonces : List (ℕ × Bool)) (position : ℕ) (n : ℕ × Bool) : Option NoncedTxResponse :=
  let idKey := rvk.getIdentifierKey n.1
  let answers := answersTo rvk conn nonces position
  if n.2 = false ∧ conn.getTxSigsForIdKeyFromBlockchain idKey ≠ [] ∧
      ∀ answer ∈ answers, answer.2.isSome then
    some
      { txResponse := answers.filterMap fun answer => answer.2.map fun tx => ⟨tx, answer.1⟩
        nonce := n.1
        idPubKey := idKey }
  else none

end

/-! ## Cutting back -/

/-- The questions of a list of signatures. -/
def questionsFrom (n : ℕ) (sigs : List IdentifiedSigs) : List (ℕ × ConfirmedSignatureInfo) :=
  (sigs.zipIdx n).flatMap fun s => s.1.sigs.map fun sig => (s.2, sig)

/-- What is answered at one position. -/
def answersAt (position : ℕ)
    (answered : List ((ℕ × ConfirmedSignatureInfo) × Option ParsedTransactionWithMeta)) :
    List (ConfirmedSignatureInfo × Option ParsedTransactionWithMeta) :=
  (answered.filter fun answer => answer.1.1 == position).map fun answer => (answer.1.2, answer.2)

/-- The group of an entry with its answers. -/
def regroup (s : IdentifiedSigs)
    (answers : List (ConfirmedSignatureInfo × Option ParsedTransactionWithMeta)) :
    Option NoncedTxResponse :=
  if ∀ answer ∈ answers, answer.2.isSome then
    some
      { txResponse := answers.filterMap fun answer => answer.2.map fun tx => ⟨tx, answer.1⟩
        nonce := s.nonce
        idPubKey := s.idKey }
  else none

lemma questionsFrom_cons (n : ℕ) (s : IdentifiedSigs) (sigs : List IdentifiedSigs) :
    questionsFrom n (s :: sigs) = (s.sigs.map fun sig => (n, sig)) ++ questionsFrom (n + 1) sigs := by
  rw [questionsFrom, List.zipIdx_cons, List.flatMap_cons]
  rfl

/-- What is asked for is the same without positions. -/
lemma questionsFrom_snd : ∀ (n : ℕ) (sigs : List IdentifiedSigs),
    (questionsFrom n sigs).map Prod.snd = sigs.flatMap IdentifiedSigs.sigs
  | _, [] => rfl
  | n, s :: sigs => by
      rw [questionsFrom_cons, List.map_append, questionsFrom_snd (n + 1) sigs, List.flatMap_cons,
        List.map_map]
      exact congrArg (· ++ _) (List.map_id _)

/-- The questions of later entries have later positions. -/
lemma le_of_mem_questionsFrom {n : ℕ} {sigs : List IdentifiedSigs} {question : ℕ × ConfirmedSignatureInfo}
    (h : question ∈ questionsFrom n sigs) : n ≤ question.1 := by
  obtain ⟨⟨s, position⟩, hs, hquestion⟩ := List.mem_flatMap.mp h
  obtain ⟨sig, -, rfl⟩ := List.mem_map.mp hquestion
  exact (List.mem_zipIdx hs).1

lemma answersAt_append (position : ℕ)
    (first rest : List ((ℕ × ConfirmedSignatureInfo) × Option ParsedTransactionWithMeta)) :
    answersAt position (first ++ rest) = answersAt position first ++ answersAt position rest := by
  rw [answersAt, List.filter_append, List.map_append]
  rfl

/-- At the position of an entry stand the answers to its questions. -/
lemma answersAt_self (n : ℕ) : ∀ (sigs : List ConfirmedSignatureInfo)
    (answers : List (Option ParsedTransactionWithMeta)),
    answersAt n ((sigs.map fun sig => (n, sig)).zip answers) = sigs.zip answers
  | [], _ => rfl
  | _ :: _, [] => rfl
  | sig :: sigs, answer :: answers => by
      rw [List.map_cons, List.zip_cons_cons, answersAt, List.filter_cons, if_pos (beq_self_eq_true n),
        List.map_cons]
      exact congrArg _ (answersAt_self n sigs answers)

/-- There are no answers to the questions of others. -/
lemma answersAt_eq_nil {position : ℕ} {asked : List (ℕ × ConfirmedSignatureInfo)}
    (h : ∀ question ∈ asked, question.1 ≠ position) (answers : List (Option ParsedTransactionWithMeta)) :
    answersAt position (asked.zip answers) = [] := by
  have hnone : (asked.zip answers).filter (fun answer => answer.1.1 == position) = [] := by
    refine List.filter_eq_nil_iff.mpr fun answer hanswer => ?_
    rw [beq_iff_eq]
    exact h answer.1 (List.of_mem_zip (b := answer.2) hanswer).1
  rw [answersAt, hnone]
  rfl

/-- Responses that are all there are zipped with their signatures. -/
lemma zip_filterMap_id : ∀ {answers : List (Option ParsedTransactionWithMeta)}
    (_ : ∀ answer ∈ answers, answer.isSome) (sigs : List ConfirmedSignatureInfo),
    ((answers.filterMap id).zip sigs).map (fun p => (⟨p.1, p.2⟩ : SigResponse))
      = (sigs.zip answers).filterMap fun answer => answer.2.map fun tx => ⟨tx, answer.1⟩
  | [], _, [] => rfl
  | [], _, _ :: _ => rfl
  | none :: _, h, _ => absurd (h none List.mem_cons_self) (by decide)
  | some tx :: answers, h, [] => by
      rw [List.zip_nil_right]
      rfl
  | some tx :: answers, h, sig :: sigs => by
      have ih := zip_filterMap_id (fun answer hanswer => h answer (List.mem_cons_of_mem _ hanswer)) sigs
      exact congrArg (List.cons _) ih

lemma groupResponses_eq_regroup (s : IdentifiedSigs) {answers : List (Option ParsedTransactionWithMeta)}
    (hlen : answers.length = s.sigs.length) (before after : List (Option ParsedTransactionWithMeta)) :
    groupResponses (before ++ (answers ++ after)) ⟨before.length, before.length + s.sigs.length⟩ s
      = .ok (regroup s (s.sigs.zip answers)) := by
  have hall : answers.all Option.isSome = true ↔ ∀ answer ∈ s.sigs.zip answers, answer.2.isSome := by
    rw [List.all_eq_true]
    conv_lhs => rw [← List.map_snd_zip hlen.le]
    exact List.forall_mem_map
  rw [groupResponses_append s hlen, regroup]
  by_cases h : ∀ answer ∈ s.sigs.zip answers, answer.2.isSome
  · rw [if_pos h, if_pos (hall.mpr h), zip_filterMap_id (List.all_eq_true.mp (hall.mpr h))]
  · rw [if_neg h, if_neg (h ∘ hall.mp)]

/-- **The running offsets cut the answers back to the entries whose questions they answer.** -/
theorem mapM_groupResponses_eq_regroup (sigs : List IdentifiedSigs) :
    ∀ (n : ℕ) (before answers : List (Option ParsedTransactionWithMeta)),
      answers.length = (sigs.flatMap IdentifiedSigs.sigs).length →
      ((txRanges before.length sigs).zip sigs).mapM (fun p => groupResponses (before ++ answers) p.1 p.2)
        = .ok ((sigs.zipIdx n).map fun s =>
          regroup s.1 (answersAt s.2 ((questionsFrom n sigs).zip answers))) := by
  induction sigs with
  | nil => intros; rfl
  | cons s sigs ih =>
      intro n before answers hlen
      rw [List.flatMap_cons, List.length_append] at hlen
      -- the answers to this entry, and those to the others
      obtain ⟨own, rest, rfl, hown⟩ : ∃ own rest, answers = own ++ rest ∧ own.length = s.sigs.length :=
        ⟨answers.take s.sigs.length, answers.drop s.sigs.length, (List.take_append_drop _ _).symm,
          by rw [List.length_take]; omega⟩
      have hrest : rest.length = (sigs.flatMap IdentifiedSigs.sigs).length := by
        rw [List.length_append] at hlen
        omega
      have hothers := ih (n + 1) (before ++ own) rest hrest
      rw [List.length_append, hown, List.append_assoc] at hothers
      have hzip : (questionsFrom n (s :: sigs)).zip (own ++ rest)
          = (s.sigs.map fun sig => (n, sig)).zip own ++ (questionsFrom (n + 1) sigs).zip rest := by
        rw [questionsFrom_cons, List.zip_append (by rw [List.length_map, hown])]
      have hself : answersAt n ((questionsFrom n (s :: sigs)).zip (own ++ rest)) = s.sigs.zip own := by
        have hlater : ∀ question ∈ questionsFrom (n + 1) sigs, question.1 ≠ n := fun question h =>
          (Nat.lt_of_succ_le (le_of_mem_questionsFrom h)).ne'
        rw [hzip, answersAt_append, answersAt_self, answersAt_eq_nil hlater, List.append_nil]
      have hother : ∀ s' ∈ sigs.zipIdx (n + 1),
          regroup s'.1 (answersAt s'.2 ((questionsFrom n (s :: sigs)).zip (own ++ rest)))
            = regroup s'.1 (answersAt s'.2 ((questionsFrom (n + 1) sigs).zip rest)) := by
        intro s' hs'
        have hne : ∀ question ∈ s.sigs.map fun sig => (n, sig), question.1 ≠ s'.2 := by
          intro question h
          obtain ⟨sig, -, rfl⟩ := List.mem_map.mp h
          exact (Nat.lt_of_succ_le (List.mem_zipIdx hs').1).ne
        rw [hzip, answersAt_append, answersAt_eq_nil hne, List.nil_append]
      rw [txRanges, List.zip_cons_cons, List.mapM_cons, groupResponses_eq_regroup s hown, hothers,
        List.zipIdx_cons, List.map_cons, hself, List.map_congr_left hother]
      rfl

/-! ## The groups that are converted -/

/-- The questions of one position are the signatures of its entry. -/
lemma filter_questionsFrom : ∀ (n : ℕ) (sigs : List IdentifiedSigs) {s : IdentifiedSigs} {position : ℕ}
    (_ : (s, position) ∈ sigs.zipIdx n),
    ((questionsFrom n sigs).filter fun question => question.1 == position).map Prod.snd = s.sigs
  | n, s' :: sigs, s, position, h => by
      rw [questionsFrom_cons, List.filter_append, List.map_append]
      rw [List.zipIdx_cons, List.mem_cons] at h
      rcases h with heq | h
      · obtain ⟨rfl, rfl⟩ := Prod.mk.inj heq
        have hlater : (questionsFrom (position + 1) sigs).filter (fun question => question.1 == position)
            = [] := by
          refine List.filter_eq_nil_iff.mpr fun question hquestion => ?_
          rw [beq_iff_eq]
          exact (Nat.lt_of_succ_le (le_of_mem_questionsFrom hquestion)).ne'
        have hown : (s.sigs.map fun sig => (position, sig)).filter (fun question => question.1 == position)
            = s.sigs.map fun sig => (position, sig) := by
          refine List.filter_eq_self.mpr fun question hquestion => ?_
          obtain ⟨sig, -, rfl⟩ := List.mem_map.mp hquestion
          exact beq_self_eq_true position
        rw [hlater, hown, List.map_map, List.map_nil, List.append_nil]
        exact List.map_id _
      · have hearlier : (s'.sigs.map fun sig => (n, sig)).filter (fun question => question.1 == position)
            = [] := by
          refine List.filter_eq_nil_iff.mpr fun question hquestion => ?_
          obtain ⟨sig, -, rfl⟩ := List.mem_map.mp hquestion
          rw [beq_iff_eq]
          exact (Nat.lt_of_succ_le (List.mem_zipIdx h).1).ne
        rw [hearlier, List.map_nil, List.nil_append]
        exact filter_questionsFrom (n + 1) sigs h

/-- Every answer stands beside the signature that was asked for. -/
lemma answersAt_fst {sigs : List IdentifiedSigs} {s : IdentifiedSigs} {position : ℕ}
    (h : (s, position) ∈ sigs.zipIdx) {answers : List (Option ParsedTransactionWithMeta)}
    (hlen : answers.length = (questionsFrom 0 sigs).length) :
    (answersAt position ((questionsFrom 0 sigs).zip answers)).map Prod.fst = s.sigs := by
  have hasked : ((questionsFrom 0 sigs).zip answers).map Prod.fst = questionsFrom 0 sigs :=
    List.map_fst_zip hlen.ge
  rw [← filter_questionsFrom 0 sigs h]
  conv_rhs => rw [← hasked]
  rw [answersAt, List.filter_map, List.map_map, List.map_map]
  rfl

section

variable (rvk : RVKWrapper) (conn : BatchConnection) (hole : ℕ → PublicKey) (nonces : List (ℕ × Bool))

lemma zipIdx_identifiedSigs (n : ℕ) : (identifiedSigs rvk conn hole nonces).zipIdx n
    = (nonces.zipIdx n).map fun p => (identifiedSig rvk conn hole p.1, p.2) := by
  rw [identifiedSigs, List.zipIdx_map]
  rfl

lemma questions_eq : questions rvk conn nonces = questionsFrom 0 (identifiedSigs rvk conn hole nonces) := by
  rw [questions, questionsFrom, zipIdx_identifiedSigs, List.flatMap_map]
  refine List.flatMap_congr fun n _ => ?_
  dsimp only [identifiedSig]
  split_ifs <;> rfl

/-- Every answer to a nonce stands beside one of its signatures. -/
lemma answersTo_fst {position : ℕ} {n : ℕ × Bool} (h : (n, position) ∈ nonces.zipIdx) :
    (answersTo rvk conn nonces position).map Prod.fst
      = if n.2 then [] else conn.getTxSigsForIdKeyFromBlockchain (rvk.getIdentifierKey n.1) := by
  have hmem : (identifiedSig rvk conn rvk.getIdentifierKey n, position)
      ∈ (identifiedSigs rvk conn rvk.getIdentifierKey nonces).zipIdx := by
    rw [zipIdx_identifiedSigs]
    exact List.mem_map.mpr ⟨(n, position), h, rfl⟩
  rw [answersTo, questions_eq rvk conn rvk.getIdentifierKey]
  refine answersAt_fst hmem ?_
  rw [conn.length_getParsedTransactions, List.length_map]

/-- What is left of an entry is the group of its nonce; nothing is read from a hole. -/
lemma regroup_filter {position : ℕ} {n : ℕ × Bool} (h : (n, position) ∈ nonces.zipIdx) :
    (regroup (identifiedSig rvk conn hole n) (answersTo rvk conn nonces position)).filter
        (fun tx => tx.txResponse.length != 0) = groupOf rvk conn nonces position n := by
  have hfst := answersTo_fst rvk conn nonces h
  rw [regroup, groupOf]
  generalize answersTo rvk conn nonces position = answers at hfst ⊢
  rcases n with ⟨nonce, cached⟩
  cases cached with
  | true =>
      -- no question was asked
      obtain rfl := List.map_eq_nil_iff.mp hfst
      rfl
  | false =>
      have hfst : answers.map Prod.fst
        = conn.getTxSigsForIdKeyFromBlockchain (rvk.getIdentifierKey nonce) := hfst
      by_cases hall : ∀ answer ∈ answers, answer.2.isSome
      · have hlen : (answers.filterMap fun answer => answer.2.map fun tx =>
            (⟨tx, answer.1⟩ : SigResponse)).length = answers.length := by
          refine List.filterMap_length_eq_length.mpr fun answer hanswer => ?_
          rw [Option.isSome_map]
          exact hall answer hanswer
        have hsigs : conn.getTxSigsForIdKeyFromBlockchain (rvk.getIdentifierKey nonce) ≠ [] ↔
            answers.length ≠ 0 := by
          rw [← hfst, Ne, List.map_eq_nil_iff, ← List.length_eq_zero_iff]
        rw [if_pos hall, Option.filter_some, hlen]
        by_cases hne : answers.length = 0
        · rw [if_neg (by rw [hne]; decide), if_neg fun hgroup => hsigs.mp hgroup.2.1 hne]
        · rw [if_pos (bne_iff_ne.mpr hne)]
          exact (if_pos ⟨rfl, hsigs.mpr hne, hall⟩).symm
      · rw [if_neg hall, if_neg fun hgroup => hall hgroup.2.2]
        rfl

/-- A nonce without questions has no group. -/
lemma groupOf_eq_none {position : ℕ} {n : ℕ × Bool}
    (h : (identifiedSig rvk conn hole n).sigs = []) : groupOf rvk conn nonces position n = none := by
  refine if_neg fun hgroup => hgroup.2.1 ?_
  rw [identifiedSig] at h
  rwa [hgroup.1] at h

lemma questions_signatures : (questions rvk conn nonces).map (fun question => question.2.signature)
    = ((identifiedSigs rvk conn hole nonces).flatMap IdentifiedSigs.sigs).map
      ConfirmedSignatureInfo.signature := by
  rw [questions_eq rvk conn hole, ← questionsFrom_snd 0, List.map_map]
  rfl

lemma handedToConverter_eq :
    handedToConverter conn (identifiedSigs rvk conn hole nonces)
      = .ok (nonces.zipIdx.filterMap fun n => groupOf rvk conn nonces n.2 n.1) := by
  rw [handedToConverter]
  dsimp only
  split_ifs with hnil hnone
  · rw [identifiedSigs, List.length_map, List.length_eq_zero_iff] at hnil
    rw [hnil]
    rfl
  · -- no nonce in use
    rw [List.length_map, List.length_eq_zero_iff, List.flatMap_eq_nil_iff] at hnone
    have hgroups : ∀ n ∈ nonces.zipIdx, groupOf rvk conn nonces n.2 n.1 = none := fun n hn =>
      groupOf_eq_none rvk conn hole nonces
        (hnone _ (List.mem_map.mpr ⟨n.1, List.fst_mem_of_mem_zipIdx hn, rfl⟩))
    rw [List.filterMap_eq_nil_iff.mpr hgroups]
  · have hlen := conn.length_getParsedTransactions (((identifiedSigs rvk conn hole nonces).flatMap
      IdentifiedSigs.sigs).map ConfirmedSignatureInfo.signature)
    rw [List.length_map] at hlen
    have hregroup := mapM_groupResponses_eq_regroup (identifiedSigs rvk conn hole nonces) 0 [] _ hlen
    rw [List.length_nil] at hregroup
    refine (bind_of_ok hregroup _).trans (congrArg Except.ok ?_)
    rw [← questions_eq, ← questions_signatures, zipIdx_identifiedSigs, List.map_map, List.filterMap_map,
      List.filter_filterMap]
    refine List.filterMap_congr fun n hn => ?_
    exact regroup_filter rvk conn hole nonces hn

/-- A group pairs the answers to its nonce with the signatures of its nonce. -/
lemma groupOf_eq_some {position : ℕ} {n : ℕ × Bool} {group : NoncedTxResponse}
    (h : (n, position) ∈ nonces.zipIdx) (hgroup : groupOf rvk conn nonces position n = some group) :
    group.txResponse.map SigResponse.snd
        = conn.getTxSigsForIdKeyFromBlockchain (rvk.getIdentifierKey n.1) ∧
      group.txResponse.map (fun response => (response.snd, some response.fst))
        = answersTo rvk conn nonces position := by
  have hfst := answersTo_fst rvk conn nonces h
  rw [groupOf] at hgroup
  split_ifs at hgroup with hcond
  obtain ⟨hcached, -, hall⟩ := hcond
  obtain rfl := Option.some.inj hgroup
  rw [hcached] at hfst
  have hanswers : ((answersTo rvk conn nonces position).filterMap fun answer => answer.2.map fun tx =>
      (⟨tx, answer.1⟩ : SigResponse)).map (fun response => (response.snd, some response.fst))
      = answersTo rvk conn nonces position := by
    rw [List.map_filterMap]
    conv_rhs => rw [← List.filterMap_some (l := answersTo rvk conn nonces position)]
    refine List.filterMap_congr fun answer hanswer => ?_
    obtain ⟨sig, tx?⟩ := answer
    obtain ⟨tx, rfl⟩ := Option.isSome_iff_exists.mp (hall _ hanswer)
    rfl
  refine ⟨?_, hanswers⟩
  rw [← hanswers, List.map_map] at hfst
  exact hfst

end

/-- All groups are converted together. -/
def convertGroups (rvk : RVKWrapper) (accs : ProgramAccounts) (groups : List NoncedTxResponse) :
    Except Failure (List ElusivTransaction) := do
  let res ← groups.mapM (ResponseConverter.txResponseToElusivTxs rvk accs)
  .ok res.flatten

lemma getTxsFromNonces_eq_convertGroups (rvk : RVKWrapper) (accs : ProgramAccounts) (conn : RPCConnection)
    (nonces : List (ℕ × Bool)) : getTxsFromNonces rvk accs conn nonces
      = handedToConverter conn.toBatchConnection
          (identifiedSigs rvk conn.toBatchConnection rvk.getIdentifierKey nonces)
        >>= convertGroups rvk accs := by
  have hsigs : (nonces.map fun n =>
      let idKey := rvk.getIdentifierKey n.1
      ({ sigs := if n.2 then [] else conn.getTxSigsForIdKeyFromBlockchain idKey
         nonce := n.1
         idKey := idKey } : IdentifiedSigs))
      = identifiedSigs rvk conn.toBatchConnection rvk.getIdentifierKey nonces := by
    refine List.map_congr_left fun n _ => ?_
    rw [identifiedSig, ite_self]
    rfl
  rw [getTxsFromNonces, hsigs, sigsToElusivTxs, handedToConverter]
  dsimp only
  split_ifs
  · rfl
  · rfl
  · rw [bind_assoc]
    rfl

/-- **What is converted are the groups of the nonces, in the order of the request**: one for each nonce
that is not cached, has a signature of a transaction that did not fail, and misses no answer.  Its responses are
the answers to its own signatures, and its key is its own, whatever the node answers and whatever is found
in the holes of the array of keys. -/
theorem getTxsFromNonces_hands_groups (rvk : RVKWrapper) (accs : ProgramAccounts)
    (nonces : List (ℕ × Bool)) :
    (∀ conn : RPCConnection, getTxsFromNonces rvk accs conn nonces
      = handedToConverter conn.toBatchConnection
          (identifiedSigs rvk conn.toBatchConnection rvk.getIdentifierKey nonces)
        >>= convertGroups rvk accs) ∧
    ∀ conn : BatchConnection,
      (∀ hole, handedToConverter conn (identifiedSigs rvk conn hole nonces)
        = .ok (nonces.zipIdx.filterMap fun n => groupOf rvk conn nonces n.2 n.1)) ∧
      ∀ n position group, (n, position) ∈ nonces.zipIdx →
        groupOf rvk conn nonces position n = some group →
        group.txResponse.map SigResponse.snd
            = conn.getTxSigsForIdKeyFromBlockchain (rvk.getIdentifierKey n.1) ∧
          group.txResponse.map (fun response => (response.snd, some response.fst))
            = answersTo rvk conn nonces position :=
  ⟨fun conn => getTxsFromNonces_eq_convertGroups rvk accs conn nonces, fun conn =>
    ⟨fun hole => handedToConverter_eq rvk conn hole nonces, fun _ _ _ => groupOf_eq_some rvk conn nonces⟩⟩

end IdentifierTxFetcher

end ElusivSdk
