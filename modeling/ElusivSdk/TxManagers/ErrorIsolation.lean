import ElusivSdk.TxBuilding.InstructionBuilding
import ElusivSdk.TxManagers.IdentifierTxFetcher

/-!
# Nonces that cannot be converted

* `Parsed` — what every parsed transaction has: its nonce, and a status that is not `CONFIRMED`.
* `Readable` — every nonce converts; then the node's answers are a `History`
  (**`Readable.getTxsFromNonces_eq`**), which is how the managers see the chain.
* `isolated` — what should come back when some nonces do not convert.
* **`fetchAndCache_isolates_iff`** — it comes back exactly when every nonce that is asked for converts:
  a single other one takes all with it.
-/

namespace ElusivSdk

open Program TransactionParsing ResponseConverter IdentifierTxFetcher

/-! ## What is parsed -/

/-- A transaction that was parsed under the nonce. -/
structure Parsed (nonce : ℕ) (tx : ElusivTransaction) : Prop where
  nonce_eq : tx.nonce = nonce
  not_confirmed : tx.transactionStatus ≠ some .CONFIRMED

lemma parsed_of_tryParseRawStore {storeTx : ParsedMessage} {cpis : List ParsedInnerInstruction}
    {signature : ConfirmedSignatureInfo} {nonce : ℕ} {identifier : PublicKey} {rvk : RVKWrapper}
    {tx : ElusivTransaction}
    (h : tryParseRawStore storeTx cpis signature nonce identifier rvk = .ok tx) : Parsed nonce tx := by
  rw [tryParseRawStore] at h
  rcases bind_eq_ok.mp h with ⟨ixs, -, h⟩
  cases hparts : tryParseStoreParts ixs cpis nonce rvk with
  | error e =>
      rw [hparts] at h
      cases h
  | ok parts =>
      rw [hparts] at h
      obtain rfl := Except.ok.inj h
      exact ⟨rfl, fun hstatus => by cases hstatus⟩

lemma parsed_of_tryParseRawSend {accs : ProgramAccounts} {rawSend : List ParsedMessage}
    {signature : List ConfirmedSignatureInfo} {nonce : ℕ} {identifier : PublicKey} {rvk : RVKWrapper}
    {tx : ElusivTransaction}
    (h : tryParseRawSend accs rawSend signature nonce identifier rvk = .ok tx) : Parsed nonce tx := by
  obtain ⟨initTx, -, init, finalizeData, -, sig, -, rfl⟩ :=
    tryParseRawSendFromDecryptionKey_eq_ok_iff.mp h
  refine ⟨rfl, fun hstatus => ?_⟩
  rw [sendOfParts] at hstatus
  split_ifs at hstatus <;> cases hstatus

section

variable {rvk : RVKWrapper} {accs : ProgramAccounts} {tx : NoncedTxResponse}

lemma parsed_of_txResponseToSendTx {responses : List SigResponse} {t : ElusivTransaction}
    (h : txResponseToSendTx rvk accs tx responses = .ok t) : Parsed tx.nonce t :=
  parsed_of_tryParseRawSend h

lemma parsed_of_startFinalized {elusivTx : SigResponse} {remaining : List (SigResponse × ℕ)}
    {viewed viewed' : List Bool} {sends : List (Except Failure ElusivTransaction)}
    (h : startFinalized rvk accs tx elusivTx remaining viewed = .ok (sends, viewed')) :
    ∀ t, .ok t ∈ sends → Parsed tx.nonce t := by
  intro t ht
  rw [startFinalized] at h
  split at h
  · obtain ⟨rfl, -⟩ := Prod.mk.inj (Except.ok.inj h)
    exact absurd ht List.not_mem_nil
  · rcases bind_eq_ok.mp h with ⟨initTx, -, h⟩
    cases initTx with
    | none => cases h
    | some initTx =>
        obtain ⟨rfl, -⟩ := Prod.mk.inj (Except.ok.inj h)
        exact parsed_of_txResponseToSendTx (List.mem_singleton.mp ht).symm

/-- Whatever the loop starts is the parsing of a transaction of the nonce. -/
lemma parsed_of_startParsing {responses : List (SigResponse × ℕ)} :
    ∀ {viewed : List Bool} {started : List (Except Failure ElusivTransaction)},
      startParsing rvk accs tx responses viewed = .ok started →
      ∀ t, .ok t ∈ started → Parsed tx.nonce t := by
  induction responses with
  | nil =>
      intro viewed started h t ht
      obtain rfl := Except.ok.inj h
      exact absurd ht List.not_mem_nil
  | cons head rest ih =>
      intro viewed started h t ht
      rcases head with ⟨elusivTx, i⟩
      rw [startParsing] at h
      split_ifs at h with hviewed
      · exact ih h t ht
      · rcases bind_eq_ok.mp h with ⟨⟨sends, viewed'⟩, hsends, h⟩
        rcases bind_eq_ok.mp h with ⟨others, hothers, h⟩
        obtain rfl := Except.ok.inj h
        rw [List.mem_append, List.mem_append, List.mem_append] at ht
        rcases ht with ((ht | ht) | ht) | ht
        · rw [startStore] at ht
          split_ifs at ht
          · exact parsed_of_tryParseRawStore (List.mem_singleton.mp ht).symm
          · exact absurd ht List.not_mem_nil
        · exact parsed_of_startFinalized hsends t ht
        · rw [startPending] at ht
          split_ifs at ht
          · exact parsed_of_txResponseToSendTx (List.mem_singleton.mp ht).symm
          · exact absurd ht List.not_mem_nil
        · exact ih hothers t ht

lemma parsed_of_txResponseToElusivTxs {txs : List ElusivTransaction}
    (h : txResponseToElusivTxs rvk accs tx = .ok txs) : ∀ t ∈ txs, Parsed tx.nonce t := by
  intro t ht
  rw [txResponseToElusivTxs] at h
  split_ifs at h with hnil
  rcases bind_eq_ok.mp h with ⟨started, hstarted, h⟩
  split_ifs at h with hstartedNil
  rcases List.forall₂_iff_get.mp (forall₂_of_mapM_eq_ok h) with ⟨hlen, hget⟩
  rcases List.mem_iff_get.mp ht with ⟨i, rfl⟩
  have hi : i.1 < started.length := by
    rw [hlen]
    exact i.2
  refine parsed_of_startParsing hstarted _ ?_
  rw [← hget i.1 hi i.2]
  exact List.get_mem started ⟨i.1, hi⟩

end

lemma parsed_of_convertNonce {rvk : RVKWrapper} {accs : ProgramAccounts} {conn : RPCConnection}
    {nonce : ℕ} {txs : List ElusivTransaction} (h : convertNonce rvk accs conn nonce = .ok txs) :
    ∀ tx ∈ txs, Parsed nonce tx := by
  intro tx htx
  rw [convertNonce, convertSigs] at h
  cases hresp : responsesOf conn ⟨conn.getTxSigsForIdKeyFromBlockchain (rvk.getIdentifierKey nonce),
      nonce, rvk.getIdentifierKey nonce⟩ with
  | none =>
      rw [hresp] at h
      obtain rfl := Except.ok.inj h
      exact absurd htx List.not_mem_nil
  | some resp =>
      rw [hresp] at h
      have hnonce : resp.nonce = nonce := by
        rw [responsesOf] at hresp
        rcases Option.bind_eq_some_iff.mp hresp with ⟨r, -, hr⟩
        rw [← Option.some.inj hr]
      dsimp only at h
      split_ifs at h with hnil
      · obtain rfl := Except.ok.inj h
        exact absurd htx List.not_mem_nil
      · rw [← hnonce]
        exact parsed_of_txResponseToElusivTxs h tx htx

/-! ## The node's answers as a history -/

section

variable (rvk : RVKWrapper) (accs : ProgramAccounts) (conn : RPCConnection)

/-- Every nonce converts, and the nonces in use end at `length`. -/
structure Readable (length : ℕ) (txsAt : ℕ → List ElusivTransaction) : Prop where
  converts : ∀ n, convertNonce rvk accs conn n = .ok (txsAt n)
  newest : ∀ n, length = n + 1 → txsAt n ≠ []
  unused : ∀ n, length ≤ n → txsAt n = []

variable {rvk accs conn}

/-- What the managers see of a readable chain. -/
def Readable.history {length : ℕ} {txsAt : ℕ → List ElusivTransaction}
    (h : Readable rvk accs conn length txsAt) : History where
  txsAt := txsAt
  length := length
  nonce_eq n tx htx := (parsed_of_convertNonce (h.converts n) tx htx).nonce_eq
  ne_nil_of_newest := h.newest
  eq_nil_of_length_le := h.unused
  not_confirmed n tx htx := (parsed_of_convertNonce (h.converts n) tx htx).not_confirmed

/-- **On a readable chain the fetcher answers from the history.** -/
theorem Readable.getTxsFromNonces_eq {length : ℕ} {txsAt : ℕ → List ElusivTransaction}
    (h : Readable rvk accs conn length txsAt) :
    getTxsFromNonces rvk accs conn = h.history.fetcher := by
  funext nonces
  rw [IdentifierTxFetcher.getTxsFromNonces_eq, flatMapM_of_ok fun n _ => h.converts n.1]
  show _ = Except.ok (h.history.fetch nonces)
  rw [History.fetch]
  congr 1
  induction nonces with
  | nil => rfl
  | cons n nonces ih =>
      rw [List.flatMap_cons, ← ih]
      cases hn : n.2 with
      | true => rw [List.filter_cons_of_neg (by simp [hn])]; rfl
      | false =>
          rw [List.filter_cons_of_pos (by simp [hn]), List.flatMap_cons]
          rfl

/-! ## One nonce and all others -/

variable (rvk accs conn)

/-- What a nonce contributes when its failure stays its own. -/
def isolatedNonce (nonce : ℕ) : List ElusivTransaction :=
  match convertNonce rvk accs conn nonce with
  | .ok txs => txs
  | .error _ => []

/-- The transactions of every nonce that is asked for and converts. -/
def isolated (nonces : List (ℕ × Bool)) : List ElusivTransaction :=
  (nonces.filter fun n => !n.2).flatMap fun n => isolatedNonce rvk accs conn n.1

variable {rvk accs conn}

/-- The request is cached when it succeeds, and leaves the manager alone when it fails. -/
lemma exec_fetchAndCache_eq (fetcher : List (ℕ × Bool) → Except Failure (List ElusivTransaction))
    (nonces : List (ℕ × Bool)) (m : TxManager) :
    exec (fetchAndCache fetcher nonces) m = match fetcher nonces with
      | .ok txs => (.ok txs, m.cache txs)
      | .error e => (.error e, m) := by
  rw [fetchAndCache, exec_bind, exec_lift]
  cases fetcher nonces with
  | ok txs => rfl
  | error e => rfl

lemma getTxsFromNonces_eq_isolated {nonces : List (ℕ × Bool)}
    (h : ∀ n, (n, false) ∈ nonces → ∃ txs, convertNonce rvk accs conn n = .ok txs) :
    getTxsFromNonces rvk accs conn nonces = .ok (isolated rvk accs conn nonces) := by
  rw [IdentifierTxFetcher.getTxsFromNonces_eq, isolated]
  refine flatMapM_of_ok fun n hn => ?_
  rcases List.mem_filter.mp hn with ⟨hmem, huncached⟩
  rcases n with ⟨n, cached⟩
  obtain rfl : cached = false := by simpa using huncached
  rcases h n hmem with ⟨txs, htxs⟩
  rw [isolatedNonce, htxs]

lemma converts_of_getTxsFromNonces {nonces : List (ℕ × Bool)} {txs : List ElusivTransaction}
    (h : getTxsFromNonces rvk accs conn nonces = .ok txs) {n : ℕ} (hn : (n, false) ∈ nonces) :
    ∃ txs, convertNonce rvk accs conn n = .ok txs := by
  rw [IdentifierTxFetcher.getTxsFromNonces_eq] at h
  exact flatMapM_eq_ok_iff.mp ⟨txs, h⟩ (n, false) (List.mem_filter.mpr ⟨hn, rfl⟩)

end

/-- **All transactions of the nonces that convert are returned and cached** exactly when every nonce that
is asked for converts.  Any other nonce takes them all with it. -/
theorem fetchAndCache_isolates_iff (rvk : RVKWrapper) (accs : ProgramAccounts) (conn : RPCConnection)
    (nonces : List (ℕ × Bool)) (m : TxManager) :
    exec (fetchAndCache (getTxsFromNonces rvk accs conn) nonces) m
        = (.ok (isolated rvk accs conn nonces), m.cache (isolated rvk accs conn nonces))
      ↔ ∀ n, (n, false) ∈ nonces → ∃ txs, convertNonce rvk accs conn n = .ok txs := by
  rw [exec_fetchAndCache_eq]
  constructor
  · intro h n hn
    cases hfetch : getTxsFromNonces rvk accs conn nonces with
    | ok txs => exact converts_of_getTxsFromNonces hfetch hn
    | error e =>
        rw [hfetch] at h
        exact nomatch congrArg Prod.fst h
  · intro h
    rw [getTxsFromNonces_eq_isolated h]

/-! ### A foreign transaction

Nonce 0 holds a topup.  Somebody mentions the identifier key of nonce 1 in a transaction of another
program. -/

namespace ForeignTransaction

open InstructionBuilding InstructionParsing

def storeTx : StoreTx := plainStoreTx 0 .BONK 5 5

def metadata : CommitmentMetadata :=
  { nonce := 0, tokenType := .BONK, assocCommIndex := 7, balance := 5, nonce_le := by decide
    assocCommIndex_le := by decide, balance_nonneg := by decide, balance_le := by decide }

def rvk : RVKWrapper := plainSeed.getRootViewingKeyWrapper

def storeIx : StoreInstruction := storeInstruction plainPoseidon rvk storeTx ⟨0, 0⟩ metadata

def rawStore : PartiallyDecodedInstruction :=
  (storeIx.compileInstruction plainAccounts rvk 0 storeTx.sender storeTx.warden).reported

def rawCompute : PartiallyDecodedInstruction :=
  ((computeInstruction storeTx).compileInstruction rvk plainAccounts).reported

def topupMessage : ParsedMessage where
  instructions :=
    ((buildConstantTopupIxs plainAccounts).map fun ix => .partiallyDecoded ix.reported) ++
      [.partiallyDecoded rawStore, .partiallyDecoded rawCompute]

def topup : SigResponse :=
  ⟨⟨topupMessage, some (plainStoreCPIs 9)⟩, ⟨"topup", none, none⟩⟩

def foreign : SigResponse := ⟨⟨⟨[]⟩, none⟩, ⟨"foreign", none, none⟩⟩

def conn : RPCConnection where
  getConfirmedSignaturesForAddress2 key :=
    if key = rvk.getIdentifierKey 0 then [topup.snd]
    else if key = rvk.getIdentifierKey 1 then [foreign.snd]
    else []
  getParsedTransaction signature :=
    if signature = "topup" then some topup.fst
    else if signature = "foreign" then some foreign.fst
    else none

lemma storeTx_wellFormed : storeTx.WellFormed plainPoseidon plainSeed :=
  plainStoreTx_wellFormed .BONK (by decide) (by decide) (by decide) (by decide)

lemma isStoreTx_topupMessage :
    isStoreTx plainAccounts topupMessage (rvk.getIdentifierKey 0) = true := by
  have hmem : rawStore ∈ topupMessage.partiallyDecoded := by
    rw [ParsedMessage.mem_partiallyDecoded]
    simp [topupMessage]
  exact List.any_eq_true.mpr ⟨rawStore, hmem, isStoreIx_compile _ _ _ _ _ _⟩

/-- No instruction of the topup starts like an init or a finalize. -/
lemma find_topupMessage {code : ℕ} (hcode : code ∈ [7, 11]) :
    (topupMessage.partiallyDecoded.find? fun ix =>
      isIdentifierIxWithCode plainAccounts ix (rvk.getIdentifierKey 0) code) = none := by
  have hstore : (bs58ToBytes rawStore.data)[0]? = some 0 := by
    show (bs58ToBytes (bytesToBs58 _))[0]? = _
    rw [bs58ToBytes_bytesToBs58]
    rfl
  have hcompute : (bs58ToBytes rawCompute.data)[0]? = some 1 := by
    show (bs58ToBytes (bytesToBs58 _))[0]? = _
    rw [bs58ToBytes_bytesToBs58]
    rfl
  have hne : some (0 : UInt8) ≠ some (UInt8.ofNat code) ∧ some (1 : UInt8) ≠ some (UInt8.ofNat code) := by
    simp only [List.mem_cons, List.not_mem_nil, or_false] at hcode
    rcases hcode with rfl | rfl <;> decide
  have hconstant : isElusivIx plainAccounts
      (plainAccounts.setComputeUnitLimit COMPUTE_UNIT_LIMIT).reported = false ∧
      isElusivIx plainAccounts
        (plainAccounts.setComputeUnitPrice COMPUTE_UNIT_PRICE).reported = false := by
    constructor <;> decide
  rw [List.find?_eq_none]
  intro ix hix
  rw [ParsedMessage.mem_partiallyDecoded] at hix
  simp only [topupMessage, buildConstantTopupIxs, List.map_cons, List.map_nil, List.cons_append,
    List.nil_append, List.mem_cons, MessageInstruction.partiallyDecoded.injEq, List.not_mem_nil,
    or_false] at hix
  rw [Bool.not_eq_true, isIdentifierIxWithCode, isIdentifierIx, Bool.and_eq_false_iff,
    Bool.and_eq_false_iff, beq_eq_false_iff_ne]
  rcases hix with rfl | rfl | rfl | rfl
  · exact Or.inl (Or.inl hconstant.1)
  · exact Or.inl (Or.inl hconstant.2)
  · exact Or.inr (hstore ▸ hne.1)
  · exact Or.inr (hcompute ▸ hne.2)

lemma parse_topup : txResponseToStoreTx rvk ⟨[topup], 0, rvk.getIdentifierKey 0⟩ topup
    = .ok (storeTx.landed 9 topup.snd) := by
  have hmetadata : CommitmentMetadata.fromCommitment storeTx.nonce storeTx.commitment
      = .ok metadata := by
    rw [CommitmentMetadata.fromCommitment_eq]
    exact CommitmentMetadata.new_eq_ok (by decide) (by decide) (by decide) (by decide)
  have hfee : FeeVersionData.WellFormed ⟨0, 0⟩ := ⟨by decide, by decide⟩
  exact storeTx_wellFormed.tryParseRawStore_message hfee plainAccounts hmetadata rfl
    (carriesFee_plainStoreCPIs 9) topup.snd

lemma convertNonce_topup :
    convertNonce rvk plainAccounts conn 0 = .ok [storeTx.landed 9 topup.snd] := by
  have hsigs : conn.getTxSigsForIdKeyFromBlockchain (rvk.getIdentifierKey 0) = [topup.snd] := by
    rw [RPCConnection.getTxSigsForIdKeyFromBlockchain]
    simp [conn, topup]
  have hresp : responsesOf conn ⟨[topup.snd], 0, rvk.getIdentifierKey 0⟩
      = some ⟨[topup], 0, rvk.getIdentifierKey 0⟩ := rfl
  have helusiv : getElusivTxs plainAccounts ⟨[topup], 0, rvk.getIdentifierKey 0⟩ = [topup] := by
    rw [getElusivTxs, List.filter_cons_of_pos]
    · rfl
    · show isElusivTx plainAccounts topupMessage (rvk.getIdentifierKey 0) = true
      rw [isElusivTx, isStoreTx_topupMessage]
      rfl
  have hfinalize : startFinalized rvk plainAccounts ⟨[topup], 0, rvk.getIdentifierKey 0⟩ topup
      [(topup, 0)] [false] = .ok ([], [false]) := by
    have hnone : getSendFinalizeIx plainAccounts topup.fst.message (rvk.getIdentifierKey 0) = none :=
      find_topupMessage (by decide)
    rw [startFinalized, hnone]
  have hpending : startPending rvk plainAccounts ⟨[topup], 0, rvk.getIdentifierKey 0⟩ topup = [] := by
    have hnone : getSendInitIx plainAccounts topup.fst.message (rvk.getIdentifierKey 0) = none :=
      find_topupMessage (by decide)
    rw [startPending, hnone]
    rfl
  have hstore : startStore rvk plainAccounts ⟨[topup], 0, rvk.getIdentifierKey 0⟩ topup
      = [.ok (storeTx.landed 9 topup.snd)] := by
    have hstoreTx : isStoreTx plainAccounts topup.fst.message (rvk.getIdentifierKey 0) = true :=
      isStoreTx_topupMessage
    simp only [startStore, hstoreTx, if_true, parse_topup]
  rw [convertNonce, convertSigs, hsigs, hresp]
  dsimp only
  rw [if_neg (by decide)]
  rw [txResponseToElusivTxs, helusiv]
  show (startParsing rvk plainAccounts _ [(topup, 0)] [false] >>= fun txs => _) = _
  rw [startParsing, if_neg (by decide), hfinalize]
  show ((Except.ok _ : Except Failure _) >>= fun txs => _) = _
  rw [hstore, hpending]
  rfl

lemma convertNonce_foreign :
    convertNonce rvk plainAccounts conn 1 = .error (.error INVALID_TX_TYPE) := by
  have hkeys : rvk.getIdentifierKey 1 ≠ rvk.getIdentifierKey 0 := by decide +kernel
  have hsigs : conn.getTxSigsForIdKeyFromBlockchain (rvk.getIdentifierKey 1) = [foreign.snd] := by
    rw [RPCConnection.getTxSigsForIdKeyFromBlockchain]
    simp [conn, hkeys, foreign]
  rw [convertNonce, convertSigs, hsigs]
  rfl

/-- The topup comes back when its nonce is asked for alone.  Together with the foreign transaction nothing
comes back, and nothing is cached. -/
theorem fetchAndCache_foreign :
    exec (fetchAndCache (getTxsFromNonces rvk plainAccounts conn) [(0, false)]) TxManager.new
        = (.ok [storeTx.landed 9 topup.snd], TxManager.new.cache [storeTx.landed 9 topup.snd]) ∧
      isolated rvk plainAccounts conn [(0, false), (1, false)] = [storeTx.landed 9 topup.snd] ∧
      exec (fetchAndCache (getTxsFromNonces rvk plainAccounts conn) [(0, false), (1, false)])
        TxManager.new = (.error (.error INVALID_TX_TYPE), TxManager.new) := by
  have htopup : getTxsFromNonces rvk plainAccounts conn [(0, false)]
      = .ok [storeTx.landed 9 topup.snd] := by
    rw [IdentifierTxFetcher.getTxsFromNonces_eq]
    show List.flatMapM (fun n => convertNonce rvk plainAccounts conn n.1) [(0, false)] = _
    rw [List.flatMapM_cons, convertNonce_topup]
    rfl
  have hboth : getTxsFromNonces rvk plainAccounts conn [(0, false), (1, false)]
      = .error (.error INVALID_TX_TYPE) := by
    rw [IdentifierTxFetcher.getTxsFromNonces_eq]
    show List.flatMapM (fun n => convertNonce rvk plainAccounts conn n.1) [(0, false), (1, false)] = _
    rw [List.flatMapM_cons, convertNonce_topup, List.flatMapM_cons, convertNonce_foreign]
    rfl
  refine ⟨?_, ?_, ?_⟩
  · rw [exec_fetchAndCache_eq, htopup]
  · show isolatedNonce rvk plainAccounts conn 0 ++ (isolatedNonce rvk plainAccounts conn 1 ++ []) = _
    rw [isolatedNonce, isolatedNonce, convertNonce_topup, convertNonce_foreign]
    rfl
  · rw [exec_fetchAndCache_eq, hboth]

end ForeignTransaction

end ElusivSdk
