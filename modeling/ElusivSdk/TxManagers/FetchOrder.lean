import ElusivSdk.TxManagers.Query

/-!
# What `fetchTxs` returns

* `History.matching` — the transactions that a call of `fetchTxs` may return, from the newest down.
* `cutToWholeNonces` — the first `count` transactions, and the rest of the last nonce among them.
* **`fetchTxs_exact`** — `fetchTxs` returns the one cut of the other, whatever was fetched before.
* **`fetchTxs_documented_iff`** — its documentation counts nonces instead of transactions.  Both agree
  exactly when the `count` newest matching nonces without the lowest of them hold fewer than `count`
  matching transactions; **`fetchTxs_fewer_nonces`** is the example of the documentation.
-/

namespace ElusivSdk

open Descending Program

/-- The transactions of the token on the nonces below `before`, from the newest nonce down. -/
def History.matching (h : History) (tokenType : Option TokenType) (before : Option ℤ) :
    List ElusivTransaction :=
  (below h.txsAt h.length).filter fun tx =>
    tx.hasToken tokenType && before.all fun b => decide ((tx.nonce : ℤ) < b)

/-- The `count` largest nonces with a matching transaction. -/
def History.newestNonces (h : History) (count : ℕ) (tokenType : Option TokenType)
    (before : Option ℤ) : List ℕ :=
  topKeys ElusivTransaction.nonce count (h.matching tokenType before)

/-- The first `count` transactions and all further ones on the nonce of the last of these. -/
def cutToWholeNonces (count : ℕ) (txs : List ElusivTransaction) : List ElusivTransaction :=
  txs.take count ++
    match (txs.take count).getLast? with
    | none => []
    | some last => (txs.drop count).filter fun tx => tx.nonce = last.nonce

lemma takeGroups_eq_cutToWholeNonces {txs : List ElusivTransaction}
    (hp : txs.Pairwise fun tx tx' => tx'.nonce ≤ tx.nonce) (count : ℕ) :
    takeGroups ElusivTransaction.nonce count txs = cutToWholeNonces count txs := by
  rw [takeGroups_eq_take_append hp, cutToWholeNonces]
  cases (txs.take count).getLast? with
  | none => rfl
  | some last => rfl

/-- The manager that the given calls leave, one after the other, on a new manager. -/
def History.managerAfter (h : History) (fuel : ℕ) (calls : List Query) : TxManager :=
  calls.foldl (fun m q => (exec (q.alone h.fetcher fuel) m).2) .new

namespace History

variable {h : History}

lemma coherent_managerAfter (hgaps : h.GapsBelow DEFAULT_FETCH_BATCH_SIZE) {fuel : ℕ}
    (hfuel : h.length + DEFAULT_FETCH_BATCH_SIZE + 3 ≤ fuel) (calls : List Query) :
    Coherent h (h.managerAfter fuel calls) := by
  have hfold : ∀ (calls : List Query) (m : TxManager), Coherent h m →
      Coherent h (calls.foldl (fun m q => (exec (q.alone h.fetcher fuel) m).2) m) := by
    intro calls
    induction calls with
    | nil => exact fun m hm => hm
    | cons q calls ih =>
        intro m hm
        obtain ⟨txs, m', hexec, -, hm'⟩ := (q.alone_spec hm hgaps hfuel).run rfl
        rw [List.foldl_cons, hexec]
        exact ih m' hm'
  exact hfold calls .new (coherent_new h)

lemma matching_pairwise (h : History) (tokenType : Option TokenType) (before : Option ℤ) :
    (h.matching tokenType before).Pairwise fun tx tx' => tx'.nonce ≤ tx.nonce :=
  (h.graded_txsAt.between_pairwise 0 h.length).sublist List.filter_sublist

/-- What `fetchTxs` reads from the manager are the matching transactions of the chain. -/
lemma DistinctHashes.matching_eq (hd : h.DistinctHashes) (tokenType : Option TokenType)
    (before : Option ℤ) :
    h.matching tokenType before = below (h.tokenBucket tokenType) (h.top before) := by
  have hbucket : h.bucket = h.txsAt := funext hd.bucket_eq
  have hbelow : below h.txsAt (h.top before)
      = (below h.txsAt h.length).filter fun tx => tx.nonce < h.top before :=
    (h.graded_txsAt.filter_lt_between (Nat.zero_le _) (h.top_le before)).symm
  rw [below, ← h.filter_between_bucket tokenType 0 (h.top before), hbucket, ← below, hbelow,
    List.filter_filter, matching]
  refine List.filter_congr fun tx htx => ?_
  have hlt := (h.graded_txsAt.mem_between.mp htx).2.1
  refine congrArg _ ?_
  cases before with
  | none => simp [top, hlt]
  | some b =>
      refine decide_eq_decide.mpr ?_
      show (tx.nonce : ℤ) < b ↔ tx.nonce < min h.length b.toNat
      omega

end History

section Exact

variable {h : History}

/-- A call after any earlier calls returns the matching transactions, cut to whole nonces. -/
lemma fetchTxs_run (hg : h.Gapless) (hlen : h.length ≤ MAX_UINT32) (hd : h.DistinctHashes)
    (earlier : List Query) {fuel : ℕ} (hfuel : h.length + DEFAULT_FETCH_BATCH_SIZE + 3 ≤ fuel)
    (count : ℕ) (tokenType : Option TokenType) (before : Option ℤ) :
    (exec (fetchTxs h.fetcher fuel count tokenType before) (h.managerAfter fuel earlier)).1
      = .ok (takeGroups ElusivTransaction.nonce count (h.matching tokenType before)) := by
  have hgaps : h.GapsBelow DEFAULT_FETCH_BATCH_SIZE := hg.gapsBelow (by decide)
  obtain ⟨txs, m, hexec, rfl, -⟩ :=
    (fetchTxs_spec (h.coherent_managerAfter hgaps hfuel earlier) hgaps hfuel count tokenType
      before).run rfl
  rw [hexec, hg.fetchTxs_eq hlen, hd.matching_eq]

/-- **`fetchTxs` returns exactly the matching transactions from the newest down, cut after `count` of
them to whole nonces**, whatever earlier calls left in the cache. -/
theorem fetchTxs_exact (hg : h.Gapless) (hlen : h.length ≤ MAX_UINT32) (hd : h.DistinctHashes)
    (earlier : List Query) {fuel : ℕ} (hfuel : h.length + DEFAULT_FETCH_BATCH_SIZE + 3 ≤ fuel)
    (count : ℕ) (tokenType : Option TokenType) (before : Option ℤ) :
    ∃ txs, (exec (fetchTxs h.fetcher fuel count tokenType before)
        (h.managerAfter fuel earlier)).1 = .ok txs ∧
      txs = cutToWholeNonces count (h.matching tokenType before) ∧
      (txs.Pairwise fun tx tx' => tx'.nonce ≤ tx.nonce) ∧ txs.Nodup ∧
      (txs.length < count → txs = h.matching tokenType before) ∧
      ∀ tx ∈ txs, ∀ tx' ∈ h.matching tokenType before, tx'.nonce = tx.nonce → tx' ∈ txs := by
  have hpair := h.matching_pairwise tokenType before
  have hsub := takeGroups_sublist ElusivTransaction.nonce count (h.matching tokenType before)
  refine ⟨_, fetchTxs_run hg hlen hd earlier hfuel count tokenType before,
    takeGroups_eq_cutToWholeNonces hpair count, hpair.sublist hsub, ?_, fun hlt => ?_,
    fun tx htx tx' htx' heq => ?_⟩
  · exact ((hd.nodup h.length).sublist List.filter_sublist).sublist hsub
  · have hmin := min_le_length_takeGroups ElusivTransaction.nonce count
      (h.matching tokenType before)
    exact takeGroups_of_length_le (by omega)
  · exact mem_takeGroups_of_le hpair htx htx' (Nat.le_of_eq heq.symm)

/-- **`fetchTxs` returns what its documentation states** — all matching transactions on the `count`
newest nonces that have one — **exactly when** those nonces, the lowest of them left out, hold fewer
than `count` matching transactions. -/
theorem fetchTxs_documented_iff (hg : h.Gapless) (hlen : h.length ≤ MAX_UINT32)
    (hd : h.DistinctHashes) (earlier : List Query) {fuel : ℕ}
    (hfuel : h.length + DEFAULT_FETCH_BATCH_SIZE + 3 ≤ fuel) (count : ℕ)
    (tokenType : Option TokenType) (before : Option ℤ) :
    ∃ txs, (exec (fetchTxs h.fetcher fuel count tokenType before)
        (h.managerAfter fuel earlier)).1 = .ok txs ∧
      (txs.Perm ((h.matching tokenType before).filter fun tx =>
          tx.nonce ∈ h.newestNonces count tokenType before) ↔
        h.newestNonces count tokenType before = [] ∨
          ((h.matching tokenType before).filter fun tx =>
            tx.nonce ∈ (h.newestNonces count tokenType before).dropLast).length < count) :=
  ⟨_, fetchTxs_run hg hlen hd earlier hfuel count tokenType before,
    takeGroups_perm_topKeys_iff (h.matching_pairwise tokenType before) count⟩

end Exact

/-! ### The nonces 3, 2 and 1, where 2 has two transactions -/

/-- One topup on each of the nonces 0, 1 and 3, and two on nonce 2. -/
def sharedNonceChain : History :=
  .ofList [.bareTopup 0 .LAMPORTS 1 0, .bareTopup 1 .LAMPORTS 1 1, .bareTopup 2 .LAMPORTS 1 2,
    .bareTopup 2 .LAMPORTS 1 3, .bareTopup 3 .LAMPORTS 1 4] (by decide)

lemma sharedNonceChain_gapless : sharedNonceChain.Gapless :=
  show ∀ n < 4, sharedNonceChain.txsAt n ≠ [] by decide

lemma sharedNonceChain_distinct : sharedNonceChain.DistinctHashes :=
  fun n => History.forall_nonce_of_lt
    (P := fun _ txs => txs.Pairwise fun tx1 tx2 => tx1.commitmentHash ≠ tx2.commitmentHash)
    (fun _ => List.Pairwise.nil) (show ∀ n < 4, (sharedNonceChain.txsAt n).Pairwise
      fun tx1 tx2 => tx1.commitmentHash ≠ tx2.commitmentHash by decide) n

/-- Two transactions asked for: the newest one and both of nonce 2, after a sweep of everything. -/
theorem fetchTxs_exact_sharedNonce :
    ∃ txs, (exec (fetchTxs sharedNonceChain.fetcher 17 2 (some .LAMPORTS) none)
        (sharedNonceChain.managerAfter 17 [.getMostRecentTx])).1 = .ok txs ∧ txs.length = 3 := by
  obtain ⟨txs, hrun, heq, -⟩ := fetchTxs_exact sharedNonceChain_gapless (by decide)
    sharedNonceChain_distinct [.getMostRecentTx] (Nat.le_refl 17) 2 (some .LAMPORTS) none
  refine ⟨txs, hrun, ?_⟩
  rw [heq]
  decide

theorem fetchTxs_documented_iff_sharedNonce :
    ∃ txs, (exec (fetchTxs sharedNonceChain.fetcher 17 2 none (some 3))
        (sharedNonceChain.managerAfter 17 [])).1 = .ok txs ∧ ¬ txs.Perm
          ((sharedNonceChain.matching none (some 3)).filter fun tx =>
            tx.nonce ∈ sharedNonceChain.newestNonces 2 none (some 3)) := by
  obtain ⟨txs, hrun, hiff⟩ := fetchTxs_documented_iff sharedNonceChain_gapless (by decide)
    sharedNonceChain_distinct [] (Nat.le_refl 17) 2 none (some 3)
  refine ⟨txs, hrun, fun hperm => ?_⟩
  exact absurd (hiff.mp hperm) (by decide)

/-- **Fetching the nonces 3, 2 and 1 leaves out nonce 1**: the three newest transactions are on the
nonces 3 and 2. -/
theorem fetchTxs_fewer_nonces :
    ∃ txs, (exec (fetchTxs sharedNonceChain.fetcher 17 3 none none)
        (sharedNonceChain.managerAfter 17 [])).1 = .ok txs ∧
      txs.map ElusivTransaction.nonce = [3, 2, 2] ∧
      sharedNonceChain.newestNonces 3 none none = [3, 2, 1] ∧ ¬ txs.Perm
        ((sharedNonceChain.matching none none).filter fun tx =>
          tx.nonce ∈ sharedNonceChain.newestNonces 3 none none) := by
  refine ⟨takeGroups ElusivTransaction.nonce 3 (sharedNonceChain.matching none none),
    by decide +kernel, by decide, by decide, fun hperm => ?_⟩
  exact absurd hperm.length_eq (by decide)

end ElusivSdk
