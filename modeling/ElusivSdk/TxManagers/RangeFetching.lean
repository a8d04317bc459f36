import ElusivSdk.TxManagers.FetchSelection

/-!
# One range of nonces

What `fetchTxsIntoCache` gives back of a range, on a manager that has any part of the chain cached, and
what `getTxs` does before it asks for a range.

* `KnownPart` — the manager has a part of what the chain holds, of a nonce possibly only some
  transactions.
* `GapsAbove` — from some nonce up, fewer than `step` nonces in a row are unused.
* **`getLatestTransactionsIntoCache_seen`** — the loop over the newest nonces reaches the newest one.
* **`fetchTxsIntoCache_range_iff`** — when the transactions of the range are returned exactly: no nonce
  of it may be cached in part.
-/

namespace ElusivSdk

open Descending Program

/-- Everything the manager has cached is on the chain. -/
def KnownPart (h : History) (m : TxManager) : Prop := ∀ n, m.bucket n ⊆ h.txsAt n

/-- A nonce that is cached, but not with all of its transactions. -/
def History.CachedInPart (h : History) (m : TxManager) (n : ℕ) : Prop :=
  m.bucket n ≠ [] ∧ ¬ h.txsAt n ⊆ m.bucket n

/-- No `step` consecutive nonces from `lo` up to the newest are all unused. -/
def History.GapsAbove (step : ℕ) (lo : ℤ) (h : History) : Prop :=
  ∀ k : ℕ, lo ≤ k → k < h.length → ∃ n, k ≤ n ∧ n < k + step ∧ h.txsAt n ≠ []

/-- The transactions of the chain strictly between the bounds. -/
def History.inRange (h : History) (inputs : TxFetchingInputs) : List ElusivTransaction :=
  h.txs.filter fun tx => inputs.after < tx.nonce ∧ tx.nonce < inputs.before

namespace TxManager

/-- A negative upper bound counts from the end of the cache. -/
lemma getCachedTxsWrapper_neg (m : TxManager) (lo : ℕ) {before : ℤ} (hneg : before < 0) :
    m.getCachedTxsWrapper (some before) (some (lo - 1 : ℤ))
      = between m.bucket lo (m.fetchedTxs.cached.length + before).toNat := by
  rw [← m.getCachedTxsWrapper_eq]
  simp only [getCachedTxsWrapper, getCachedTxs_none, getAllCachedTxs]
  rw [SparseArray.slice_neg _ _ hneg]
  rfl

end TxManager

/-! ## What a look at the chain leaves of a known part -/

section Known

variable {h : History} {m m' : TxManager}

lemma KnownPart.latest_lt (hm : KnownPart h m) : m.getLatestCachedNonce < h.length := by
  have hge := m.neg_one_le_getLatestCachedNonce
  by_contra hlt
  have hne := m.bucket_getLatestCachedNonce (n := m.getLatestCachedNonce.toNat) (by omega)
  have hsub := hm m.getLatestCachedNonce.toNat
  rw [h.eq_nil_of_length_le _ (by omega)] at hsub
  exact hne (List.subset_nil.mp hsub)

/-- A manager that looked at every nonce above the newest cached one knows the newest nonce. -/
lemma KnownPart.latest_eq (hm : KnownPart h m) (hl : Looked h m m')
    (hcovers : ∀ n : ℕ, m.getLatestCachedNonce < n → m'.bucket n = h.bucket n) :
    m'.getLatestCachedNonce + 1 = h.length := by
  have hlt := hm.latest_lt
  have hnil : ∀ k, h.length ≤ k → m'.bucket k = [] := fun k hk => by
    rw [hcovers k (by omega), h.bucket_of_length_le hk]
  cases hlen : h.length with
  | zero =>
      rw [m'.getLatestCachedNonce_eq_neg_one fun k => hnil k (by omega)]
      rfl
  | succ n =>
      have hne : m'.bucket n ≠ [] := by
        by_cases hn : m.getLatestCachedNonce < n
        · rw [hcovers n hn]
          exact fun h0 => h.ne_nil_of_newest n hlen ((h.bucket_eq_nil_iff n).mp h0)
        · have hcached := m.bucket_getLatestCachedNonce (n := n) (by omega)
          rwa [hl.bucket_of_ne_nil hcached]
      rw [m'.getLatestCachedNonce_eq hne fun k hk => hnil k (by omega)]
      omega

/-- What is seen of a nonce is all of it exactly when the nonce is not cached in part. -/
lemma KnownPart.seenBy_perm_iff (hd : h.DistinctHashes) (hm : KnownPart h m) (n : ℕ) :
    (h.seenBy m n).Perm (h.txsAt n) ↔ ¬ h.CachedInPart m n := by
  rw [History.seenBy, History.CachedInPart]
  split_ifs with hn
  · rw [hd.bucket_eq]
    exact iff_of_true (List.Perm.refl _) fun hpart => hpart.1 hn
  · rw [not_and, not_not]
    refine ⟨fun hperm _ => hperm.symm.subset, fun hall => ?_⟩
    have hchain : (h.txsAt n).Nodup :=
      (hd n).imp fun {tx tx'} hne heq => hne (congrArg ElusivTransaction.commitmentHash heq)
    exact (List.perm_ext_iff_of_nodup (m.bucket_nodup n) hchain).mpr fun tx =>
      ⟨fun htx => hm n htx, fun htx => hall hn htx⟩

end Known

section Specs

variable {h : History} {m₀ : TxManager}

/-- The state of the loop over the newest nonces on a manager that need not be coherent. -/
structure LatestSeen (h : History) (m₀ : TxManager) (loop : ℤ × Bool) (m : TxManager) : Prop where
  looked : Looked h m₀ m
  start_le : m₀.getLatestCachedNonce ≤ loop.1
  covers : ∀ n : ℕ, m₀.getLatestCachedNonce < n → n ≤ loop.1 → m.bucket n = h.bucket n
  above : ∀ n : ℕ, loop.1 < n → m.bucket n = []
  finished : loop.2 = false → h.length ≤ loop.1 + 1

/-- One window of the loop. -/
lemma LatestSeen.step {step : ℕ} (hg : h.GapsAbove step (m₀.getLatestCachedNonce + 1))
    {loop : ℤ × Bool} {m : TxManager} (hinv : LatestSeen h m₀ loop m) :
    LatestSeen h m₀
        (loop.1 + step, (h.fetch (m.noncesInRange (loop.1 + step + 1) loop.1)).length != 0)
        (m.cache (h.fetch (m.noncesInRange (loop.1 + step + 1) loop.1))) ∧
      ((h.fetch (m.noncesInRange (loop.1 + step + 1) loop.1)).length != 0 → loop.1 < h.length) := by
  have hlow := m₀.neg_one_le_getLatestCachedNonce
  have hstart := hinv.start_le
  have hmem : ∀ n : ℕ, (n, false) ∈ m.noncesInRange (loop.1 + step + 1) loop.1 ↔ _ := fun n =>
    mem_window (by omega) hinv.above
  have huncached : ∀ n, (n, false) ∈ m.noncesInRange (loop.1 + step + 1) loop.1 → m₀.bucket n = [] :=
    fun n hn => m₀.bucket_eq_nil_of_latest_lt (by have := ((hmem n).mp hn).1; omega)
  refine ⟨⟨hinv.looked.cache huncached, by simp only; omega, fun n h1 h2 => ?_, fun n hn => ?_,
    fun hempty => ?_⟩, lt_length_of_window (by omega)⟩
  · simp only at h2
    rw [hinv.looked.bucket_cache huncached]
    split_ifs with hn
    · rfl
    · have hle : ¬ (loop.1 < n ∧ n ≤ loop.1 + step) := fun hin => hn ((hmem n).mpr hin)
      exact hinv.covers n h1 (by omega)
  · simp only at hn
    rw [hinv.looked.bucket_cache huncached,
      if_neg fun hin => absurd ((hmem n).mp hin).2 (by omega)]
    exact hinv.above n (by omega)
  · have := length_le_of_window (by omega) hinv.above (fun k hk => hg k (by omega)) hempty
    simp only
    omega

/-- **The loop over the newest nonces reaches the newest one**, whatever part of the chain is cached
below. -/
theorem getLatestTransactionsIntoCache_seen (hm : KnownPart h m₀) {step fuel : ℕ} (hs : 0 < step)
    (hg : h.GapsAbove step (m₀.getLatestCachedNonce + 1)) (hfuel : h.length + step + 3 ≤ fuel) :
    Total (fun m => m = m₀)
      (getLatestTransactionsIntoCache h.fetcher fuel m₀.getLatestCachedNonce step)
      fun range m => range.before = h.length ∧ m.getLatestCachedNonce + 1 = h.length ∧
        Looked h m₀ m ∧ ∀ n : ℕ, m₀.getLatestCachedNonce < n → m.bucket n = h.bucket n := by
  have hlow := m₀.neg_one_le_getLatestCachedNonce
  have hloop := @latestLoop_total h (LatestSeen h m₀) step fuel _ hlow hs hfuel
    fun loop m hinv => hinv.step hg
  rintro m rfl
  obtain ⟨loop, m', hrun, hinv, hend⟩ := Total.run hloop (s := m)
    ⟨Looked.refl h m, Int.le_refl _, fun n h1 h2 => by simp only at h2; omega,
      fun n hn => m.bucket_eq_nil_of_latest_lt hn, fun hf => Bool.noConfusion hf⟩
  have hcovers := covers_of_finished hinv.covers hinv.above (hinv.finished hend)
  have hlatest := hm.latest_eq hinv.looked hcovers
  rw [getLatestTransactionsIntoCache, exec_bind, hrun]
  exact ⟨hlatest, hlatest, hinv.looked, hcovers⟩

/-- What `fetchTxsIntoCache` returns: what is seen of the nonces in the range, or for a negative bound
what the cache had that far from its end. -/
lemma fetchTxsIntoCache_run {inputs : TxFetchingInputs} (hb : 0 < inputs.batchSize)
    (ha : -1 ≤ inputs.after) :
    ∃ m, exec (fetchTxsIntoCache h.fetcher inputs) m₀ = (.ok (if 0 ≤ inputs.before then
        between (h.seenBy m₀) (inputs.after + 1).toNat inputs.before.toNat
      else between m₀.bucket (inputs.after + 1).toNat
        (m₀.fetchedTxs.cached.length + inputs.before).toNat), m) := by
  have hlo : inputs.after = ((inputs.after + 1).toNat : ℤ) - 1 := by omega
  split_ifs with hbefore
  · obtain ⟨txs, m, hexec, -, rfl, hseen⟩ := (@fetchTxsIntoCache_seen h m₀ inputs hb ha).run rfl
    refine ⟨m, ?_⟩
    have hhi : inputs.before = (inputs.before.toNat : ℤ) := by omega
    rw [hexec, ← between_congr fun n h1 h2 => hseen n (by omega) (by omega),
      ← m.getCachedTxsWrapper_eq, ← hlo, ← hhi]
  · -- the loop does not run, so nothing is requested
    have hnone : m₀.startAllBatches inputs = .ok [] := by
      have hfuel : (inputs.before - 1 - inputs.after).toNat = 0 := by omega
      rw [TxManager.startAllBatches, hfuel, TxManager.startBatches, if_neg (by omega)]
    refine ⟨m₀, ?_⟩
    rw [← m₀.getCachedTxsWrapper_neg _ (by omega), ← hlo, fetchTxsIntoCache, exec_bind, exec_get]
    show exec (lift (m₀.startAllBatches inputs) >>= _) m₀ = _
    rw [hnone]
    rfl

/-- The transactions of the range are a reading of the chain. -/
lemma History.inRange_eq (h : History) {inputs : TxFetchingInputs} (ha : -1 ≤ inputs.after) :
    h.inRange inputs = between h.txsAt (inputs.after + 1).toNat inputs.before.toNat := by
  set lo := (inputs.after + 1).toNat with hlo
  set hi := inputs.before.toNat with hhi
  have htop : h.txs = between h.txsAt 0 (max h.length hi) :=
    (between_eq_of_empty (Nat.le_max_left _ _) fun n hn => h.eq_nil_of_length_le n hn).symm
  have hsplit : h.inRange inputs
      = (h.txs.filter fun tx => tx.nonce < hi).filter fun tx => lo ≤ tx.nonce := by
    rw [inRange, List.filter_filter]
    refine List.filter_congr fun tx _ => ?_
    rw [← Bool.decide_and]
    exact decide_eq_decide.mpr (by omega)
  rw [hsplit, htop, h.graded_txsAt.filter_lt_between (Nat.zero_le hi) (Nat.le_max_right _ _),
    h.graded_txsAt.filter_le_between (Nat.zero_le lo)]

/-- **What `fetchTxsIntoCache` requests and returns, and what `getTxs` does first**, on a manager that
has any part of the chain cached.  The transactions returned are those of the range exactly when no nonce
of the range is cached in part (and a negative bound, counted from the end of the cache, selects
nothing). -/
theorem fetchTxsIntoCache_range_iff (hd : h.DistinctHashes) (hm : KnownPart h m₀)
    {inputs : TxFetchingInputs} (hb : 0 < inputs.batchSize) (ha : -1 ≤ inputs.after) :
    (∃ batches txs m, exec (fetchTxsIntoCache h.fetcher inputs) m₀ = (.ok txs, m) ∧
      m₀.startAllBatches inputs = .ok batches ∧
      (∀ n : ℕ, inputs.after < n → n < inputs.before → m₀.bucket n = [] →
        ∃ nonces ∈ batches, (n, false) ∈ nonces) ∧
      (txs.Pairwise fun tx tx' => tx'.nonce ≤ tx.nonce) ∧
      (txs.Perm (h.inRange inputs) ↔
        (∀ n : ℕ, inputs.after < n → n < inputs.before → ¬ h.CachedInPart m₀ n) ∧
        (inputs.before < 0 → ∀ n : ℕ, inputs.after < n →
          n < m₀.fetchedTxs.cached.length + inputs.before → m₀.bucket n = []))) ∧
    ∀ {fuel : ℕ} (count : Option ℕ) {before : Option ℤ} (batchSize : ℕ),
      h.GapsAbove DEFAULT_FETCH_BATCH_SIZE (m₀.getLatestCachedNonce + 1) →
      h.length + DEFAULT_FETCH_BATCH_SIZE + 3 ≤ fuel →
      before.all (fun before => m₀.getLatestCachedNonce < before) = true →
      ∃ (range : CachedRange) (m₁ : TxManager), m₁.getLatestCachedNonce + 1 = h.length ∧ range.before = h.length ∧
        (∀ n : ℕ, m₀.getLatestCachedNonce < n → m₁.bucket n = h.txsAt n) ∧
        exec (getTxs h.fetcher fuel count before batchSize) m₀ = exec (do
          let inputs := prepareTxFetchingParams range count batchSize before
          let _ ← fetchTxsIntoCache h.fetcher inputs
          let m ← get
          lift (getTxsInNonceRange ((m.getCachedTxsWrapper before (some inputs.after)).map some) count))
          m₁ := by
  refine ⟨?_, fun {fuel} count {before} batchSize hg hfuel hlatest => ?_⟩
  · obtain ⟨batches, hok, -, hcov⟩ := m₀.startAllBatches_spec inputs hb ha
    obtain ⟨m, hexec⟩ := @fetchTxsIntoCache_run h m₀ inputs hb ha
    refine ⟨batches, _, m, hexec, hok, fun n h1 h2 hn => hcov n h1 h2 ?_, ?_, ?_⟩
    · rw [← Bool.not_eq_true, TxManager.isCachedNonce_iff, not_not]
      exact hn
    · split_ifs
      · exact (h.graded_seenBy m₀).between_pairwise _ _
      · exact m₀.graded_bucket.between_pairwise _ _
    · rw [h.inRange_eq ha]
      split_ifs with hbefore
      · rw [(h.graded_seenBy m₀).between_perm_iff h.graded_txsAt,
          and_iff_left fun hneg => absurd hneg (by omega)]
        exact forall_congr' fun n => by
          rw [hm.seenBy_perm_iff hd]
          constructor
          · exact fun hn h1 h2 => hn (by omega) (by omega)
          · exact fun hn h1 h2 => hn (by omega) (by omega)
      · have hempty : inputs.before.toNat ≤ (inputs.after + 1).toNat := by omega
        rw [between_of_le hempty, List.perm_nil, and_iff_right fun n h1 h2 => absurd h2 (by omega),
          imp_iff_right (by omega)]
        refine ⟨fun hnil n h1 h2 => ?_, fun hall => between_eq_nil fun n h1 h2 => ?_⟩
        · refine List.eq_nil_iff_forall_not_mem.mpr fun tx htx => ?_
          have hmem := mem_between.mpr ⟨n, (by omega : (inputs.after + 1).toNat ≤ n),
            (by omega : n < (m₀.fetchedTxs.cached.length + inputs.before).toNat), htx⟩
          rw [hnil] at hmem
          exact List.not_mem_nil hmem
        · exact hall n (by omega) (by omega)
  · obtain ⟨range, m₁, hexec, hrange, hnewest, hl, hcovers⟩ :=
      (getLatestTransactionsIntoCache_seen hm (by decide) hg hfuel).run rfl
    refine ⟨range, m₁, hnewest, hrange, fun n hn => by rw [hcovers n hn, hd.bucket_eq], ?_⟩
    rw [getTxs, exec_bind, exec_get]
    show exec ((if _ then _ else _) >>= _) m₀ = _
    rw [if_pos hlatest, exec_bind, hexec]

end Specs

/-! ### A chain with unused nonces, known up to nonce 0 -/

/-- Two topups on nonce 0 and one on nonce 3. -/
def unevenChain : History :=
  .ofList [.bareTopup 0 .LAMPORTS 1 0, .bareTopup 0 .LAMPORTS 1 1, .bareTopup 3 .LAMPORTS 1 2] (by decide)

/-- A manager that has some of these transactions cached. -/
def unevenManager (cached : List ElusivTransaction) : TxManager := TxManager.new.cache cached

lemma unevenChain_distinct : unevenChain.DistinctHashes :=
  fun n => History.forall_nonce_of_lt
    (P := fun _ txs => txs.Pairwise fun tx1 tx2 => tx1.commitmentHash ≠ tx2.commitmentHash)
    (fun _ => List.Pairwise.nil) (show ∀ n < 4, (unevenChain.txsAt n).Pairwise
      fun tx1 tx2 => tx1.commitmentHash ≠ tx2.commitmentHash by decide) n

lemma unevenManager_known {cached : List ElusivTransaction}
    (hsub : ∀ tx ∈ cached, tx ∈ unevenChain.txs) : KnownPart unevenChain (unevenManager cached) := by
  intro n tx htx
  rw [unevenManager, TxManager.bucket_cache, TxManager.new_bucket] at htx
  rcases mem_insertAll htx with htx | htx
  · exact absurd htx List.not_mem_nil
  · obtain ⟨hmem, hn⟩ := List.mem_filter.mp htx
    have hchain := History.mem_txs.mp (hsub tx hmem)
    rwa [of_decide_eq_true hn] at hchain

/-- Both topups of nonce 0 are cached: the three transactions come back, and nonce 3 is found. -/
theorem fetchTxsIntoCache_range_iff_uneven :
    (∃ txs m, exec (fetchTxsIntoCache unevenChain.fetcher ⟨2, 4, -1⟩)
        (unevenManager (unevenChain.txsAt 0)) = (.ok txs, m) ∧
      txs.Perm (unevenChain.inRange ⟨2, 4, -1⟩)) ∧
    ∃ m₁ : TxManager, m₁.getLatestCachedNonce + 1 = unevenChain.length ∧
      m₁.bucket 3 = unevenChain.txsAt 3 := by
  obtain ⟨⟨batches, txs, m, hexec, -, -, -, hiff⟩, hlatest⟩ := @fetchTxsIntoCache_range_iff
    unevenChain (unevenManager (unevenChain.txsAt 0)) unevenChain_distinct
    (unevenManager_known (by decide)) ⟨2, 4, -1⟩ (by decide) (by decide)
  have hnone : ∀ n < 4, ¬ unevenChain.CachedInPart (unevenManager (unevenChain.txsAt 0)) n :=
    show ∀ n < 4, ¬ (_ ∧ ¬ _) by decide
  obtain ⟨-, m₁, hnewest, -, hcovers, -⟩ := @hlatest 17 none none 1
    (fun k _ hk => ⟨3, Nat.le_of_lt_succ hk, Nat.lt_add_left k (by decide), by decide⟩) (by decide) rfl
  exact ⟨⟨txs, m, hexec, hiff.mpr ⟨fun n _ h2 => hnone n (by simpa using h2), fun hneg => absurd hneg (by decide)⟩⟩,
    m₁, hnewest, hcovers 3 (by decide)⟩

/-- **A second topup of a cached nonce is not fetched**: one topup of nonce 0 is cached, and the other
one is left out. -/
theorem fetchTxsIntoCache_misses_second :
    unevenChain.DistinctHashes ∧
      KnownPart unevenChain (unevenManager [.bareTopup 0 .LAMPORTS 1 0]) ∧
      (exec (fetchTxsIntoCache unevenChain.fetcher ⟨1, 1, -1⟩)
        (unevenManager [.bareTopup 0 .LAMPORTS 1 0])).1 = .ok [.bareTopup 0 .LAMPORTS 1 0] ∧
      unevenChain.inRange ⟨1, 1, -1⟩
        = [.bareTopup 0 .LAMPORTS 1 1, .bareTopup 0 .LAMPORTS 1 0] := by
  refine ⟨unevenChain_distinct, unevenManager_known (by decide), ?_, ?_⟩
  · decide +kernel
  · decide +kernel

end ElusivSdk
