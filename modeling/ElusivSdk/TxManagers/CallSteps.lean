import ElusivSdk.TxManagers.ConcurrentInvariant

/-!
# The code between two awaits

* `Seen.addBatch`, `Knows.mostRecent` — when the range of a call is cached, the batch of `getTxs` is
  what is selected in it.
* **`CallOk.resume`** — the code from one await to the next keeps what is known of a call, provided that
  the call leaves the loop over the newest nonces only when nothing selected below `limit` lies above the
  newest cached nonce.
-/

namespace ElusivSdk

open Descending Program

section CallOk

variable {p : ElusivTransaction → Bool} {g g' v v' : ℕ → List ElusivTransaction} {limit limit' : ℕ}
  {h h' : History} {m m' : TxManager} {c c' : Call} {q : Query} {loop : FetchLoop}

/-- `finish` ends a call with its result. -/
lemma CallOk.finish (hg : Graded ElusivTransaction.nonce g) (hv : Seen g limit m c.query c.loop v)
    (hend : c.loop.continues c.query.count = false) (hq : c.query ≠ .getMostRecentTx) :
    CallOk g limit h (c.finish m).1 (c.finish m).2 := by
  have hfound := hv.loop.found_eq (hv.view.graded hg) hend
  have hkeep : ∀ txs : List ElusivTransaction, Seen g limit (m.setAllConfirmed txs) c.query c.loop v :=
    fun txs => hv.mono (Nat.le_refl _) fun n hn => by rwa [m.setAllConfirmed_bucket txs]
  rw [Call.finish, hfound]
  rcases c with ⟨⟨count, tokenType, before⟩ | ⟨tokenType, beforeSend⟩ | _, loop, phase, requests⟩
  · exact ⟨⟨v, hkeep _⟩, _, ⟨hend, hfound⟩, rfl⟩
  · exact ⟨⟨v, hkeep _⟩, ⟨tokenType, beforeSend, rfl⟩, hend, hfound⟩
  · exact absurd rfl hq

/-- A running call with a bound has a bound that is a nonce. -/
lemma Call.Running.nonneg (hrun : c.Running) {b : ℤ} (hb : c.before = some b) : 0 ≤ b := by
  rcases c with ⟨⟨count, tokenType, before⟩ | ⟨tokenType, beforeSend⟩ | _, loop, phase, requests⟩
  case getMostRecentTx => cases hb
  all_goals
    rcases hrun with hrun | hrun
    · exact Query.noConfusion hrun
    · simp only [FetchLoop.continues, Bool.and_eq_true, decide_eq_true_eq] at hrun
      obtain rfl := Option.some.inj hb
      exact hrun.1

/-- What is prepared from a range that reaches far enough. -/
lemma InputsOk.prepare {range : CachedRange} (hrun : c.Running) (hpos : 0 ≤ range.before)
    (hle : (∃ b, c.before = some b ∧ b ≤ h.length) ∨ range.before ≤ h.length)
    (hreach : ∀ n < limit, g n ≠ [] → Under c.before n → (n : ℤ) < range.before) :
    InputsOk g limit h c.before c.query.count
      (prepareTxFetchingParams range (some c.query.count) DEFAULT_FETCH_BATCH_SIZE c.before) := by
  cases hb : c.before with
  | none =>
      rw [hb] at hle hreach
      have hle' : range.before ≤ h.length := by
        rcases hle with ⟨b, hb', -⟩ | hle
        · cases hb'
        · exact hle
      exact ⟨rfl, hpos, hle', hreach, fun b hb' => (Option.some_ne_none b hb'.symm).elim, rfl⟩
  | some b =>
      have hb0 := hrun.nonneg hb
      rw [hb] at hle hreach
      have hbefore : (prepareTxFetchingParams range (some c.query.count) DEFAULT_FETCH_BATCH_SIZE
          (some b)).before = min b range.before := rfl
      refine ⟨rfl, ?_, ?_, fun n hn hne hu => ?_, fun b' hb' => ?_, rfl⟩
      · omega
      · rcases hle with ⟨b', hb', hle⟩ | hle
        · cases hb'
          omega
        · omega
      · have h1 := hreach n hn hne hu
        have h2 := hu b rfl
        omega
      · cases hb'
        omega

/-- `callGetTxs` enters `getTxs`. -/
lemma CallOk.callGetTxs (hk : Knows p g limit h m) (hv : Seen g limit m c.query c.loop v)
    (hrun : c.Running) : CallOk g limit h m (c.callGetTxs m) := by
  rw [Call.callGetTxs]
  split_ifs with hlatest
  · exact ⟨⟨v, hv⟩, hrun⟩
  · cases hb : c.before with
    | none => simp [hb] at hlatest
    | some b =>
        have hb0 := hrun.nonneg hb
        have hle : b ≤ m.getLatestCachedNonce := by simpa [hb] using hlatest
        have hlen := hk.used m.getLatestCachedNonce.toNat
          (m.bucket_getLatestCachedNonce (by omega))
        refine ⟨⟨v, hv⟩, hrun,
          InputsOk.prepare hrun hb0 (Or.inl ⟨b, hb, by omega⟩) fun n _ _ hu => ?_⟩
        exact hu b hb

/-- The loop over the newest nonces is left with a range that reaches everything selected. -/
lemma CallOk.leaveLatest (hk : Knows p g limit h m) (hv : Seen g limit m c.query c.loop v)
    (hrun : c.Running) (habove : ∀ n < limit, g n ≠ [] → (n : ℤ) ≤ m.getLatestCachedNonce) (L : ℤ) :
    CallOk g limit h m (c.await (.ranged { after := L, before := m.getLatestCachedNonce + 1 })) := by
  have hlow := m.neg_one_le_getLatestCachedNonce
  refine ⟨⟨v, hv⟩, hrun,
    InputsOk.prepare hrun (by simp only; omega) (Or.inr ?_) fun n hn hne _ => ?_⟩
  · simp only
    by_cases hneg : m.getLatestCachedNonce = -1
    · omega
    · have hlen := hk.used m.getLatestCachedNonce.toNat
        (m.bucket_getLatestCachedNonce (by omega))
      omega
  · have := habove n hn hne
    simp only
    omega

/-- `fetchTxsIntoCache` starts a request for every nonce of the range that is not cached. -/
lemma CallOk.startFetching (hv : Seen g limit m c.query c.loop v) (hrun : c.Running)
    {inputs : TxFetchingInputs} (hi : InputsOk g limit h c.before c.query.count inputs) :
    ∃ batches, m.startAllBatches inputs = .ok batches ∧
      CallOk g limit h m { c with phase := .fetching inputs, requests := batches.map .ofNonces } := by
  have hafter := hi.after_eq
  obtain ⟨batches, hok, -, hcov⟩ := m.startAllBatches_spec inputs
    (by rw [hi.batchSize]; decide) (by omega)
  refine ⟨batches, hok, ⟨v, hv⟩, hrun, hi, fun n h1 h2 => ?_⟩
  cases hcached : m.isCachedNonce n with
  | true => exact Or.inl ((m.isCachedNonce_iff n).mp hcached)
  | false =>
      obtain ⟨nonces, hmem, hn⟩ := hcov n h1 h2 hcached
      refine Or.inr ⟨.ofNonces nonces, List.mem_map_of_mem hmem, rfl, (n, none), ?_, rfl, by simp⟩
      exact List.mem_map.mpr ⟨(n, false), List.mem_filter.mpr ⟨hn, rfl⟩, rfl⟩

/-- When all requests were answered, the range is cached. -/
lemma CallOk.finishFetching (hv : Seen g limit m c.query c.loop v) {inputs : TxFetchingInputs}
    (hphase : c.phase = .fetching inputs) (hc : PhaseOk g limit h m c)
    (hall : c.requests.all Request.answered = true) :
    CallOk g limit h m (c.await (.fetched inputs)) := by
  rw [PhaseOk, hphase] at hc
  obtain ⟨hrun, hi, hcov⟩ := hc
  refine ⟨⟨v, hv⟩, hrun, hi, fun n h1 h2 => ?_⟩
  rcases hcov n h1 h2 with hn | ⟨r, hr, hfalse, -⟩
  · exact hn
  · have := List.all_eq_true.mp hall r hr
    rw [hfalse] at this
    exact Bool.noConfusion this

/-- The selected part as it is cached from nonce `lo` on. -/
def cachedView (m : TxManager) (p : ElusivTransaction → Bool) (g : ℕ → List ElusivTransaction)
    (lo n : ℕ) : List ElusivTransaction :=
  if lo ≤ n then (m.bucket n).filter p else g n

/-- Above the range nothing selected below `limit` is left to read. -/
lemma InputsOk.cachedView_part {before : Option ℤ} {count : ℕ} {inputs : TxFetchingInputs}
    (hi : InputsOk g limit h before count inputs) (hk : Knows p g limit h m)
    (hcached : ∀ n : ℕ, inputs.after < n → n < inputs.before → m.bucket n ≠ []) {lo : ℕ}
    (hlow : inputs.after < lo) {n : ℕ} (hu : Under before n) :
    Part g limit n (cachedView m p g lo n) := by
  by_cases hlo : lo ≤ n
  · rw [cachedView, if_pos hlo]
    by_cases hn : m.bucket n = []
    · rw [hn]
      refine ⟨List.nil_subset _, fun hlt => ?_⟩
      by_contra hne
      exact hcached n (by omega) (hi.reaches n hlt (fun hg => hne hg.symm) hu) hn
    · exact hk.part n hn
  · rw [cachedView, if_neg hlo]
    exact Part.refl g limit n

lemma Tracks.cachedView_nodup (ht : Tracks p g h) (m : TxManager) (lo n : ℕ) :
    (cachedView m p g lo n).Nodup := by
  rw [cachedView]
  split_ifs
  · exact (m.bucket_nodup n).filter p
  · exact ht.nodup n

lemma cachedView_ne_nil {lo n : ℕ} (hle : lo ≤ n) (hne : cachedView m p g lo n ≠ []) :
    m.bucket n ≠ [] := by
  rintro hnil
  rw [cachedView, if_pos hle, hnil] at hne
  exact hne rfl

/-- What the cache gives for a followed query. -/
lemma between_wanted (hq : q.Follows p) {lo a : ℕ} (hle : lo ≤ a) (b : ℕ) :
    (between m.bucket a b).filter (fun tx => tx.hasToken q.tokenType)
      = between (q.wanted (cachedView m p g lo)) a b := by
  rw [filter_between]
  refine between_congr fun n h1 _ => ?_
  rw [Query.wanted, cachedView, if_pos (by omega), List.filter_filter]
  refine List.filter_congr fun tx _ => ?_
  cases ht : tx.hasToken q.tokenType with
  | true => simp [hq tx ht]
  | false => rfl

/-- An empty batch ends the loop: nothing is selected below its bound. -/
lemma LoopOk.addBatch_nil (hc : 0 < q.count) (hl : LoopOk v q loop)
    (hrest : between (q.wanted v) 0 loop.beforeInner.toNat = []) :
    LoopOk v q (loop.addBatch q.tokenType []) := by
  have hall : between (q.wanted v) loop.beforeInner.toNat q.bound
      = between (q.wanted v) 0 q.bound := by
    rw [between_append (Nat.zero_le _) hl.le, hrest, List.append_nil]
  refine ⟨by simp [FetchLoop.addBatch], ?_, ?_, fun hz => absurd hz (Nat.ne_of_gt hc)⟩
  · simp only [FetchLoop.addBatch, getLowestFetchedNonceFromBatch_nil, List.map_nil, List.append_nil]
    exact hl.res_eq.trans hall
  · simp only [FetchLoop.addBatch, getLowestFetchedNonceFromBatch_nil, List.filter_nil,
      List.length_nil, Nat.add_zero]
    exact hl.count_eq.trans (congrArg List.length hall)

/-- A batch down to nonce `k` moves the bound there. -/
lemma LoopOk.addBatch_between (hc : 0 < q.count) (hl : LoopOk v q loop)
    {batch : List ElusivTransaction} {k : ℕ} (hlow : getLowestFetchedNonceFromBatch batch = k)
    (hk : k < loop.beforeInner.toNat)
    (hwanted : batch.filter (fun tx => tx.hasToken q.tokenType)
      = between (q.wanted v) k loop.beforeInner.toNat) :
    LoopOk v q (loop.addBatch q.tokenType batch) := by
  have hsplit := between_append (f := q.wanted v) (Nat.le_of_lt hk) hl.le
  refine ⟨?_, ?_, ?_, fun hz => absurd hz (Nat.ne_of_gt hc)⟩
  · simp only [FetchLoop.addBatch, hlow, Int.toNat_natCast]
    exact Nat.le_trans (Nat.le_of_lt hk) hl.le
  · simp only [FetchLoop.addBatch, hlow, Int.toNat_natCast]
    rw [List.filterMap_append, hl.res_eq, History.filterMap_mark, hwanted, hsplit]
  · simp only [FetchLoop.addBatch, hlow, Int.toNat_natCast]
    rw [hl.count_eq, hwanted, hsplit, List.length_append]

/-- What the loop has passed stays as it was seen, the rest is as it is cached now. -/
lemma Seen.reread (ht : Tracks p g h) (hk : Knows p g limit h m) (hq : q.Follows p)
    (hv : Seen g limit m q loop v) {count : ℕ} {inputs : TxFetchingInputs}
    (hi : InputsOk g limit h (some loop.beforeInner) count inputs)
    (hcached : ∀ n : ℕ, inputs.after < n → n < inputs.before → m.bucket n ≠ []) {lo b : ℕ}
    (hlow : inputs.after < lo) (hb : loop.beforeInner = b) :
    ∃ v', View g limit v' ∧ LoopOk v' q loop ∧
      (∀ n, lo ≤ n → n < q.bound → v' n ≠ [] → m.bucket n ≠ []) ∧
      ∀ k, lo ≤ k → (between m.bucket k b).filter (fun tx => tx.hasToken q.tokenType)
        = between (q.wanted v') k b := by
  obtain ⟨v', hbelow, habove⟩ : ∃ v' : ℕ → List ElusivTransaction,
      (∀ n < b, v' n = cachedView m p g lo n) ∧ ∀ n, b ≤ n → v' n = v n :=
    ⟨fun n => if n < b then cachedView m p g lo n else v n, fun n hn => if_pos hn,
      fun n hn => if_neg (Nat.not_lt_of_le hn)⟩
  have hunder : ∀ n, n < b → Under (some loop.beforeInner) n := fun n hn b' hb' => by
    cases hb'
    omega
  refine ⟨v', ⟨fun n => ?_, fun n => ?_⟩, hv.loop.congr fun n h1 _ => habove n (by omega),
    fun n h1 h2 hne => ?_, fun k hle => ?_⟩
  · by_cases hn : n < b
    · rw [hbelow n hn]
      exact hi.cachedView_part hk hcached hlow (hunder n hn)
    · rw [habove n (by omega)]
      exact hv.view.part n
  · by_cases hn : n < b
    · rw [hbelow n hn]
      exact ht.cachedView_nodup m lo n
    · rw [habove n (by omega)]
      exact hv.view.nodup n
  · by_cases hn : n < b
    · rw [hbelow n hn] at hne
      exact cachedView_ne_nil h1 hne
    · rw [habove n (by omega)] at hne
      exact hv.cached n (by omega) h2 hne
  · rw [between_wanted (g := g) hq hle b]
    exact between_congr fun n _ hn => congrArg _ (hbelow n hn).symm

/-- The batch of a query with a loop. -/
lemma Seen.addBatch (ht : Tracks p g h) (hk : Knows p g limit h m) (hlen : h.length ≤ MAX_UINT32)
    (hq : q.Follows p) (hv : Seen g limit m q loop v) (hrun : loop.continues q.count = true)
    {inputs : TxFetchingInputs} (hi : InputsOk g limit h (some loop.beforeInner) q.count inputs)
    (hcached : ∀ n : ℕ, inputs.after < n → n < inputs.before → m.bucket n ≠ []) :
    ∃ batch, getTxsInNonceRange
        ((m.getCachedTxsWrapper (some loop.beforeInner) (some inputs.after)).map some)
        (some q.count) = .ok batch ∧
      ∃ v', Seen g limit m q (loop.addBatch q.tokenType batch) v' := by
  simp only [FetchLoop.continues, Bool.and_eq_true, decide_eq_true_eq] at hrun
  obtain ⟨hpos, hcount⟩ := hrun
  have hc : 0 < q.count := by omega
  have hafter := hi.after_eq
  have hnonneg := hi.nonneg
  obtain ⟨b, hb⟩ := Int.eq_ofNat_of_zero_le hpos
  obtain ⟨lo, hlo⟩ := Int.eq_ofNat_of_zero_le (by omega : 0 ≤ inputs.after + 1)
  have hafter' : inputs.after = (lo : ℤ) - 1 := by omega
  have htoNat : loop.beforeInner.toNat = b := by omega
  have hle := hi.before_le loop.beforeInner rfl
  have hlow : inputs.after < lo := by omega
  obtain ⟨v', hview, hl, hseen, hwanted⟩ := hv.reread ht hk hq hi hcached hlow hb
  rw [hafter', hb, m.getCachedTxsWrapper_eq lo b, getTxsInNonceRange_map_some hc]
  refine ⟨_, rfl, v', ?_⟩
  by_cases hnil : between m.bucket lo b = []
  · -- nothing is left below the bound
    have hz : inputs.before ≤ lo := by
      by_contra hlt
      obtain ⟨tx, htx⟩ := List.exists_mem_of_ne_nil _ (hcached lo (by omega) (by omega))
      have : tx ∈ between m.bucket lo b := mem_between.mpr ⟨lo, Nat.le_refl lo, by omega, htx⟩
      rw [hnil] at this
      exact List.not_mem_nil this
    obtain rfl : lo = 0 := by omega
    have hrest := hwanted 0 (Nat.le_refl 0)
    rw [hnil, List.filter_nil] at hrest
    rw [hnil, takeGroups_nil]
    refine ⟨hview, fun n _ => hseen n (Nat.zero_le n), hl.addBatch_nil hc ?_⟩
    rw [htoNat, ← hrest]
  · obtain ⟨k, hk1, hk2, ⟨tx, htx, -⟩, hbatch⟩ := m.graded_bucket.takeGroups_between hc hnil
    have hne := List.ne_nil_of_mem htx
    have hlow : getLowestFetchedNonceFromBatch (between m.bucket k b) = k :=
      getLowestFetchedNonceFromBatch_between m.graded_bucket hk2 hne
        (Nat.lt_of_lt_of_le (hk.used k hne) hlen)
    have hbefore : (loop.addBatch q.tokenType (between m.bucket k b)).beforeInner = k := hlow
    rw [hbatch]
    refine ⟨hview, fun n h1 => hseen n (by omega), hl.addBatch_between hc hlow (by omega) ?_⟩
    rw [hwanted k hk1, htoNat]

/-- The batch of `getMostRecentTx`. -/
lemma Knows.mostRecent (ht : Tracks p g h) (hk : Knows p g limit h m) (hlen : h.length ≤ MAX_UINT32)
    (hq : Query.getMostRecentTx.Follows p) {inputs : TxFetchingInputs}
    (hi : InputsOk g limit h none 1 inputs)
    (hcached : ∀ n : ℕ, inputs.after < n → n < inputs.before → m.bucket n ≠ []) :
    ∃ v, View g limit v ∧
      getTxsInNonceRange ((m.getCachedTxsWrapper none (some inputs.after)).map some) (some 1)
        = .ok (Query.getMostRecentTx.found v) := by
  have hafter := hi.after_eq
  have hnonneg := hi.nonneg
  have hle := hi.le
  have hmax : MAX_UINT32 ≤ MAX_SAFE_INTEGER := by decide
  have hbound : Query.getMostRecentTx.bound = MAX_SAFE_INTEGER := rfl
  obtain ⟨lo, hlo⟩ := Int.eq_ofNat_of_zero_le (by omega : 0 ≤ inputs.after + 1)
  have hafter' : inputs.after = (lo : ℤ) - 1 := by omega
  have hself : ∀ l : List ElusivTransaction,
      l.filter (fun tx => tx.hasToken Query.getMostRecentTx.tokenType) = l := fun l =>
    List.filter_eq_self.mpr fun tx _ => rfl
  have hall : ∀ v, Query.getMostRecentTx.wanted v = v := fun v => funext fun n => hself (v n)
  have hview : View g limit (cachedView m p g lo) :=
    ⟨fun n => hi.cachedView_part hk hcached (by omega) fun b hb => (Option.some_ne_none b hb.symm).elim,
      ht.cachedView_nodup m lo⟩
  have hread : m.getCachedTxsWrapper none (some inputs.after)
      = between (cachedView m p g lo) lo Query.getMostRecentTx.bound := by
    have hempty : ∀ n, h.length ≤ n → m.bucket n = [] := fun n hn => by
      by_contra hne
      have := hk.used n hne
      omega
    have hwanted := between_wanted (m := m) (g := g) hq (Nat.le_refl lo) Query.getMostRecentTx.bound
    rw [hall, hself] at hwanted
    rw [hafter', m.getCachedTxsWrapper_none
      (Nat.le_max_right Query.getMostRecentTx.bound m.fetchedTxs.cached.length), ← hwanted]
    exact between_eq_of_empty (Nat.le_max_left _ _) fun n hn => hempty n (by omega)
  refine ⟨cachedView m p g lo, hview, ?_⟩
  rw [hread, getTxsInNonceRange_map_some Nat.one_pos, Query.found, hall]
  congr 1
  rcases Nat.eq_zero_or_pos lo with hz | hpos
  · rw [hz]
    rfl
  · refine ((hview.graded ht.graded).takeGroups_below (by omega) ?_).symm
    -- the nonce just below the end of the range is cached, so something is found there
    have hne := hcached lo (by omega) (by omega)
    have hg : cachedView m p g lo lo ≠ [] := by
      rwa [cachedView, if_pos (Nat.le_refl lo), List.filter_eq_self.mpr fun tx _ => hq tx rfl]
    obtain ⟨tx, htx⟩ := List.exists_mem_of_ne_nil _ hg
    exact List.length_pos_of_mem (mem_between.mpr ⟨lo, Nat.le_refl lo, by omega, htx⟩)

/-- The loop of `fetchTxs` goes on or ends. -/
lemma CallOk.nextRound (ht : Tracks p g h) (hk : Knows p g limit h m)
    (hv : Seen g limit m c.query c.loop v) (hr : c.nextRound m = (m', c')) :
    CallOk g limit h m' c' := by
  by_cases hq : c.query = .getMostRecentTx
  · rw [Call.nextRound, hq] at hr
    obtain ⟨rfl, rfl⟩ := Prod.mk.inj hr
    exact CallOk.callGetTxs hk hv (Or.inl hq)
  · have hnext : c.nextRound m
        = if c.loop.continues c.query.count then (m, c.callGetTxs m) else c.finish m := by
      rw [Call.nextRound]
      split
      · next heq => exact absurd heq hq
      · rfl
    rw [hnext] at hr
    split_ifs at hr with hcont
    · obtain ⟨rfl, rfl⟩ := Prod.mk.inj hr
      exact CallOk.callGetTxs hk hv (Or.inr hcont)
    · have hend := CallOk.finish (h := h) (m := m) ht.graded hv (Bool.eq_false_iff.mpr hcont) hq
      rw [hr] at hend
      exact hend

/-- The batch of a call whose range is cached. -/
lemma CallOk.returnBatch (ht : Tracks p g h) (hk : Knows p g limit h m) (hlen : h.length ≤ MAX_UINT32)
    (hq : c.query.Follows p) (hc : CallOk g limit h m c) {inputs : TxFetchingInputs}
    (hphase : c.phase = .fetched inputs) (hr : c.resume m = some (m', c')) :
    CallOk g limit h m' c' := by
  obtain ⟨⟨v, hv⟩, hp⟩ := hc
  rcases c with ⟨q, loop, phase, requests⟩
  obtain rfl : phase = .fetched inputs := hphase
  obtain ⟨hrun, hi, hcached⟩ := hp
  have hseen : Seen g limit m q loop v := hv
  cases q with
  | getMostRecentTx =>
      obtain ⟨v', hv', hok⟩ := Knows.mostRecent ht hk hlen hq hi hcached
      simp only [Call.resume, Call.before, Query.count, hok] at hr
      obtain ⟨rfl, rfl⟩ := Prod.mk.inj (Option.some.inj hr)
      exact ⟨⟨v, hv⟩, fun _ => ⟨v', hv', rfl⟩⟩
  | fetchTxs count tokenType before =>
      have hcont := hrun.resolve_left Query.noConfusion
      obtain ⟨batch, hok, hadd⟩ := Seen.addBatch ht hk hlen hq hseen hcont hi hcached
      simp only [Call.resume, Call.before, hok] at hr
      obtain ⟨rfl, rfl⟩ := Prod.mk.inj (Option.some.inj hr)
      exact ⟨hadd, fun heq => Query.noConfusion heq⟩
  | getActiveTxs tokenType beforeSend =>
      have hcont := hrun.resolve_left Query.noConfusion
      obtain ⟨batch, hok, hadd⟩ := Seen.addBatch ht hk hlen hq hseen hcont hi hcached
      simp only [Call.resume, Call.before, hok] at hr
      obtain ⟨rfl, rfl⟩ := Prod.mk.inj (Option.some.inj hr)
      exact ⟨hadd, fun heq => Query.noConfusion heq⟩

/-- The callers of `getTxs` with its batch. -/
lemma CallOk.useBatch (ht : Tracks p g h) (hk : Knows p g limit h m) (hc : CallOk g limit h m c)
    {batch : List ElusivTransaction} (hphase : c.phase = .returned batch)
    (hr : c.resume m = some (m', c')) : CallOk g limit h m' c' := by
  obtain ⟨⟨v, hv⟩, hp⟩ := hc
  rcases c with ⟨q, loop, phase, requests⟩
  obtain rfl : phase = .returned batch := hphase
  cases q with
  | getMostRecentTx =>
      obtain ⟨v', hv', hbatch⟩ := hp rfl
      have hbatch' : batch = Query.getMostRecentTx.found v' := hbatch
      obtain ⟨rfl, rfl⟩ := Prod.mk.inj (Option.some.inj hr)
      exact ⟨⟨v, hv⟩, v', hv', congrArg (fun txs => Except.ok (Query.getMostRecentTx.pick txs)) hbatch'⟩
  | fetchTxs count tokenType before =>
      have hadd : Seen g limit m (.fetchTxs count tokenType before) (loop.addBatch tokenType batch) v :=
        hv
      exact CallOk.nextRound (c := ⟨_, _, .returned batch, requests⟩) ht hk hadd
        (Option.some.inj hr)
  | getActiveTxs tokenType beforeSend =>
      have hadd : Seen g limit m (.getActiveTxs tokenType beforeSend)
        (loop.addBatch (some tokenType) batch) v := hv
      exact CallOk.nextRound (c := ⟨_, _, .returned batch, requests⟩) ht hk hadd
        (Option.some.inj hr)

/-- `getActiveTxs` after `fetchTxs`. -/
lemma CallOk.select (hc : CallOk g limit h m c) {txs : List ElusivTransaction}
    (hphase : c.phase = .selecting txs) (hr : c.resume m = some (m', c')) :
    CallOk g limit h m' c' := by
  obtain ⟨⟨v, hv⟩, hp⟩ := hc
  rcases c with ⟨q, loop, phase, requests⟩
  obtain rfl : phase = .selecting txs := hphase
  obtain ⟨⟨tokenType, beforeSend, hq⟩, hfound⟩ := hp
  obtain rfl : q = .getActiveTxs tokenType beforeSend := hq
  cases txs with
  | nil =>
      obtain ⟨rfl, rfl⟩ := Prod.mk.inj (Option.some.inj hr)
      exact ⟨⟨v, hv⟩, [], hfound, rfl⟩
  | cons newest rest =>
      obtain ⟨rfl, rfl⟩ := Prod.mk.inj (Option.some.inj hr)
      exact ⟨⟨v, hv.mono (Nat.le_refl _) fun n hn => hn⟩, newest :: rest, hfound, rfl⟩

/-- **The code between two awaits keeps what is known of a call.** -/
theorem CallOk.resume (ht : Tracks p g h) (hk : Knows p g limit h m) (hlen : h.length ≤ MAX_UINT32)
    (hq : c.query.Follows p) (hc : CallOk g limit h m c)
    (hall : c.requests.all Request.answered = true)
    (hend : c.inLatest = true → c.requests.flatMap Request.txs = [] →
      ∀ n < limit, g n ≠ [] → (n : ℤ) ≤ m.getLatestCachedNonce)
    (hr : c.resume m = some (m', c')) : CallOk g limit h m' c' := by
  have hc' := hc
  obtain ⟨⟨v, hv⟩, hp⟩ := hc'
  cases hphase : c.phase with
  | fetched inputs => exact CallOk.returnBatch ht hk hlen hq hc hphase hr
  | returned batch => exact CallOk.useBatch ht hk hc hphase hr
  | selecting txs => exact CallOk.select hc hphase hr
  | calling =>
      rw [Call.progress, hphase] at hv
      rw [Call.resume, hphase] at hr
      exact CallOk.nextRound ht hk hv (Option.some.inj hr)
  | latest L i =>
      rw [Call.progress, hphase] at hv
      rw [PhaseOk, hphase] at hp
      rw [Call.resume, hphase] at hr
      simp only at hr
      split_ifs at hr with htxs
      · obtain ⟨rfl, rfl⟩ := Prod.mk.inj (Option.some.inj hr)
        exact ⟨⟨v, hv⟩, hp⟩
      · obtain ⟨rfl, rfl⟩ := Prod.mk.inj (Option.some.inj hr)
        have hnil : c.requests.flatMap Request.txs = [] := by
          simpa only [bne_iff_ne, ne_eq, Decidable.not_not, List.length_eq_zero_iff] using htxs
        exact CallOk.leaveLatest hk hv hp (hend (by rw [Call.inLatest, hphase]) hnil) L
  | ranged range =>
      rw [Call.progress, hphase] at hv
      rw [PhaseOk, hphase] at hp
      rw [Call.resume, hphase] at hr
      obtain ⟨rfl, rfl⟩ := Prod.mk.inj (Option.some.inj hr)
      exact ⟨⟨v, hv⟩, hp⟩
  | prepared inputs =>
      rw [Call.progress, hphase] at hv
      rw [PhaseOk, hphase] at hp
      obtain ⟨batches, hok, hstart⟩ := CallOk.startFetching (m := m) hv hp.1 hp.2
      simp only [Call.resume, hphase, hok] at hr
      obtain ⟨rfl, rfl⟩ := Prod.mk.inj (Option.some.inj hr)
      exact hstart
  | fetching inputs =>
      rw [Call.progress, hphase] at hv
      have hfinish := CallOk.finishFetching hv hphase hp hall
      rw [Call.resume, hphase] at hr
      obtain ⟨rfl, rfl⟩ := Prod.mk.inj (Option.some.inj hr)
      exact hfinish
  | done result =>
      rw [Call.resume, hphase] at hr
      cases hr

end CallOk

end ElusivSdk
