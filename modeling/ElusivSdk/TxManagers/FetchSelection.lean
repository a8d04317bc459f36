import ElusivSdk.TxManagers.PrivateBalance

/-!
# Queries on any manager

What a query returns and marks when nothing is known about the cache: the cache may be behind the chain,
and the query may throw on the way.

* `History.seenBy` — what a manager gives back of a nonce once it looked at it.
* `Looked` — what looking at nonces does to a manager, whichever they are.
* **`fetchTxs_selected`** — what `fetchTxs` returns is a part of the reading of `seenBy`, in that order,
  and all but the first of it is marked.
-/

namespace ElusivSdk

open Descending Program

/-- What a manager gives back of a nonce once it looked at it: what it has, else what the chain has. -/
def History.seenBy (h : History) (m : TxManager) (n : ℕ) : List ElusivTransaction :=
  if m.bucket n = [] then h.bucket n else m.bucket n

/-- The transactions of a token among them. -/
def History.tokenSeenBy (h : History) (m : TxManager) (tokenType : Option TokenType) (n : ℕ) :
    List ElusivTransaction := (h.seenBy m n).filter fun tx => tx.hasToken tokenType

lemma History.graded_seenBy (h : History) (m : TxManager) :
    Graded ElusivTransaction.nonce (h.seenBy m) := by
  intro n tx htx
  rw [seenBy] at htx
  split_ifs at htx
  · exact h.graded_bucket n tx htx
  · exact m.graded_bucket n tx htx

lemma History.graded_tokenSeenBy (h : History) (m : TxManager) (tokenType : Option TokenType) :
    Graded ElusivTransaction.nonce (h.tokenSeenBy m tokenType) :=
  (h.graded_seenBy m).filter _

/-- Some nonces that were not cached have been cached. -/
structure Looked (h : History) (m m' : TxManager) : Prop where
  bucket_eq : ∀ n, m'.bucket n = m.bucket n ∨ (m.bucket n = [] ∧ m'.bucket n = h.bucket n)
  confirmed : m'.confirmed = m.confirmed

namespace Looked

variable {h : History} {m m' m'' : TxManager}

lemma refl (h : History) (m : TxManager) : Looked h m m := ⟨fun _ => Or.inl rfl, rfl⟩

lemma trans (h₁ : Looked h m m') (h₂ : Looked h m' m'') : Looked h m m'' := by
  refine ⟨fun n => ?_, h₂.confirmed.trans h₁.confirmed⟩
  rcases h₂.bucket_eq n with heq | ⟨hnil, hfull⟩
  · rw [heq]
    exact h₁.bucket_eq n
  · rcases h₁.bucket_eq n with heq | ⟨hnil', -⟩
    · exact Or.inr ⟨heq ▸ hnil, hfull⟩
    · exact Or.inr ⟨hnil', hfull⟩

/-- What was cached stays. -/
lemma bucket_of_ne_nil (hl : Looked h m m') {n : ℕ} (hn : m.bucket n ≠ []) :
    m'.bucket n = m.bucket n := by
  rcases hl.bucket_eq n with heq | ⟨hnil, -⟩
  · exact heq
  · exact absurd hnil hn

lemma eq_nil_or (hl : Looked h m m') (n : ℕ) : m'.bucket n = [] ∨ m'.bucket n = h.seenBy m n := by
  rw [History.seenBy]
  rcases hl.bucket_eq n with heq | ⟨hnil, hfull⟩
  · split_ifs with hn
    · exact Or.inl (heq.trans hn)
    · exact Or.inr heq
  · rw [if_pos hnil]
    exact Or.inr hfull

lemma mem_of_mem (hl : Looked h m m') {n : ℕ} {tx : ElusivTransaction} (htx : tx ∈ m.bucket n) :
    tx ∈ m'.bucket n := by
  rw [hl.bucket_of_ne_nil (List.ne_nil_of_mem htx)]
  exact htx

/-- A reading of the manager is a part of the reading of what it may see. -/
lemma between_sublist (hl : Looked h m m') (tokenType : Option TokenType) (lo : ℕ) :
    ∀ hi : ℕ, ((between m'.bucket lo hi).filter fun tx => tx.hasToken tokenType).Sublist
      (between (h.tokenSeenBy m tokenType) lo hi)
  | 0 => List.Sublist.refl _
  | n + 1 => by
      rw [between, between]
      split_ifs with hlo
      · rw [List.filter_append]
        refine List.Sublist.append ?_ (hl.between_sublist tokenType lo n)
        rcases hl.eq_nil_or n with hnil | heq
        · rw [hnil]
          exact List.nil_sublist _
        · rw [heq, List.filter_reverse]
          exact List.Sublist.refl _
      · exact List.Sublist.refl _

/-- Caching the answer to a request for nonces that were not cached fills these nonces. -/
lemma bucket_cache (hl : Looked h m m') {nonces : List (ℕ × Bool)}
    (hreq : ∀ n, (n, false) ∈ nonces → m.bucket n = []) (n : ℕ) :
    (m'.cache (h.fetch nonces)).bucket n
      = if (n, false) ∈ nonces then h.bucket n else m'.bucket n := by
  refine h.bucket_cache_fetch fun hn => ?_
  rcases hl.bucket_eq n with heq | ⟨-, hfull⟩
  · exact Or.inl (heq.trans (hreq n hn))
  · exact Or.inr hfull

lemma cache (hl : Looked h m m') {nonces : List (ℕ × Bool)}
    (hreq : ∀ n, (n, false) ∈ nonces → m.bucket n = []) :
    Looked h m (m'.cache (h.fetch nonces)) := by
  refine ⟨fun n => ?_, hl.confirmed⟩
  rw [hl.bucket_cache hreq]
  split_ifs with hn
  · exact Or.inr ⟨hreq n hn, rfl⟩
  · exact hl.bucket_eq n

end Looked

/-! ## One request after another -/

section Specs

variable {h : History} {m₀ : TxManager}

/-- The marks of a request are those of a manager that only looked since the start. -/
lemma Looked.uncached {m : TxManager} (hl : Looked h m₀ m) {n : ℕ}
    (hn : m.isCachedNonce n = false) : m₀.bucket n = [] := by
  have hnil : m.bucket n = [] := by
    by_contra hne
    rw [(m.isCachedNonce_iff n).mpr hne] at hn
    exact Bool.noConfusion hn
  rcases hl.bucket_eq n with heq | ⟨hnil', -⟩
  · exact heq ▸ hnil
  · exact hnil'

lemma latestRound_looked {step : ℕ} {loop : ℤ × Bool} (hlow : -1 ≤ loop.1) :
    Triple (Looked h m₀) (latestRound h.fetcher step loop)
      (fun loop' m => -1 ≤ loop'.1 ∧ Looked h m₀ m) (fun _ => Looked h m₀) := by
  intro m hm
  refine ⟨by simp only; omega, hm.cache fun n hn => ?_⟩
  exact hm.uncached ((TxManager.mem_noncesInRange hlow).mp hn).2.2

lemma getLatestTransactionsIntoCache_looked (fuel : ℕ) {latest : ℤ} (hlow : -1 ≤ latest) :
    Triple (fun m => m = m₀) (getLatestTransactionsIntoCache h.fetcher fuel latest)
      (fun _ => Looked h m₀) (fun _ => Looked h m₀) := by
  rw [getLatestTransactionsIntoCache]
  have hloop : Triple (fun m => -1 ≤ latest ∧ Looked h m₀ m)
      (whileLoop Failure.outOfFuel (fun loop : ℤ × Bool => loop.2)
        (latestRound h.fetcher DEFAULT_FETCH_BATCH_SIZE) fuel (latest, true))
      (fun loop m => (-1 ≤ loop.1 ∧ Looked h m₀ m) ∧ loop.2 = false) (fun _ => Looked h m₀) :=
    Triple.loop_partial (E := fun _ => Looked h m₀) (fun loop m => -1 ≤ loop.1 ∧ Looked h m₀ m)
      (fun _ _ m hm => latestRound_looked hm.1 m hm.2) (fun _ _ hs => hs.2) fuel (latest, true)
  rintro m rfl
  refine Triple.bind hloop (fun loop => ?_) m ⟨hlow, Looked.refl h m⟩
  refine Triple.get_bind fun m' hm' => Triple.ret ?_
  rintro _ rfl
  exact hm'.1.2

/-- **Every nonce of the range is looked at.** -/
lemma fetchTxsIntoCache_seen {inputs : TxFetchingInputs} (hb : 0 < inputs.batchSize)
    (ha : -1 ≤ inputs.after) :
    Total (fun m => m = m₀) (fetchTxsIntoCache h.fetcher inputs) fun txs m => Looked h m₀ m ∧
      txs = m.getCachedTxsWrapper (some inputs.before) (some inputs.after) ∧
      ∀ n : ℕ, inputs.after < n → n < inputs.before → m.bucket n = h.seenBy m₀ n := by
  have hcached : ∀ n : ℕ, m₀.isCachedNonce n = true → m₀.bucket n = h.seenBy m₀ n := fun n hn =>
    (if_neg ((m₀.isCachedNonce_iff n).mp hn)).symm
  refine fetchTxsIntoCache_total hb ha (Looked.refl h m₀) hcached fun nonces m hreq hl => ?_
  have huncached : ∀ n, (n, false) ∈ nonces → m₀.bucket n = [] := fun n hn =>
    (Looked.refl h m₀).uncached (hreq n false hn).2.2
  refine ⟨hl.cache huncached, fun n hn => ?_⟩
  rw [hl.bucket_cache huncached]
  split_ifs with hmem
  · rw [History.seenBy, if_pos (huncached n hmem)]
  · exact hn.resolve_right hmem

lemma fetchTxsIntoCache_looked {inputs : TxFetchingInputs} (hb : 0 < inputs.batchSize)
    (ha : -1 ≤ inputs.after) :
    Total (fun m => m = m₀) (fetchTxsIntoCache h.fetcher inputs) fun _ => Looked h m₀ :=
  (fetchTxsIntoCache_seen hb ha).mono (fun _ hs => hs) (fun _ _ hq => hq.1) fun _ _ he => he

/-! ## What `getTxs` and `fetchTxs` return -/

lemma getTxsInNonceRange_spec {txs : List (Option ElusivTransaction)} {count : ℕ}
    {res : List ElusivTransaction} (hres : getTxsInNonceRange txs (some count) = .ok res) :
    res = takeGroups ElusivTransaction.nonce count (txs.filterMap id) := by
  rcases Nat.eq_zero_or_pos count with rfl | hpos
  · by_cases hnil : txs.filterMap id = []
    · rw [getTxsInNonceRange_eq (Or.inr hnil)] at hres
      exact (Except.ok.inj hres).symm
    · cases hf : txs.filterMap id with
      | nil => exact absurd hf hnil
      | cons tx rest =>
          unfold getTxsInNonceRange at hres
          rw [hf] at hres
          exact nomatch hres
  · rw [getTxsInNonceRange_eq (Or.inl hpos)] at hres
    exact (Except.ok.inj hres).symm

/-- A part of a reading of the manager, down to a nonce in use. -/
def ReadFrom (m : TxManager) (before : ℕ) (txs : List ElusivTransaction) : Prop :=
  ∃ lo ≤ before, txs = between m.bucket lo before ∧ (lo < before → m.bucket lo ≠ [])

lemma readFrom_takeGroups (m : TxManager) (count lo before : ℕ) :
    ReadFrom m before (takeGroups ElusivTransaction.nonce count (between m.bucket lo before)) := by
  have hempty : ReadFrom m before [] :=
    ⟨before, Nat.le_refl _, (between_self m.bucket before).symm, fun hlt => absurd hlt (lt_irrefl _)⟩
  rcases Nat.eq_zero_or_pos count with rfl | hpos
  · rw [takeGroups_zero]
    exact hempty
  · by_cases hnil : between m.bucket lo before = []
    · rw [hnil, takeGroups_nil]
      exact hempty
    · obtain ⟨k, -, hk, ⟨tx, htx, -⟩, heq⟩ := m.graded_bucket.takeGroups_between hpos hnil
      exact ⟨k, Nat.le_of_lt hk, heq, fun _ => List.ne_nil_of_mem htx⟩

lemma getTxs_looked (fuel count before : ℕ) :
    Triple (fun m => m = m₀) (getTxs h.fetcher fuel (some count) (some (before : ℤ)))
      (fun txs m => Looked h m₀ m ∧ ReadFrom m before txs) (fun _ => Looked h m₀) := by
  rw [getTxs]
  refine Triple.get_bind fun m hm => ?_
  subst hm
  have hrange : Triple (fun m' => m' = m)
      (if (some (before : ℤ)).all (fun before => m.getLatestCachedNonce < before) then
        getLatestTransactionsIntoCache h.fetcher fuel m.getLatestCachedNonce
      else pure { before := (some (before : ℤ)).getD MAX_SAFE_INTEGER, after := -1 })
      (fun _ => Looked h m) (fun _ => Looked h m) := by
    split_ifs
    · exact getLatestTransactionsIntoCache_looked fuel m.neg_one_le_getLatestCachedNonce
    · refine Triple.ret ?_
      rintro _ rfl
      exact Looked.refl h _
  refine Triple.bind hrange fun range => Triple.of_forall fun m₁ hm₁ => ?_
  set inputs := prepareTxFetchingParams range (some count) DEFAULT_FETCH_BATCH_SIZE (some (before : ℤ))
    with hinputs
  have hafter : -1 ≤ inputs.after := le_max_right _ _
  have hfetch : Total (fun m => m = m₁) (fetchTxsIntoCache h.fetcher inputs) fun _ => Looked h m₁ :=
    fetchTxsIntoCache_looked (show 0 < DEFAULT_FETCH_BATCH_SIZE by decide) hafter
  refine Triple.bind (hfetch.mono (fun _ hs => hs) (fun _ _ hq => hq) fun _ _ he => he.elim)
    fun _ => ?_
  refine Triple.get_bind fun m' hm' => Triple.lift_any ?_ ?_
  · rintro txs _ hok rfl
    have htxs := getTxsInNonceRange_spec hok
    have hlo : inputs.after = ((inputs.after + 1).toNat : ℤ) - 1 := by omega
    have hsome : ∀ l : List ElusivTransaction, (l.map some).filterMap id = l := fun l => by simp
    rw [hlo, TxManager.getCachedTxsWrapper_eq, hsome] at htxs
    exact ⟨hm₁.trans hm', htxs ▸ readFrom_takeGroups _ _ _ _⟩
  · rintro _ _ - rfl
    exact hm₁.trans hm'

/-- What a call of `fetchTxs` selects: a part of what the manager may see below the bound, in that
order. -/
structure Selected (h : History) (m₀ : TxManager) (count : ℕ) (tokenType : Option TokenType)
    (before : Option ℤ) (txs : List ElusivTransaction) (m : TxManager) : Prop where
  looked : Looked h m₀ m
  sublist : txs.Sublist
    (below (h.tokenSeenBy m₀ tokenType) (before.getD MAX_SAFE_INTEGER).toNat)
  cached : ∀ tx ∈ txs, tx ∈ m.bucket tx.nonce
  count_pos : txs ≠ [] → 0 < count

lemma getLowestFetchedNonceFromBatch_le {batch : List ElusivTransaction} {tx : ElusivTransaction}
    (htx : tx ∈ batch) : getLowestFetchedNonceFromBatch batch ≤ tx.nonce := by
  have hmem : ∀ (batch : List ElusivTransaction) (a : ℕ), tx ∈ batch →
      batch.foldl (fun lowest curr => min lowest curr.nonce) a ≤ tx.nonce := by
    intro batch
    induction batch with
    | nil => exact fun _ h => absurd h List.not_mem_nil
    | cons t batch ih =>
        intro a h
        rcases List.mem_cons.mp h with rfl | h
        · exact Nat.le_trans (foldl_min_nonce_le batch _) (Nat.min_le_right _ _)
        · exact ih _ h
  have hle := hmem batch MAX_UINT32 htx
  rw [getLowestFetchedNonceFromBatch]
  split_ifs <;> omega

/-- The loop of `fetchTxs` after some rounds: what it found was read down to some nonce, and the next
round starts there or below. -/
structure SelectInv (h : History) (m₀ : TxManager) (tokenType : Option TokenType) (hi : ℕ)
    (loop : FetchLoop) (m : TxManager) : Prop where
  looked : Looked h m₀ m
  sublist : ∃ lo ≤ hi, loop.beforeInner ≤ lo ∧
    (loop.res.filterMap id).Sublist (between (h.tokenSeenBy m₀ tokenType) lo hi)
  cached : ∀ tx ∈ loop.res.filterMap id, tx ∈ m.bucket tx.nonce

lemma SelectInv.round {tokenType : Option TokenType} {hi b : ℕ} {loop : FetchLoop}
    {m m' : TxManager} {batch : List ElusivTransaction} (hinv : SelectInv h m₀ tokenType hi loop m)
    (hb : loop.beforeInner = b) (hl : Looked h m m') (hbatch : ReadFrom m' b batch) :
    SelectInv h m₀ tokenType hi (loop.addBatch tokenType batch) m' := by
  obtain ⟨lo, hlo, hle, hsub⟩ := hinv.sublist
  obtain ⟨k, hk, rfl, hne⟩ := hbatch
  have hl₀ := hinv.looked.trans hl
  have hres : (loop.addBatch tokenType (between m'.bucket k b)).res.filterMap id
      = loop.res.filterMap id ++ (between m'.bucket k b).filter fun tx => tx.hasToken tokenType := by
    simp only [FetchLoop.addBatch]
    rw [List.filterMap_append, History.filterMap_mark]
  have hnext : (loop.addBatch tokenType (between m'.bucket k b)).beforeInner ≤ k := by
    show getLowestFetchedNonceFromBatch (between m'.bucket k b) ≤ k
    rcases Nat.lt_or_ge k b with hkb | hkb
    · obtain ⟨tx, htx⟩ := List.exists_mem_of_ne_nil _ (hne hkb)
      have hmem : tx ∈ between m'.bucket k b := mem_between.mpr ⟨k, Nat.le_refl k, hkb, htx⟩
      have hlow := getLowestFetchedNonceFromBatch_le hmem
      rwa [m'.graded_bucket k tx htx] at hlow
    · rw [between_of_le hkb, getLowestFetchedNonceFromBatch_nil]
      omega
  refine ⟨hl₀, ⟨k, by omega, hnext, ?_⟩, fun tx htx => ?_⟩
  · rw [hres, between_append (f := h.tokenSeenBy m₀ tokenType) (by omega : k ≤ lo) hlo]
    refine hsub.append ((hl₀.between_sublist tokenType k b).trans ?_)
    rw [between_append (f := h.tokenSeenBy m₀ tokenType) hk (by omega : b ≤ lo)]
    exact List.sublist_append_right _ _
  · rw [hres, List.mem_append] at htx
    rcases htx with htx | htx
    · exact hl.mem_of_mem (hinv.cached tx htx)
    · exact (m'.graded_bucket.mem_between.mp (List.mem_of_mem_filter htx)).2.2

/-- **What `fetchTxs` returns and marks**, on any manager. -/
theorem fetchTxs_selected (fuel count : ℕ) (tokenType : Option TokenType) (before : Option ℤ) :
    Triple (fun m => m = m₀) (fetchTxs h.fetcher fuel count tokenType before)
      (fun txs m => ∃ m₁, Selected h m₀ count tokenType before txs m₁ ∧
        m = m₁.setAllConfirmed txs.tail) (fun _ => Looked h m₀) := by
  set hi := (before.getD MAX_SAFE_INTEGER).toNat with hhi
  have hround : ∀ loop : FetchLoop, loop.continues count = true →
      Triple (SelectInv h m₀ tokenType hi loop)
        (fetchTxsRound h.fetcher fuel count tokenType loop) (SelectInv h m₀ tokenType hi)
        (fun _ => Looked h m₀) := by
    intro loop hcont
    simp only [FetchLoop.continues, Bool.and_eq_true, decide_eq_true_eq] at hcont
    obtain ⟨b, hb⟩ := Int.eq_ofNat_of_zero_le hcont.1
    refine Triple.of_forall fun m hm => ?_
    rw [fetchTxsRound, hb]
    refine Triple.bind ((getTxs_looked fuel count b).mono (fun _ hs => hs) (fun _ _ hq => hq)
      fun _ m' he => hm.looked.trans he) fun batch => Triple.ret ?_
    rintro m' ⟨hl, hbatch⟩
    exact hm.round hb hl hbatch
  have hloop : Triple (SelectInv h m₀ tokenType hi (FetchLoop.start before))
      (whileLoop Failure.outOfFuel (FetchLoop.continues count)
        (fetchTxsRound h.fetcher fuel count tokenType) fuel (FetchLoop.start before))
      (fun loop m => SelectInv h m₀ tokenType hi loop m ∧ loop.continues count = false)
      (fun _ => Looked h m₀) :=
    Triple.loop_partial (E := fun _ => Looked h m₀) (SelectInv h m₀ tokenType hi) hround
      (fun _ _ hs => hs.looked) fuel (FetchLoop.start before)
  rintro m rfl
  have hstart : SelectInv h m tokenType hi (FetchLoop.start before) m := by
    refine ⟨Looked.refl h m, ⟨hi, Nat.le_refl hi, ?_, List.nil_sublist _⟩, fun tx htx => ?_⟩
    · show before.getD MAX_SAFE_INTEGER ≤ hi
      omega
    · exact absurd htx List.not_mem_nil
  rw [fetchTxs]
  refine Triple.bind hloop (fun loop => ?_) m hstart
  refine Triple.bind (Q := Selected h m count tokenType before) (Triple.lift_any ?_ ?_) fun txs => ?_
  · rintro txs m' hok ⟨hinv, -⟩
    obtain rfl := getTxsInNonceRange_spec hok
    obtain ⟨lo, hlo, -, hsub⟩ := hinv.sublist
    have htake := takeGroups_sublist ElusivTransaction.nonce count (loop.res.filterMap id)
    refine ⟨hinv.looked, ?_, fun tx htx => hinv.cached tx (htake.subset htx), fun hne => ?_⟩
    · have hall : (between (h.tokenSeenBy m tokenType) lo hi).Sublist
          (below (h.tokenSeenBy m tokenType) hi) := by
        rw [below, between_append (f := h.tokenSeenBy m tokenType) (Nat.zero_le lo) hlo]
        exact List.sublist_append_left _ _
      exact (htake.trans hsub).trans hall
    · by_contra hz
      rw [Nat.eq_zero_of_not_pos hz, takeGroups_zero] at hne
      exact hne rfl
  · rintro _ m' - ⟨hinv, -⟩
    exact hinv.looked
  · refine Triple.update_bind (Triple.ret ?_)
    rintro _ ⟨m₁, hm₁, rfl⟩
    exact ⟨m₁, hm₁, rfl⟩

end Specs

end ElusivSdk
