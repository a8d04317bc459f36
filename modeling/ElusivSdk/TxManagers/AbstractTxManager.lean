import ElusivSdk.Chain.History
import ElusivSdk.Library.Program

/-!
# Fetching transactions through the cache

`AbstractTxManager` answers requests for the newest transactions before some nonce.  It first brings
the newest transactions into the cache, in a loop over windows of ten nonces that **stops at the
first empty answer**, and then fetches every nonce of the requested range that is not cached.  The
request itself, `getTxsFromNonces`, is abstract in the source and a parameter here.

* `getLatestTransactionsIntoCache`, `fetchTxsIntoCache`, `getTxs` — the translated methods, for one
  call that runs alone.
* `Fetched` — what any of them does to a manager: it stays coherent, keeps what it had, and writes
  no status.
* **`getTxs_spec`** — on a coherent manager `getTxs` returns `History.read`, which mentions the chain
  only: what was cached before has no influence on the answer.
-/

namespace ElusivSdk

open Descending Program

/-- Computations on a transaction manager. -/
abbrev ManagerM := Prog Failure TxManager

structure TxFetchingInputs where
  batchSize : ℕ
  before : ℤ
  after : ℤ

/-- A range of nonces, both ends exclusive. -/
structure CachedRange where
  before : ℤ
  after : ℤ

/-- The first `count` transactions; when the next one has the nonce of the last one taken, the rest
of that nonce follows. -/
def getTxsInNonceRange (txs : List (Option ElusivTransaction)) (count : Option ℕ) :
    Except Failure (List ElusivTransaction) :=
  match txs.filterMap id, count with
  | [], _ => .ok []
  | filtered, none => .ok filtered
  -- `filtered[count - 1]` is `undefined`
  | _, some 0 => .error .typeError
  | filtered, some (n + 1) =>
      let res := filtered.take (n + 1)
      match filtered[n]?, filtered[n + 1]? with
      | some last, some next =>
          if last.nonce = next.nonce then
            .ok (res ++ (filtered.drop (n + 1)).takeWhile fun tx => tx.nonce = next.nonce)
          else .ok res
      | _, _ => .ok res

def prepareTxFetchingParams (preFetchedRange : CachedRange) (count : Option ℕ) (batchSize : ℕ)
    (before : Option ℤ) : TxFetchingInputs :=
  let defaultBefore := preFetchedRange.before
  let beforeInner := match before with
    | none => defaultBefore
    | some before => min before defaultBefore
  let after := match count with
    | none => -1
    | some count => beforeInner - count - 1
  { batchSize := batchSize, before := beforeInner, after := max after (-1) }

namespace TxManager

/-- The request for the nonces of a range; each nonce is marked with whether it is cached now. -/
def noncesInRange (m : TxManager) (before after : ℤ) : List (ℕ × Bool) :=
  (List.range (before - (after + 1)).toNat).map fun i : ℕ =>
    ((after + 1 + i).toNat, m.isCachedNonce (after + 1 + i))

/-- The requests that the loop of `fetchTxsIntoCache` starts, from `counter` down.  The loop awaits
none of them, so every mark is computed on one state of the cache.  With `batchSize = 0` the counter
would stand still at the first uncached nonce. -/
def startBatches (m : TxManager) (inputs : TxFetchingInputs) :
    ℕ → ℤ → Except Failure (List (List (ℕ × Bool)))
  | 0, counter => if inputs.after < counter then .error .outOfFuel else .ok []
  | fuel + 1, counter =>
      if inputs.after < counter then
        if m.isCachedNonce counter then startBatches m inputs fuel (counter - 1)
        else do
          let before := counter + 1
          let afterInner := max inputs.after (before - inputs.batchSize - 1)
          let rest ← startBatches m inputs fuel (counter - inputs.batchSize)
          .ok (m.noncesInRange before afterInner :: rest)
      else .ok []

/-- All requests of one call; the loop runs at most once for every nonce of the range. -/
def startAllBatches (m : TxManager) (inputs : TxFetchingInputs) :
    Except Failure (List (List (ℕ × Bool))) :=
  m.startBatches inputs (inputs.before - 1 - inputs.after).toNat (inputs.before - 1)

end TxManager

section Methods

variable (getTxsFromNonces : List (ℕ × Bool) → Except Failure (List ElusivTransaction))

/-- Await the answer to a request and cache it. -/
def fetchAndCache (nonces : List (ℕ × Bool)) : ManagerM (List ElusivTransaction) := do
  let txs ← lift (getTxsFromNonces nonces)
  modify fun m => m.cache txs
  pure txs

def fetchAndCacheTxsInRange (before after : ℤ) : ManagerM (List ElusivTransaction) := do
  let m ← get
  fetchAndCache getTxsFromNonces (m.noncesInRange before after)

/-- One round of the loop over the newest nonces.  The loop state is the counter `i` and whether the
last answer held anything. -/
def latestRound (stepSize : ℕ) (loop : ℤ × Bool) : ManagerM (ℤ × Bool) := do
  let txBatch ← fetchAndCacheTxsInRange getTxsFromNonces (loop.1 + stepSize + 1) loop.1
  pure (loop.1 + stepSize, txBatch.length != 0)

def getLatestTransactionsIntoCache (fuel : ℕ) (latestCachedNonce : ℤ)
    (stepSize : ℕ := DEFAULT_FETCH_BATCH_SIZE) : ManagerM CachedRange := do
  let _ ← whileLoop Failure.outOfFuel (fun loop : ℤ × Bool => loop.2)
    (latestRound getTxsFromNonces stepSize) fuel (latestCachedNonce, true)
  let m ← get
  pure { after := latestCachedNonce, before := m.getLatestCachedNonce + 1 }

def fetchTxsIntoCache (inputs : TxFetchingInputs) : ManagerM (List ElusivTransaction) := do
  let m ← get
  let fetchedBatches ← lift (m.startAllBatches inputs)
  fetchedBatches.forM fun nonces => discard (fetchAndCache getTxsFromNonces nonces)
  let m ← get
  pure (m.getCachedTxsWrapper (some inputs.before) (some inputs.after))

def getTxs (fuel : ℕ) (count : Option ℕ) (before : Option ℤ := none)
    (batchSize : ℕ := DEFAULT_FETCH_BATCH_SIZE) : ManagerM (List ElusivTransaction) := do
  let m ← get
  let latestCachedNonce := m.getLatestCachedNonce
  let cachedRange ← (
    if before.all (fun before => latestCachedNonce < before) then
      getLatestTransactionsIntoCache getTxsFromNonces fuel latestCachedNonce
    else pure { before := before.getD MAX_SAFE_INTEGER, after := -1 })
  let inputs := prepareTxFetchingParams cachedRange count batchSize before
  let _ ← fetchTxsIntoCache getTxsFromNonces inputs
  let m ← get
  lift (getTxsInNonceRange ((m.getCachedTxsWrapper before (some inputs.after)).map some) count)

end Methods

/-! ## The parts that await nothing -/

/-- For a positive count the range is the whole groups taken. -/
lemma getTxsInNonceRange_eq {txs : List (Option ElusivTransaction)} {count : ℕ}
    (h : 0 < count ∨ txs.filterMap id = []) :
    getTxsInNonceRange txs (some count)
      = .ok (takeGroups ElusivTransaction.nonce count (txs.filterMap id)) := by
  unfold getTxsInNonceRange
  cases hf : txs.filterMap id with
  | nil => simp
  | cons tx rest =>
      cases count with
      | zero =>
          rw [hf] at h
          simp at h
      | succ n =>
          rw [takeGroups_succ_eq]
          simp only
          cases hlast : (tx :: rest)[n]? with
          | none => simp
          | some last =>
              cases hnext : (tx :: rest)[n + 1]? with
              | none =>
                  have hdrop : (tx :: rest).drop (n + 1) = [] :=
                    List.drop_eq_nil_of_le (List.getElem?_eq_none_iff.mp hnext)
                  simp [hdrop]
              | some next =>
                  simp only
                  split_ifs with hn
                  · simp [hn]
                  · have hdrop : ((tx :: rest).drop (n + 1)).takeWhile
                        (fun tx => decide (tx.nonce = last.nonce)) = [] := by
                      have hhead : ((tx :: rest).drop (n + 1)).head? = some next := by
                        rw [List.head?_drop, hnext]
                      cases hd : (tx :: rest).drop (n + 1) with
                      | nil => rfl
                      | cons d ds =>
                          rw [hd] at hhead
                          obtain rfl : d = next := by simpa using hhead
                          rw [List.takeWhile_cons_of_neg]
                          simpa using Ne.symm hn
                    rw [hdrop, List.append_nil]

lemma getTxsInNonceRange_map_some {txs : List ElusivTransaction} {count : ℕ} (h : 0 < count) :
    getTxsInNonceRange (txs.map some) (some count)
      = .ok (takeGroups ElusivTransaction.nonce count txs) := by
  rw [getTxsInNonceRange_eq (Or.inl h)]
  simp

namespace TxManager

lemma mem_noncesInRange {m : TxManager} {before after : ℤ} (ha : -1 ≤ after) {n : ℕ} {b : Bool} :
    (n, b) ∈ m.noncesInRange before after ↔ after < n ∧ n < before ∧ m.isCachedNonce n = b := by
  simp only [noncesInRange, List.mem_map, List.mem_range, Prod.mk.injEq]
  constructor
  · rintro ⟨i, hi, hn, hb⟩
    have hcast : after + 1 + i = n := by omega
    rw [hcast] at hb
    exact ⟨by omega, by omega, hb⟩
  · rintro ⟨h1, h2, hb⟩
    have hcast : after + 1 + ((n - (after + 1)).toNat : ℤ) = n := by omega
    exact ⟨(n - (after + 1)).toNat, by omega, by omega, by rw [hcast]; exact hb⟩

/-- A request of a call: its nonces lie in the range and carry their marks. -/
def IsRequest (m : TxManager) (inputs : TxFetchingInputs) (nonces : List (ℕ × Bool)) : Prop :=
  ∀ n b, (n, b) ∈ nonces → inputs.after < n ∧ n < inputs.before ∧ m.isCachedNonce n = b

/-- **The requests cover every uncached nonce of the range.** -/
lemma startBatches_spec (m : TxManager) (inputs : TxFetchingInputs) (hb : 0 < inputs.batchSize)
    (ha : -1 ≤ inputs.after) :
    ∀ (fuel : ℕ) (counter : ℤ), counter < inputs.before → counter - inputs.after ≤ fuel →
      ∃ batches, m.startBatches inputs fuel counter = .ok batches ∧
        (∀ nonces ∈ batches, m.IsRequest inputs nonces) ∧
        ∀ n : ℕ, inputs.after < n → n ≤ counter → m.isCachedNonce n = false →
          ∃ nonces ∈ batches, (n, false) ∈ nonces
  | 0, counter, _, hfuel => by
      refine ⟨[], ?_, by simp, fun n h1 h2 _ => by omega⟩
      rw [startBatches, if_neg (by omega)]
  | fuel + 1, counter, hlt, hfuel => by
      rw [startBatches]
      by_cases hc : inputs.after < counter
      · rw [if_pos hc]
        obtain ⟨c, rfl⟩ := Int.eq_ofNat_of_zero_le (by omega : 0 ≤ counter)
        cases hcached : m.isCachedNonce c with
        | true =>
            rw [if_pos rfl]
            obtain ⟨batches, hok, hreq, hcov⟩ :=
              startBatches_spec m inputs hb ha fuel (c - 1) (by omega) (by omega)
            refine ⟨batches, hok, hreq, fun n h1 h2 h3 => ?_⟩
            have hne : n ≠ c := by
              rintro rfl
              rw [hcached] at h3
              exact Bool.noConfusion h3
            exact hcov n h1 (by omega) h3
        | false =>
            rw [if_neg (by simp)]
            obtain ⟨batches, hok, hreq, hcov⟩ :=
              startBatches_spec m inputs hb ha fuel (c - inputs.batchSize) (by omega) (by omega)
            have hmax : -1 ≤ max inputs.after ((c : ℤ) + 1 - inputs.batchSize - 1) := by omega
            refine ⟨_ :: batches, by rw [hok]; rfl, ?_, fun n h1 h2 h3 => ?_⟩
            · intro nonces hn
              rcases List.mem_cons.mp hn with rfl | hn
              · intro k b hk
                obtain ⟨h1, h2, h3⟩ := (mem_noncesInRange hmax).mp hk
                exact ⟨by omega, by omega, h3⟩
              · exact hreq nonces hn
            · by_cases hw : (n : ℤ) ≤ c - inputs.batchSize
              · obtain ⟨nonces, hmem, hn⟩ := hcov n h1 hw h3
                exact ⟨nonces, List.mem_cons_of_mem _ hmem, hn⟩
              · exact ⟨_, List.mem_cons_self .., (mem_noncesInRange hmax).mpr
                  ⟨by omega, by omega, h3⟩⟩
      · rw [if_neg hc]
        exact ⟨[], rfl, by simp, fun n h1 h2 _ => by omega⟩

lemma startAllBatches_spec (m : TxManager) (inputs : TxFetchingInputs)
    (hb : 0 < inputs.batchSize) (ha : -1 ≤ inputs.after) :
    ∃ batches, m.startAllBatches inputs = .ok batches ∧
      (∀ nonces ∈ batches, m.IsRequest inputs nonces) ∧
      ∀ n : ℕ, inputs.after < n → n < inputs.before → m.isCachedNonce n = false →
        ∃ nonces ∈ batches, (n, false) ∈ nonces := by
  obtain ⟨batches, hok, hreq, hcov⟩ := m.startBatches_spec inputs hb ha
    (inputs.before - 1 - inputs.after).toNat (inputs.before - 1) (by omega) (by omega)
  exact ⟨batches, hok, hreq, fun n h1 h2 h3 => hcov n h1 (by omega) h3⟩

end TxManager

/-! ## One call on a chain that does not change

The specifications are for the fetcher of a fixed `History` and speak of the manager `m₀` at the
start of the call.
-/

/-- The fetcher that answers from a fixed history. -/
abbrev History.fetcher (h : History) : List (ℕ × Bool) → Except Failure (List ElusivTransaction) :=
  fun nonces => .ok (h.fetch nonces)

/-- What fetching does to a manager. -/
structure Fetched (h : History) (m m' : TxManager) : Prop where
  coherent : Coherent h m'
  keeps : ∀ n, m.bucket n = h.bucket n → m'.bucket n = h.bucket n
  confirmed : m'.confirmed = m.confirmed

namespace Fetched

variable {h : History} {m m' m'' : TxManager}

lemma refl (hc : Coherent h m) : Fetched h m m := ⟨hc, fun _ hn => hn, rfl⟩

lemma trans (h₁ : Fetched h m m') (h₂ : Fetched h m' m'') : Fetched h m m'' :=
  ⟨h₂.coherent, fun n hn => h₂.keeps n (h₁.keeps n hn), h₂.confirmed.trans h₁.confirmed⟩

lemma cache (hc : Coherent h m) (nonces : List (ℕ × Bool)) :
    Fetched h m (m.cache (h.fetch nonces)) := by
  obtain ⟨hc', hin, hout⟩ := hc.cache_fetch nonces
  refine ⟨hc', fun n hn => ?_, rfl⟩
  by_cases hmem : (n, false) ∈ nonces
  · exact hin n hmem
  · rw [hout n hmem, hn]

end Fetched

namespace Coherent

variable {h : History} {m : TxManager}

lemma latest_lt (hc : Coherent h m) : m.getLatestCachedNonce < h.length := by
  have hge := m.neg_one_le_getLatestCachedNonce
  by_contra hlt
  have hne := m.bucket_getLatestCachedNonce (n := m.getLatestCachedNonce.toNat) (by omega)
  have := hc.lt_length hne
  omega

/-- A manager that holds the newest nonces completely knows the newest one. -/
lemma latest_eq (hc : Coherent h m) (hfull : ∀ n, h.length = n + 1 → m.bucket n = h.bucket n) :
    m.getLatestCachedNonce + 1 = h.length := by
  cases hlen : h.length with
  | zero =>
      rw [m.getLatestCachedNonce_eq_neg_one fun k => hc.eq_nil_of_length_le (by omega)]
      rfl
  | succ n =>
      have hne : h.bucket n ≠ [] := fun hnil =>
        h.ne_nil_of_newest n hlen ((h.bucket_eq_nil_iff n).mp hnil)
      rw [m.getLatestCachedNonce_eq (n := n) (by rw [hfull n hlen]; exact hne)
        fun k hk => hc.eq_nil_of_length_le (by omega)]
      omega

end Coherent

section Specs

variable {h : History} {m₀ : TxManager}

/-- The state of the loop over the newest nonces: what lies between the start and the counter is
cached, nothing above the counter is, and after an empty answer nothing is left above. -/
structure LatestInv (h : History) (m₀ : TxManager) (loop : ℤ × Bool) (m : TxManager) : Prop where
  fetched : Fetched h m₀ m
  start_le : m₀.getLatestCachedNonce ≤ loop.1
  covers : ∀ n : ℕ, m₀.getLatestCachedNonce < n → n ≤ loop.1 → m.bucket n = h.bucket n
  above : ∀ n : ℕ, loop.1 < n → m.bucket n = []
  finished : loop.2 = false → h.length ≤ loop.1 + 1

/-- The rounds that are left at most. -/
def latestVariant (h : History) (step : ℕ) (loop : ℤ × Bool) : ℕ :=
  if loop.2 then (h.length + step - loop.1).toNat + 1 else 0

/-! ### The windows above the newest cached nonce -/

section Window

variable {m : TxManager} {lo : ℤ} {step : ℕ}

/-- Above the bound nothing is cached, so the whole window is looked up. -/
lemma mem_window (hlo : -1 ≤ lo) (habove : ∀ n : ℕ, lo < n → m.bucket n = []) {n : ℕ} :
    (n, false) ∈ m.noncesInRange (lo + step + 1) lo ↔ lo < n ∧ n ≤ lo + step := by
  rw [TxManager.mem_noncesInRange (by omega), ← Bool.not_eq_true, TxManager.isCachedNonce_iff, not_not]
  exact ⟨fun hn => ⟨hn.1, by omega⟩, fun hn => ⟨hn.1, by omega, habove n hn.1⟩⟩

/-- A window with a transaction in it starts below the end of the chain. -/
lemma lt_length_of_window (hlo : -1 ≤ lo)
    (hne : (h.fetch (m.noncesInRange (lo + step + 1) lo)).length != 0) : lo < h.length := by
  have hsome : h.fetch (m.noncesInRange (lo + step + 1) lo) ≠ [] := by simpa using hne
  obtain ⟨tx, htx⟩ := List.exists_mem_of_ne_nil _ hsome
  obtain ⟨n, hn, htx⟩ := History.mem_fetch.mp htx
  have hlen : n < h.length := by
    by_contra hge
    rw [h.eq_nil_of_length_le n (by omega)] at htx
    exact List.not_mem_nil htx
  have := ((TxManager.mem_noncesInRange (by omega)).mp hn).1
  omega

/-- After an empty window nothing is left above it. -/
lemma length_le_of_window (hlo : -1 ≤ lo) (habove : ∀ n : ℕ, lo < n → m.bucket n = [])
    (hg : ∀ k : ℕ, lo < k → k < h.length → ∃ n, k ≤ n ∧ n < k + step ∧ h.txsAt n ≠ [])
    (hempty : ((h.fetch (m.noncesInRange (lo + step + 1) lo)).length != 0) = false) :
    h.length ≤ lo + 1 := by
  have hnil : h.fetch (m.noncesInRange (lo + step + 1) lo) = [] := by simpa using hempty
  by_contra hlen
  obtain ⟨n, h1, h2, h3⟩ := hg (lo + 1).toNat (by omega) (by omega)
  exact h3 (History.fetch_eq_nil_iff.mp hnil n ((mem_window hlo habove).mpr ⟨by omega, by omega⟩))

end Window

/-- The loop ends, and in its invariant, when each window keeps it and a window that finds something
starts below the end of the chain. -/
lemma latestLoop_total {Inv : ℤ × Bool → TxManager → Prop} {step fuel : ℕ} {start : ℤ}
    (hstart : -1 ≤ start) (hs : 0 < step) (hfuel : h.length + step + 3 ≤ fuel)
    (hwindow : ∀ loop m, Inv loop m →
      Inv (loop.1 + step, (h.fetch (m.noncesInRange (loop.1 + step + 1) loop.1)).length != 0)
          (m.cache (h.fetch (m.noncesInRange (loop.1 + step + 1) loop.1))) ∧
        ((h.fetch (m.noncesInRange (loop.1 + step + 1) loop.1)).length != 0 → loop.1 < h.length)) :
    Total (Inv (start, true))
      (whileLoop Failure.outOfFuel (fun loop : ℤ × Bool => loop.2) (latestRound h.fetcher step) fuel
        (start, true)) fun loop m => Inv loop m ∧ loop.2 = false := by
  have hround : ∀ loop : ℤ × Bool, loop.2 = true →
      Total (Inv loop) (latestRound h.fetcher step loop) fun loop' m =>
        Inv loop' m ∧ latestVariant h step loop' < latestVariant h step loop := by
    intro loop hmore m hinv
    obtain ⟨hinv', hlt⟩ := hwindow loop m hinv
    refine ⟨hinv', ?_⟩
    simp only [latestVariant, hmore, if_true]
    split_ifs with hne
    · have := hlt hne
      omega
    · omega
  exact Triple.loop Inv (latestVariant h step) hround fuel _
    (by simp only [latestVariant, if_true]; omega)

/-- Everything above the start is cached once the loop has ended. -/
lemma covers_of_finished {m : TxManager} {start : ℤ} {loop : ℤ × Bool}
    (hcovers : ∀ n : ℕ, start < n → n ≤ loop.1 → m.bucket n = h.bucket n)
    (habove : ∀ n : ℕ, loop.1 < n → m.bucket n = []) (hfinished : h.length ≤ loop.1 + 1) (n : ℕ)
    (hn : start < n) : m.bucket n = h.bucket n := by
  by_cases hnle : (n : ℤ) ≤ loop.1
  · exact hcovers n hn hnle
  · rw [habove n (by omega), h.bucket_of_length_le (by omega)]

/-- One window of the loop. -/
lemma LatestInv.step {step : ℕ} (hg : h.GapsBelow step) {loop : ℤ × Bool} {m : TxManager}
    (hinv : LatestInv h m₀ loop m) :
    LatestInv h m₀
        (loop.1 + step, (h.fetch (m.noncesInRange (loop.1 + step + 1) loop.1)).length != 0)
        (m.cache (h.fetch (m.noncesInRange (loop.1 + step + 1) loop.1))) ∧
      ((h.fetch (m.noncesInRange (loop.1 + step + 1) loop.1)).length != 0 → loop.1 < h.length) := by
  have hlow := m₀.neg_one_le_getLatestCachedNonce
  have hstart := hinv.start_le
  have hmem : ∀ n : ℕ, (n, false) ∈ m.noncesInRange (loop.1 + step + 1) loop.1 ↔ _ := fun n =>
    mem_window (by omega) hinv.above
  obtain ⟨-, hin, hout⟩ := hinv.fetched.coherent.cache_fetch
    (m.noncesInRange (loop.1 + step + 1) loop.1)
  refine ⟨⟨hinv.fetched.trans (Fetched.cache hinv.fetched.coherent _), by simp only; omega,
    fun n h1 h2 => ?_, fun n hn => ?_, fun hempty => ?_⟩, lt_length_of_window (by omega)⟩
  · simp only at h2
    by_cases hn : n ≤ loop.1
    · rw [hout n fun hmem' => absurd ((hmem n).mp hmem').1 (by omega)]
      exact hinv.covers n h1 hn
    · exact hin n ((hmem n).mpr ⟨by omega, h2⟩)
  · simp only at hn
    rw [hout n fun hmem' => absurd ((hmem n).mp hmem').2 (by omega)]
    exact hinv.above n (by omega)
  · have := length_le_of_window (by omega) hinv.above (fun k _ => hg k) hempty
    simp only
    omega

/-- **The newest transactions end up in the cache**, and the range returned ends at the newest
nonce of the chain. -/
theorem getLatestTransactionsIntoCache_spec (hc : Coherent h m₀) {step fuel : ℕ} (hs : 0 < step)
    (hg : h.GapsBelow step) (hfuel : h.length + step + 3 ≤ fuel) :
    Total (fun m => m = m₀)
      (getLatestTransactionsIntoCache h.fetcher fuel m₀.getLatestCachedNonce step)
      fun range m => range.before = h.length ∧ Fetched h m₀ m ∧
        ∀ n : ℕ, m₀.getLatestCachedNonce < n → m.bucket n = h.bucket n := by
  have hlow := m₀.neg_one_le_getLatestCachedNonce
  have hloop := @latestLoop_total h (LatestInv h m₀) step fuel _ hlow hs hfuel
    fun loop m hinv => hinv.step hg
  rintro m rfl
  obtain ⟨loop, m', hrun, hinv, hend⟩ := Total.run hloop (s := m)
    ⟨Fetched.refl hc, Int.le_refl _, fun n h1 h2 => by simp only at h2; omega,
      fun n hn => m.bucket_eq_nil_of_latest_lt hn, fun hf => Bool.noConfusion hf⟩
  have hcovers := covers_of_finished hinv.covers hinv.above (hinv.finished hend)
  have hnewest : ∀ n, h.length = n + 1 → m'.bucket n = h.bucket n := by
    intro n hn
    by_cases hlt : m.getLatestCachedNonce < n
    · exact hcovers n hlt
    · have hL := hc.latest_lt
      exact hinv.fetched.keeps n
        (hc n (m.bucket_getLatestCachedNonce (by omega)))
  rw [getLatestTransactionsIntoCache, exec_bind, hrun]
  exact ⟨hinv.fetched.coherent.latest_eq hnewest, hinv.fetched, hcovers⟩

/-- What every request keeps holds in the end, and of every nonce of the range what holds of the cached
ones and of those that have been requested. -/
lemma fetchTxsIntoCache_total {inputs : TxFetchingInputs} (hb : 0 < inputs.batchSize)
    (ha : -1 ≤ inputs.after) {Inv : TxManager → Prop} {Done : TxManager → ℕ → Prop} (hinv : Inv m₀)
    (hcached : ∀ n : ℕ, m₀.isCachedNonce n = true → Done m₀ n)
    (hrequest : ∀ nonces m, m₀.IsRequest inputs nonces → Inv m → Inv (m.cache (h.fetch nonces)) ∧
      ∀ n, Done m n ∨ (n, false) ∈ nonces → Done (m.cache (h.fetch nonces)) n) :
    Total (fun m => m = m₀) (fetchTxsIntoCache h.fetcher inputs) fun txs m => Inv m ∧
      txs = m.getCachedTxsWrapper (some inputs.before) (some inputs.after) ∧
      ∀ n : ℕ, inputs.after < n → n < inputs.before → Done m n := by
  obtain ⟨batches, hok, hreq, hcov⟩ := m₀.startAllBatches_spec inputs hb ha
  -- a nonce of the range is done already or still to come
  let inv : List (List (ℕ × Bool)) → TxManager → Prop := fun rest m =>
    (∀ nonces ∈ rest, m₀.IsRequest inputs nonces) ∧ Inv m ∧
      ∀ n : ℕ, inputs.after < n → n < inputs.before →
        Done m n ∨ ∃ nonces ∈ rest, (n, false) ∈ nonces
  have hbatch : ∀ nonces rest, Total (inv (nonces :: rest))
      (discard (fetchAndCache h.fetcher nonces)) fun _ => inv rest := by
    rintro nonces rest m ⟨hall, hm, hdone⟩
    obtain ⟨hm', hdone'⟩ := hrequest nonces m (hall nonces List.mem_cons_self) hm
    refine ⟨fun x hx => hall x (List.mem_cons_of_mem _ hx), hm', fun n h1 h2 => ?_⟩
    rcases hdone n h1 h2 with hn | ⟨nonces', hmem, hn⟩
    · exact Or.inl (hdone' n (Or.inl hn))
    · rcases List.mem_cons.mp hmem with rfl | hmem
      · exact Or.inl (hdone' n (Or.inr hn))
      · exact Or.inr ⟨nonces', hmem, hn⟩
  have hbatches := Triple.iterate inv hbatch batches
  refine Triple.get_bind fun m hm => ?_
  subst hm
  refine Triple.bind (Triple.lift_ok (Q := fun b m' => b = batches ∧ m' = m) hok
    fun s hs => ⟨rfl, hs⟩) fun b => ?_
  rintro s ⟨rfl, rfl⟩
  refine Triple.bind (P := inv b) hbatches (fun _ => ?_) s ⟨hreq, hinv, fun n h1 h2 => ?_⟩
  · refine Triple.get_bind fun m' hm' => Triple.ret ?_
    rintro _ rfl
    refine ⟨hm'.2.1, rfl, fun n h1 h2 => ?_⟩
    rcases hm'.2.2 n h1 h2 with hn | ⟨nonces, hmem, -⟩
    · exact hn
    · exact absurd hmem List.not_mem_nil
  · cases hn : s.isCachedNonce n with
    | true => exact Or.inl (hcached n hn)
    | false => exact Or.inr (hcov n h1 h2 hn)

/-- **Every nonce of the range ends up in the cache.** -/
theorem fetchTxsIntoCache_spec (hc : Coherent h m₀) {inputs : TxFetchingInputs}
    (hb : 0 < inputs.batchSize) (ha : -1 ≤ inputs.after) :
    Total (fun m => m = m₀) (fetchTxsIntoCache h.fetcher inputs)
      fun _ m => Fetched h m₀ m ∧
        ∀ n : ℕ, inputs.after < n → n < inputs.before → m.bucket n = h.bucket n := by
  have hcached : ∀ n : ℕ, m₀.isCachedNonce n = true → m₀.bucket n = h.bucket n := fun n hn =>
    hc n ((m₀.isCachedNonce_iff n).mp hn)
  refine (fetchTxsIntoCache_total hb ha (Fetched.refl hc) hcached fun nonces m _ hf => ?_).mono
    (fun _ hs => hs) (fun _ _ hq => ⟨hq.1, hq.2.2⟩) fun _ _ he => he
  have hstep := Fetched.cache hf.coherent nonces
  refine ⟨hf.trans hstep, fun n hn => ?_⟩
  rcases hn with hn | hn
  · exact hstep.keeps n hn
  · exact (hf.coherent.cache_fetch nonces).2.1 n hn

end Specs

/-! ## What `getTxs` returns -/

namespace History

/-- One more than the largest nonce below `before` that can be in use. -/
def top (h : History) (before : Option ℤ) : ℕ :=
  min h.length ((before.map Int.toNat).getD h.length)

/-- The transactions of the `count` nonces below `before`, cut to `count` transactions and completed
to whole nonces. -/
def read (h : History) (count : ℕ) (before : Option ℤ) : List ElusivTransaction :=
  takeGroups ElusivTransaction.nonce count
    (between h.bucket (h.top before - count) (h.top before))

lemma top_le (h : History) (before : Option ℤ) : h.top before ≤ h.length := Nat.min_le_left _ _

/-- On a gapless chain the nonces below the requested range are never needed. -/
lemma Gapless.read_eq {h : History} (hg : h.Gapless) (count : ℕ) (before : Option ℤ) :
    h.read count before
      = takeGroups ElusivTransaction.nonce count (below h.bucket (h.top before)) := by
  have htop := h.top_le before
  rcases Nat.le_total (h.top before) count with hle | hle
  · rw [read, Nat.sub_eq_zero_of_le hle]
  · refine (h.graded_bucket.takeGroups_below (Nat.sub_le _ _) ?_).symm
    have hlen : h.top before - (h.top before - count)
        ≤ (between h.bucket (h.top before - count) (h.top before)).length :=
      sub_le_length_between fun n _ hn => hg.bucket_ne_nil (by omega)
    omega

end History

/-- A manager that has everything below `top` from `lo` up gives back what the chain holds there. -/
lemma Coherent.getCachedTxsWrapper_eq {h : History} {m : TxManager} (hc : Coherent h m)
    {before : Option ℤ} (hbefore : before.all (0 ≤ ·)) {lo : ℕ}
    (hcov : Covers h m lo (h.top before)) :
    m.getCachedTxsWrapper before (some (lo - 1 : ℤ)) = between h.bucket lo (h.top before) := by
  rw [← between_congr fun n h1 h2 => hcov n h1 h2]
  cases before with
  | none =>
      have htop : h.top none = h.length := Nat.min_self _
      rw [m.getCachedTxsWrapper_none (Nat.le_max_right h.length m.fetchedTxs.cached.length), htop]
      exact between_eq_of_empty (Nat.le_max_left _ _) fun n hn => hc.eq_nil_of_length_le hn
  | some b =>
      obtain ⟨b, rfl⟩ := Int.eq_ofNat_of_zero_le (by simpa using hbefore : 0 ≤ b)
      have htop : h.top (some (b : ℤ)) = min h.length b := rfl
      rw [m.getCachedTxsWrapper_eq lo b, htop]
      rcases Nat.le_total b h.length with hb | hb
      · rw [Nat.min_eq_right hb]
      · rw [Nat.min_eq_left hb]
        exact between_eq_of_empty hb fun n hn => hc.eq_nil_of_length_le hn

/-- **What `getTxs` returns depends on the chain alone.** -/
theorem getTxs_spec {h : History} {m₀ : TxManager} (hc : Coherent h m₀)
    (hg : h.GapsBelow DEFAULT_FETCH_BATCH_SIZE) {fuel count batchSize : ℕ}
    (hfuel : h.length + DEFAULT_FETCH_BATCH_SIZE + 3 ≤ fuel) (hcount : 0 < count)
    (hbatch : 0 < batchSize) {before : Option ℤ} (hbefore : before.all (0 ≤ ·)) :
    Total (fun m => m = m₀) (getTxs h.fetcher fuel (some count) before batchSize)
      fun txs m => txs = h.read count before ∧ Fetched h m₀ m := by
  -- the range found ends at the newest nonce or, with an older bound, at that bound
  let rangeOk : CachedRange → TxManager → Prop := fun range m => Fetched h m₀ m ∧
    (prepareTxFetchingParams range (some count) batchSize before).before = h.top before
  have hrange : Total (fun m => m = m₀)
      (if before.all (fun before => m₀.getLatestCachedNonce < before) then
        getLatestTransactionsIntoCache h.fetcher fuel m₀.getLatestCachedNonce
      else pure { before := before.getD MAX_SAFE_INTEGER, after := -1 }) rangeOk := by
    split_ifs with hlatest
    · refine (getLatestTransactionsIntoCache_spec hc (by decide) hg hfuel).mono (fun _ hs => hs) ?_
        fun _ _ he => he
      rintro range m ⟨hrange, hf, -⟩
      refine ⟨hf, ?_⟩
      cases before with
      | none => simp [prepareTxFetchingParams, hrange, History.top]
      | some b =>
          have hb : 0 ≤ b := by simpa using hbefore
          simp only [prepareTxFetchingParams, hrange, History.top, Option.map_some,
            Option.getD_some]
          omega
    · refine Triple.ret ?_
      rintro m rfl
      refine ⟨Fetched.refl hc, ?_⟩
      have hlt := hc.latest_lt
      cases before with
      | none => simp at hlatest
      | some b =>
          have hb : 0 ≤ b := by simpa using hbefore
          have hle : b ≤ m.getLatestCachedNonce := by simpa using hlatest
          simp only [prepareTxFetchingParams, History.top, Option.map_some, Option.getD_some]
          omega
  rw [getTxs]
  refine Triple.get_bind fun m hm => ?_
  subst hm
  refine Triple.bind hrange fun range => Triple.of_forall fun m₁ hm₁ => ?_
  obtain ⟨hf₁, htop⟩ := hm₁
  set inputs := prepareTxFetchingParams range (some count) batchSize before with hinputs
  have hafter : inputs.after = ((h.top before - count : ℕ) : ℤ) - 1 := by
    have : inputs.after = max (inputs.before - count - 1) (-1) := rfl
    omega
  have hfetch : Total (fun m => m = m₁) (fetchTxsIntoCache h.fetcher inputs) fun _ m =>
      Fetched h m₁ m ∧
        ∀ n : ℕ, inputs.after < n → n < inputs.before → m.bucket n = h.bucket n :=
    fetchTxsIntoCache_spec hf₁.coherent hbatch (by omega)
  rintro s rfl
  refine Triple.bind (Q := fun _ m' => Fetched h s m' ∧
      Covers h m' (h.top before - count) (h.top before)) (hfetch.mono (fun _ hs => hs) ?_
        fun _ _ he => he) (fun _ => ?_) s rfl
  · rintro _ m' ⟨hf, hcov⟩
    exact ⟨hf, fun n h1 h2 => hcov n (by omega) (by omega)⟩
  · refine Triple.get_bind fun m' hm' => ?_
    refine Triple.lift_ok (a := h.read count before) ?_ fun m'' heq => ?_
    · rw [hafter, hm'.1.coherent.getCachedTxsWrapper_eq hbefore hm'.2,
        getTxsInNonceRange_map_some hcount]
      rfl
    · subst heq
      exact ⟨rfl, hf₁.trans hm'.1⟩

end ElusivSdk
