import ElusivSdk.TxManagers.SelectedPart

/-!
# What interleaved calls keep

* `CallOk` — a followed call, by the await it waits at: what it collected, that the range it works on
  reaches every selected transaction below its bound and `limit`, and that every nonce of the range is
  cached or still on its way.
* `CallOk.mono` — other calls and the growth of the chain do not disturb it.
* `CallOk.land` — nor does a selected transaction that lands on a nonce of which nothing is cached and
  that the call has not passed yet, or on a nonce from `limit` on.
* `CallOk.result_eq` — a call that is done has returned the result of its query on a view.

The code of a call between two awaits follows in `CallSteps`.
-/

namespace ElusivSdk

open Descending Program

/-! ## One call -/

namespace Query

/-- The selected transactions that the query asks for. -/
def wanted (q : Query) (g : ℕ → List ElusivTransaction) (n : ℕ) : List ElusivTransaction :=
  (g n).filter fun tx => tx.hasToken q.tokenType

/-- The bound with which the query starts, as a nonce. -/
def bound (q : Query) : ℕ := (q.before.getD MAX_SAFE_INTEGER).toNat

/-- The newest transactions the query asks for. -/
def found (q : Query) (g : ℕ → List ElusivTransaction) : List ElusivTransaction :=
  takeGroups ElusivTransaction.nonce q.count (below (q.wanted g) q.bound)

/-- What the query makes of the transactions it found. -/
def pick (q : Query) (txs : List ElusivTransaction) : List ElusivTransaction :=
  match q with
  | fetchTxs _ _ _ => txs
  | getActiveTxs _ _ => selectActiveTxs txs
  | getMostRecentTx => txs.head?.toList

/-- What the query returns when the selected part is all there is. -/
def result (q : Query) (g : ℕ → List ElusivTransaction) : List ElusivTransaction := q.pick (q.found g)

/-- A followed query asks for selected transactions only. -/
def Follows (q : Query) (p : ElusivTransaction → Bool) : Prop :=
  ∀ tx : ElusivTransaction, tx.hasToken q.tokenType = true → p tx = true

lemma graded_wanted (q : Query) {g : ℕ → List ElusivTransaction}
    (hg : Graded ElusivTransaction.nonce g) : Graded ElusivTransaction.nonce (q.wanted g) :=
  hg.filter _

end Query

/-- A nonce lies below the bound of a call. -/
def Under (before : Option ℤ) (n : ℕ) : Prop := ∀ b, before = some b → (n : ℤ) < b

/-- The loop variables of a call: everything wanted from `beforeInner` up was collected. -/
structure LoopOk (v : ℕ → List ElusivTransaction) (q : Query) (loop : FetchLoop) : Prop where
  le : loop.beforeInner.toNat ≤ q.bound
  res_eq : loop.res.filterMap id = between (q.wanted v) loop.beforeInner.toNat q.bound
  count_eq : loop.fetchedCount = (between (q.wanted v) loop.beforeInner.toNat q.bound).length
  empty : q.count = 0 → loop.res = []

/-- The loop collected what is wanted of a view, and what it saw is cached. -/
structure Seen (g : ℕ → List ElusivTransaction) (limit : ℕ) (m : TxManager) (q : Query)
    (loop : FetchLoop) (v : ℕ → List ElusivTransaction) : Prop where
  view : View g limit v
  cached : ∀ n, loop.beforeInner.toNat ≤ n → n < q.bound → v n ≠ [] → m.bucket n ≠ []
  loop : LoopOk v q loop

/-- The range a call works on ends at or above every selected transaction below its bound and
`limit`. -/
structure InputsOk (g : ℕ → List ElusivTransaction) (limit : ℕ) (h : History) (before : Option ℤ)
    (count : ℕ) (inputs : TxFetchingInputs) : Prop where
  batchSize : inputs.batchSize = DEFAULT_FETCH_BATCH_SIZE
  nonneg : 0 ≤ inputs.before
  le : inputs.before ≤ h.length
  reaches : ∀ n < limit, g n ≠ [] → Under before n → (n : ℤ) < inputs.before
  before_le : ∀ b, before = some b → inputs.before ≤ b
  after_eq : inputs.after = max (inputs.before - count - 1) (-1)

namespace Call

/-- The call is inside `getTxs`. -/
def Running (c : Call) : Prop :=
  c.query = .getMostRecentTx ∨ c.loop.continues c.query.count = true

/-- A nonce that a request of the call will bring into the cache. -/
def Awaits (c : Call) (n : ℕ) : Prop :=
  ∃ r ∈ c.requests, r.answered = false ∧ ∃ cell ∈ r.cells, cell.1 = n ∧ cell.2 ≠ some []

/-- The loop variables, with the batch that `getTxs` has returned. -/
def progress (c : Call) : FetchLoop :=
  match c.phase, c.query with
  | .returned _, .getMostRecentTx => c.loop
  | .returned batch, _ => c.loop.addBatch c.query.tokenType batch
  | _, _ => c.loop

/-- The range that `getTxs` works on, once it is known. -/
def inputs (c : Call) : Option TxFetchingInputs :=
  match c.phase with
  | .ranged cachedRange =>
      some (prepareTxFetchingParams cachedRange (some c.query.count) DEFAULT_FETCH_BATCH_SIZE c.before)
  | .prepared inputs => some inputs
  | .fetching inputs => some inputs
  | .fetched inputs => some inputs
  | _ => none

/-- The nonces that the call has not passed yet lie below this one. -/
def rest (c : Call) : ℤ :=
  match c.inputs with
  | some inputs => inputs.before
  | none => c.progress.beforeInner

/-- The loop of `fetchTxs` has ended with `txs`. -/
def Found (c : Call) (txs : List ElusivTransaction) : Prop :=
  c.loop.continues c.query.count = false ∧
    getTxsInNonceRange c.loop.res (some c.query.count) = .ok txs

end Call

/-- What is known of a followed call, by the await it waits at. -/
def PhaseOk (g : ℕ → List ElusivTransaction) (limit : ℕ) (h : History) (m : TxManager) (c : Call) :
    Prop :=
  match c.phase with
  | .calling => True
  | .latest _ _ => c.Running
  | .ranged cachedRange => c.Running ∧ InputsOk g limit h c.before c.query.count
      (prepareTxFetchingParams cachedRange (some c.query.count) DEFAULT_FETCH_BATCH_SIZE c.before)
  | .prepared inputs => c.Running ∧ InputsOk g limit h c.before c.query.count inputs
  | .fetching inputs => c.Running ∧ InputsOk g limit h c.before c.query.count inputs ∧
      ∀ n : ℕ, inputs.after < n → n < inputs.before → m.bucket n ≠ [] ∨ c.Awaits n
  | .fetched inputs => c.Running ∧ InputsOk g limit h c.before c.query.count inputs ∧
      ∀ n : ℕ, inputs.after < n → n < inputs.before → m.bucket n ≠ []
  | .returned batch => c.query = .getMostRecentTx → ∃ v, View g limit v ∧ batch = c.query.found v
  | .selecting txs => (∃ tokenType beforeSend, c.query = .getActiveTxs tokenType beforeSend) ∧
      c.Found txs
  | .done result =>
      match c.query with
      | .getMostRecentTx => ∃ v, View g limit v ∧ result = .ok (c.query.result v)
      | _ => ∃ txs, c.Found txs ∧ result = .ok (c.query.pick txs)

structure CallOk (g : ℕ → List ElusivTransaction) (limit : ℕ) (h : History) (m : TxManager) (c : Call) :
    Prop where
  seen : ∃ v, Seen g limit m c.query c.progress v
  phase : PhaseOk g limit h m c

section CallOk

variable {p : ElusivTransaction → Bool} {g g' v v' : ℕ → List ElusivTransaction} {limit limit' : ℕ}
  {h h' : History} {m m' : TxManager} {c c' : Call} {q : Query} {loop : FetchLoop}

lemma InputsOk.mono {before : Option ℤ} {count : ℕ} {inputs : TxFetchingInputs}
    (hi : InputsOk g limit h before count inputs) (hlen : h.length ≤ h'.length)
    (hle : limit' ≤ limit) : InputsOk g limit' h' before count inputs :=
  ⟨hi.batchSize, hi.nonneg, by have := hi.le; omega, fun n hn => hi.reaches n (by omega),
    hi.before_le, hi.after_eq⟩

lemma Seen.mono (hs : Seen g limit m q loop v) (hle : limit' ≤ limit)
    (hm : ∀ n, m.bucket n ≠ [] → m'.bucket n ≠ []) : Seen g limit' m' q loop v :=
  ⟨hs.view.lower hle, fun n h1 h2 hn => hm n (hs.cached n h1 h2 hn), hs.loop⟩

/-- A call keeps what is known of it when the chain grows, others fill the cache and its requests go
on, as long as every nonce it waits for is cached or still on its way. -/
lemma CallOk.mono (hc : CallOk g limit h m c) (hlen : h.length ≤ h'.length) (hle : limit' ≤ limit)
    (hm : ∀ n, m.bucket n ≠ [] → m'.bucket n ≠ []) {requests : List Request}
    (ha : ∀ n < h.length, c.Awaits n →
      m'.bucket n ≠ [] ∨ Call.Awaits { c with requests := requests } n) :
    CallOk g limit' h' m' { c with requests := requests } := by
  obtain ⟨⟨v, hv⟩, hphase⟩ := hc
  refine ⟨⟨v, hv.mono hle hm⟩, ?_⟩
  rcases c with ⟨q, loop, phase, old⟩
  cases phase with
  | calling => trivial
  | latest L i => exact hphase
  | ranged range => exact ⟨hphase.1, hphase.2.mono hlen hle⟩
  | prepared inputs => exact ⟨hphase.1, hphase.2.mono hlen hle⟩
  | fetching inputs =>
      obtain ⟨hrun, hi, hcov⟩ := hphase
      refine ⟨hrun, hi.mono hlen hle, fun n h1 h2 => ?_⟩
      have hlt := hi.le
      exact (hcov n h1 h2).elim (fun hn => Or.inl (hm n hn)) (ha n (by omega))
  | fetched inputs =>
      exact ⟨hphase.1, hphase.2.1.mono hlen hle, fun n h1 h2 => hm n (hphase.2.2 n h1 h2)⟩
  | returned batch =>
      intro hq
      obtain ⟨v, hv, hbatch⟩ := hphase hq
      exact ⟨v, hv.lower hle, hbatch⟩
  | selecting txs => exact hphase
  | done result =>
      cases q with
      | getMostRecentTx =>
          obtain ⟨v, hv, hresult⟩ := hphase
          exact ⟨v, hv.lower hle, hresult⟩
      | fetchTxs count tokenType before => exact hphase
      | getActiveTxs tokenType beforeSend => exact hphase

/-- Only what lies from `beforeInner` up matters for what the loop collected. -/
lemma LoopOk.congr (hl : LoopOk v q loop)
    (heq : ∀ n, loop.beforeInner.toNat ≤ n → n < q.bound → v' n = v n) : LoopOk v' q loop := by
  have hsame : between (q.wanted v') loop.beforeInner.toNat q.bound
      = between (q.wanted v) loop.beforeInner.toNat q.bound :=
    between_congr fun n h1 h2 => congrArg _ (heq n h1 h2)
  refine ⟨hl.le, ?_, ?_, hl.empty⟩
  · rw [hsame]
    exact hl.res_eq
  · rw [hsame]
    exact hl.count_eq

lemma LoopOk.start (g : ℕ → List ElusivTransaction) (q : Query) :
    LoopOk g q (FetchLoop.start q.before) where
  le := Nat.le_refl _
  res_eq := by
    show [] = between (q.wanted g) q.bound q.bound
    rw [between_self]
  count_eq := by
    show 0 = (between (q.wanted g) q.bound q.bound).length
    rw [between_self, List.length_nil]
  empty _ := rfl

lemma CallOk.start (hg : ∀ n, (g n).Nodup) (limit : ℕ) (h : History) (m : TxManager) (q : Query) :
    CallOk g limit h m (Call.start q) := by
  refine ⟨⟨g, View.refl hg limit, fun n h1 h2 _ => ?_, LoopOk.start g q⟩, trivial⟩
  exact absurd h2 (Nat.not_lt_of_le h1)

/-! ### A transaction lands -/

/-- A transaction lands on a nonce that is not cached and that the loop has not passed yet, or on a
nonce from `limit` on. -/
lemma Seen.land (hs : Seen g limit m q loop v) {k : ℕ}
    (hk : m.bucket k = [] ∧ (limit ≤ k ∨ (k : ℤ) < loop.beforeInner) ∨ limit ≤ k ∧ g k ⊆ g' k)
    (hg : ∀ n, n ≠ k → g' n = g n) (hnodup : ∀ n, (g' n).Nodup) :
    ∃ v', Seen g' limit m q loop v' := by
  refine ⟨fun n => if loop.beforeInner.toNat ≤ n ∧ n < q.bound then v n else g' n,
    ⟨fun n => ?_, fun n => ?_⟩, fun n h1 h2 hn => ?_, hs.loop.congr fun n h1 h2 => if_pos ⟨h1, h2⟩⟩
  · have hpart := hs.view.part n
    by_cases hn : loop.beforeInner.toNat ≤ n ∧ n < q.bound
    · simp only [if_pos hn]
      by_cases hnk : n = k
      · subst hnk
        rcases hk with ⟨hunread, hk⟩ | ⟨hle, hsub⟩
        · -- the loop has passed the nonce and found nothing there
          have hnil : v n = [] := by
            by_contra hne
            exact hs.cached n hn.1 hn.2 hne hunread
          rw [hnil]
          exact Part.nil (hk.resolve_right (by omega))
        · exact hpart.extend hle hsub
      · exact hpart.congr (hg n hnk)
    · simp only [if_neg hn]
      exact Part.refl g' limit n
  · by_cases hn : loop.beforeInner.toNat ≤ n ∧ n < q.bound
    · simp only [if_pos hn]
      exact hs.view.nodup n
    · simp only [if_neg hn]
      exact hnodup n
  · refine hs.cached n h1 h2 ?_
    rwa [if_pos ⟨h1, h2⟩] at hn

lemma InputsOk.land {before : Option ℤ} {count : ℕ} {inputs : TxFetchingInputs}
    (hi : InputsOk g limit h before count inputs) {k : ℕ} (hk : limit ≤ k ∨ (k : ℤ) < inputs.before)
    (hg : ∀ n, n ≠ k → g' n = g n) : InputsOk g' limit h before count inputs := by
  refine ⟨hi.batchSize, hi.nonneg, hi.le, fun n hn hne hu => ?_, hi.before_le, hi.after_eq⟩
  by_cases hnk : n = k
  · subst hnk
    exact hk.resolve_left (by omega)
  · rw [hg n hnk] at hne
    exact hi.reaches n hn hne hu

/-- What the call has not passed lies below the bound of its loop. -/
lemma CallOk.rest_le (hc : CallOk g limit h m c) (hq : c.query ≠ .getMostRecentTx) :
    c.rest ≤ c.progress.beforeInner := by
  have hbefore : c.before = some c.loop.beforeInner := by
    rw [Call.before]
    split
    · next heq => exact absurd heq hq
    · rfl
  obtain ⟨-, hphase⟩ := hc
  rcases c with ⟨q, loop, phase, requests⟩
  cases phase with
  | ranged range => exact hphase.2.before_le _ hbefore
  | prepared inputs => exact hphase.2.before_le _ hbefore
  | fetching inputs => exact hphase.2.1.before_le _ hbefore
  | fetched inputs => exact hphase.2.1.before_le _ hbefore
  | calling | latest _ _ | returned _ | selecting _ | done _ => exact Int.le_refl _

/-- **A selected transaction lands** on a nonce that is not cached and that the call has not passed
yet, or on a nonce from `limit` on. -/
lemma CallOk.land (hc : CallOk g limit h m c) (hq : c.query ≠ .getMostRecentTx) {k : ℕ}
    (hk : m.bucket k = [] ∧ (limit ≤ k ∨ (k : ℤ) < c.rest) ∨ limit ≤ k ∧ g k ⊆ g' k)
    (hg : ∀ n, n ≠ k → g' n = g n) (hnodup : ∀ n, (g' n).Nodup) : CallOk g' limit h m c := by
  have hle := hc.rest_le hq
  obtain ⟨⟨v, hv⟩, hphase⟩ := hc
  refine ⟨hv.land (hk.imp_left fun hk => ⟨hk.1, hk.2.imp_right fun hlt => by omega⟩) hg hnodup, ?_⟩
  have hk : limit ≤ k ∨ (k : ℤ) < c.rest := hk.elim And.right fun hk => Or.inl hk.1
  rcases c with ⟨q, loop, phase, requests⟩
  cases phase with
  | calling => trivial
  | latest L i => exact hphase
  | ranged range => exact ⟨hphase.1, hphase.2.land hk hg⟩
  | prepared inputs => exact ⟨hphase.1, hphase.2.land hk hg⟩
  | fetching inputs => exact ⟨hphase.1, hphase.2.1.land hk hg, hphase.2.2⟩
  | fetched inputs => exact ⟨hphase.1, hphase.2.1.land hk hg, hphase.2.2⟩
  | returned batch => exact fun heq => absurd heq hq
  | selecting txs => exact hphase
  | done result =>
      cases q with
      | getMostRecentTx => exact absurd rfl hq
      | fetchTxs count tokenType before => exact hphase
      | getActiveTxs tokenType beforeSend => exact hphase

/-! ### Results -/

/-- The end of `fetchTxs`: the loop has found what the query asks for. -/
lemma LoopOk.found_eq (hg : Graded ElusivTransaction.nonce v) (hl : LoopOk v q loop)
    (hend : loop.continues q.count = false) :
    getTxsInNonceRange loop.res (some q.count) = .ok (q.found v) := by
  have hres : getTxsInNonceRange loop.res (some q.count)
      = .ok (takeGroups ElusivTransaction.nonce q.count (loop.res.filterMap id)) := by
    refine getTxsInNonceRange_eq ?_
    rcases Nat.eq_zero_or_pos q.count with hz | hpos
    · right
      rw [hl.empty hz]
      rfl
    · exact Or.inl hpos
  rw [hres, Query.found, hl.res_eq]
  congr 1
  simp only [FetchLoop.continues, Bool.and_eq_false_iff, decide_eq_false_iff_not] at hend
  rcases hend with hneg | hcount
  · have hz : loop.beforeInner.toNat = 0 := by omega
    rw [hz]
  · refine ((q.graded_wanted hg).takeGroups_below hl.le ?_).symm
    rw [← hl.count_eq]
    omega

/-- **What a call that is done returned**: the result of the query on a view. -/
theorem CallOk.result_eq (hc : CallOk g limit h m c) (hg : Graded ElusivTransaction.nonce g)
    {r : Except Failure (List ElusivTransaction)} (hdone : c.phase = .done r) :
    ∃ v, View g limit v ∧ r = .ok (c.query.result v) := by
  obtain ⟨⟨v, hv⟩, hphase⟩ := hc
  rcases c with ⟨q, loop, phase, requests⟩
  obtain rfl : phase = .done r := hdone
  have hseen : Seen g limit m q loop v := hv
  have hresult : ∀ txs, Call.Found ⟨q, loop, .done r, requests⟩ txs →
      q.pick txs = q.result v := by
    rintro txs ⟨hend, htxs⟩
    have hfound := hseen.loop.found_eq (hseen.view.graded hg) hend
    exact congrArg q.pick (Except.ok.inj (htxs.symm.trans hfound))
  cases q with
  | getMostRecentTx => exact hphase
  | fetchTxs count tokenType before =>
      obtain ⟨txs, hfound, hr⟩ := hphase
      exact ⟨v, hv.view, hr.trans (congrArg Except.ok (hresult txs hfound))⟩
  | getActiveTxs tokenType beforeSend =>
      obtain ⟨txs, hfound, hr⟩ := hphase
      exact ⟨v, hv.view, hr.trans (congrArg Except.ok (hresult txs hfound))⟩

end CallOk

end ElusivSdk
