import Mathlib.Data.Fintype.Sum
import ElusivSdk.TxManagers.CallSteps

/-!
# Runs of interleaved calls

`WalletOk` puts the invariant of `ConcurrentInvariant` together for a wallet with any number of calls.

* `WalletOk.step` — one event keeps it, on a chain that does not change.
* `WalletOk.grow` — so does the growth of the chain, as long as the selected part stays.
* `WalletOk.land` — so does a selected transaction that lands on a nonce of which nothing was read and
  that the followed calls have not passed yet, or on a nonce from `limit` on.
* `Wallet.concurrent_eq_alone` — **on a fixed chain, calls that leave the loop over the newest nonces
  only at the newest nonce return what each would return alone.**  The loop does not check this: it
  ends when a window brings nothing new, and a window that another call has just cached brings nothing
  new (`Wallet.concurrent_stale`).
-/

namespace ElusivSdk

open Descending Program Transition

/-! ## What a call leaves alone -/

/-- A step of a call changes no cached transactions and starts fresh requests only. -/
structure Call.Frame (c : Call) (m m' : TxManager) (c' : Call) : Prop where
  bucket : m'.bucket = m.bucket
  query : c'.query = c.query
  fresh : ∀ r ∈ c'.requests, ∃ nonces, r = .ofNonces nonces

namespace Call

lemma frame_await (c : Call) (m : TxManager) (phase : Phase) : c.Frame m m (c.await phase) where
  bucket := rfl
  query := rfl
  fresh _ hr := absurd hr List.not_mem_nil

lemma frame_openWindow (c : Call) (m : TxManager) (L i : ℤ) :
    c.Frame m m (c.openWindow m L i) where
  bucket := rfl
  query := rfl
  fresh _ hr := ⟨_, List.mem_singleton.mp hr⟩

lemma frame_callGetTxs (c : Call) (m : TxManager) : c.Frame m m (c.callGetTxs m) := by
  rw [callGetTxs]
  split_ifs
  · exact c.frame_openWindow m _ _
  · exact c.frame_await m _

lemma frame_finish (c : Call) (m : TxManager) : c.Frame m (c.finish m).1 (c.finish m).2 := by
  rw [finish]
  split
  · exact c.frame_await m _
  · next txs _ =>
      have hbucket := m.setAllConfirmed_bucket txs.tail
      split
      · exact ⟨hbucket, rfl, (c.frame_await m _).fresh⟩
      · exact ⟨hbucket, rfl, (c.frame_await m _).fresh⟩

lemma frame_nextRound (c : Call) (m : TxManager) :
    c.Frame m (c.nextRound m).1 (c.nextRound m).2 := by
  rw [nextRound]
  split
  · exact c.frame_callGetTxs m
  · split_ifs
    · exact c.frame_callGetTxs m
    · exact c.frame_finish m

lemma frame_resume {c c' : Call} {m m' : TxManager} (hr : c.resume m = some (m', c')) :
    c.Frame m m' c' := by
  rw [resume] at hr
  cases hphase : c.phase with
  | calling =>
      rw [hphase] at hr
      have hframe := c.frame_nextRound m
      rwa [Option.some.inj hr] at hframe
  | latest L i =>
      rw [hphase] at hr
      simp only at hr
      split_ifs at hr
      · obtain ⟨rfl, rfl⟩ := Prod.mk.inj (Option.some.inj hr)
        exact c.frame_openWindow m _ _
      · obtain ⟨rfl, rfl⟩ := Prod.mk.inj (Option.some.inj hr)
        exact c.frame_await m _
  | ranged range =>
      rw [hphase] at hr
      obtain ⟨rfl, rfl⟩ := Prod.mk.inj (Option.some.inj hr)
      exact c.frame_await m _
  | prepared inputs =>
      rw [hphase] at hr
      simp only at hr
      split at hr
      · obtain ⟨rfl, rfl⟩ := Prod.mk.inj (Option.some.inj hr)
        exact c.frame_await m _
      · obtain ⟨rfl, rfl⟩ := Prod.mk.inj (Option.some.inj hr)
        refine ⟨rfl, rfl, fun r hr => ?_⟩
        obtain ⟨nonces, -, rfl⟩ := List.mem_map.mp hr
        exact ⟨nonces, rfl⟩
  | fetching inputs =>
      rw [hphase] at hr
      obtain ⟨rfl, rfl⟩ := Prod.mk.inj (Option.some.inj hr)
      exact c.frame_await m _
  | fetched inputs =>
      rw [hphase] at hr
      simp only at hr
      split at hr
      · obtain ⟨rfl, rfl⟩ := Prod.mk.inj (Option.some.inj hr)
        exact c.frame_await m _
      · obtain ⟨rfl, rfl⟩ := Prod.mk.inj (Option.some.inj hr)
        exact c.frame_await m _
  | returned batch =>
      rw [hphase] at hr
      simp only at hr
      split at hr
      · obtain ⟨rfl, rfl⟩ := Prod.mk.inj (Option.some.inj hr)
        exact c.frame_await m _
      · have hframe := Call.frame_nextRound
          { c with loop := c.loop.addBatch c.query.tokenType batch, phase := .returned batch } m
        rw [Option.some.inj hr] at hframe
        exact ⟨hframe.bucket, hframe.query, hframe.fresh⟩
  | selecting txs =>
      rw [hphase] at hr
      cases txs with
      | nil =>
          obtain ⟨rfl, rfl⟩ := Prod.mk.inj (Option.some.inj hr)
          exact c.frame_await m _
      | cons newest rest =>
          obtain ⟨rfl, rfl⟩ := Prod.mk.inj (Option.some.inj hr)
          exact ⟨rfl, rfl, (c.frame_await m _).fresh⟩
  | done result =>
      rw [hphase] at hr
      cases hr

lemma outcome_eq_some {c : Call} {r : Except Failure (List ElusivTransaction)} :
    c.outcome = some r ↔ c.phase = .done r := by
  rw [outcome]
  cases c.phase <;> simp

/-- Only a call that is done does not run on. -/
lemma resume_eq_none {c : Call} {m : TxManager} (hr : c.resume m = none) :
    c.outcome.isSome = true := by
  rw [resume] at hr
  rw [outcome]
  cases hphase : c.phase with
  | done r => rfl
  | selecting txs =>
      rw [hphase] at hr
      cases txs <;> cases hr
  | calling | ranged _ | fetching _ =>
      rw [hphase] at hr
      cases hr
  | latest _ _ | prepared _ | fetched _ | returned _ =>
      rw [hphase] at hr
      simp only at hr
      split at hr <;> cases hr

end Call

/-! ## What an event does -/

namespace Wallet

variable {ι : Type} [DecidableEq ι] {h : History} {w w' : Wallet ι}

/-- Only the call that an event is about changes. -/
lemma setCall_calls_ne {i j : ι} (hij : j ≠ i) (c : Call) : (w.setCall i c).calls j = w.calls j := by
  show Function.update w.calls i c j = w.calls j
  rw [Function.update_of_ne hij]

lemma setCall_calls_self (i : ι) (c : Call) : (w.setCall i c).calls i = c := by
  show Function.update w.calls i c i = c
  rw [Function.update_self]

/-- **The three events**: a read fills a cell, an answer goes into the cache, a call runs on. -/
theorem step_cases {e : Event ι} (hs : w.step h e = some w') :
    (∃ i k j r n, e = .read i k j ∧ (w.calls i).requests[k]? = some r ∧
      r.cells[j]? = some (n, none) ∧
      w' = w.setRequest i k { r with cells := r.cells.set j (n, some (h.txsAt n)) }) ∨
    (∃ i k r, e = .answer i k ∧ (w.calls i).requests[k]? = some r ∧ r.isRead = true ∧
      w' = { w.setRequest i k { r with answered := true } with manager := w.manager.cache r.txs }) ∨
    ∃ i m c, e = .resume i ∧ (w.calls i).requests.all Request.answered = true ∧
      (w.calls i).resume w.manager = some (m, c) ∧ w' = { w.setCall i c with manager := m } := by
  cases e with
  | read i k j =>
      simp only [step] at hs
      obtain ⟨r, hr, hs⟩ := Option.bind_eq_some_iff.mp hs
      split at hs
      · next n hcell => exact Or.inl ⟨i, k, j, r, n, rfl, hr, hcell, (Option.some.inj hs).symm⟩
      · cases hs
  | answer i k =>
      simp only [step] at hs
      obtain ⟨r, hr, hs⟩ := Option.bind_eq_some_iff.mp hs
      split_ifs at hs with hread
      rw [Bool.and_eq_true] at hread
      exact Or.inr (Or.inl ⟨i, k, r, rfl, hr, hread.1, (Option.some.inj hs).symm⟩)
  | resume i =>
      simp only [step] at hs
      split_ifs at hs with hall
      obtain ⟨⟨m, c⟩, hr, hs⟩ := Option.bind_eq_some_iff.mp hs
      exact Or.inr (Or.inr ⟨i, m, c, rfl, hall, hr, (Option.some.inj hs).symm⟩)

/-- What an event does to a call: it runs on, or its requests change at most. -/
lemma step_call {e : Event ι} (hs : w.step h e = some w') (i : ι) :
    (∃ requests, w'.calls i = { w.calls i with requests := requests }) ∨
      (e = .resume i ∧ (w.calls i).resume w.manager = some (w'.manager, w'.calls i)) := by
  have hset : ∀ (j : ι) (k : ℕ) (r : Request),
      ∃ requests, (w.setRequest j k r).calls i = { w.calls i with requests := requests } := by
    intro j k r
    by_cases hij : i = j
    · subst hij
      exact ⟨_, setCall_calls_self i _⟩
    · exact ⟨(w.calls i).requests, setCall_calls_ne hij _⟩
  obtain ⟨j, k, cell, r, n, rfl, -, -, rfl⟩ | ⟨j, k, r, rfl, -, -, rfl⟩ | ⟨j, m, c, rfl, -, hr, rfl⟩ :=
    step_cases hs
  · exact Or.inl (hset j k _)
  · exact Or.inl (hset j k _)
  · by_cases hij : i = j
    · subst hij
      refine Or.inr ⟨rfl, hr.trans ?_⟩
      rw [show ({ w.setCall i c with manager := m } : Wallet ι).calls i = c from
        setCall_calls_self i c]
    · exact Or.inl ⟨(w.calls i).requests, setCall_calls_ne hij c⟩

/-- No event changes what a call was asked. -/
lemma step_query {e : Event ι} (hs : w.step h e = some w') (i : ι) :
    (w'.calls i).query = (w.calls i).query := by
  rcases step_call hs i with ⟨requests, heq⟩ | ⟨-, hr⟩
  · rw [heq]
  · exact (Call.frame_resume hr).query

/-- No event removes anything from the cache. -/
lemma step_bucket_ne_nil {e : Event ι} (hs : w.step h e = some w') {n : ℕ}
    (hn : w.manager.bucket n ≠ []) : w'.manager.bucket n ≠ [] := by
  obtain ⟨j, k, cell, r, n, rfl, -, -, rfl⟩ | ⟨j, k, r, rfl, -, -, rfl⟩ | ⟨j, m, c, rfl, -, hr, rfl⟩ :=
    step_cases hs
  · exact hn
  · exact TxManager.cache_bucket_ne_nil hn
  · show m.bucket _ ≠ []
    rwa [(Call.frame_resume hr).bucket]

end Wallet

/-! ## The invariant of a wallet -/

/-- The chain as the invariant needs it. -/
structure ChainOk (p : ElusivTransaction → Bool) (g : ℕ → List ElusivTransaction) (h : History) :
    Prop where
  tracks : Tracks p g h
  gapless : h.Gapless
  length_le : h.length ≤ MAX_UINT32

/-- The cache, every request in flight, and the followed calls. -/
structure WalletOk {ι : Type} (p : ElusivTransaction → Bool) (g : ℕ → List ElusivTransaction)
    (limit : ℕ) (followed : ι → Prop) (h : History) (w : Wallet ι) : Prop where
  knows : Knows p g limit h w.manager
  requests : ∀ i, ∀ r ∈ (w.calls i).requests, RequestOk p g limit h r
  follows : ∀ i, followed i → (w.calls i).query.Follows p
  calls : ∀ i, followed i → CallOk g limit h w.manager (w.calls i)

/-- When the call that resumes is followed and its window over the newest nonces came back empty, no
selected transaction below `limit` lies above the newest cached nonce. -/
def EndsAbove {ι : Type} (g : ℕ → List ElusivTransaction) (limit : ℕ) (followed : ι → Prop)
    (w : Wallet ι) : Event ι → Prop
  | .resume i => followed i → (w.calls i).inLatest = true →
      (w.calls i).requests.flatMap Request.txs = [] →
        ∀ n < limit, g n ≠ [] → (n : ℤ) ≤ w.manager.getLatestCachedNonce
  | _ => True

/-- Nothing is cached of the nonce, and no request in flight has read anything of it. -/
def Wallet.Unread {ι : Type} (w : Wallet ι) (n : ℕ) : Prop :=
  w.manager.bucket n = [] ∧ ∀ i, ∀ r ∈ (w.calls i).requests, ∀ cell ∈ r.cells, cell.1 = n →
    cell.2 = none ∨ cell.2 = some []

instance {ι : Type} [Fintype ι] (w : Wallet ι) (n : ℕ) : Decidable (w.Unread n) :=
  inferInstanceAs (Decidable (_ ∧ ∀ i, ∀ r ∈ (w.calls i).requests, ∀ cell ∈ r.cells, cell.1 = n →
    cell.2 = none ∨ cell.2 = some []))

section WalletOk

variable {ι : Type} {p : ElusivTransaction → Bool} {g g' : ℕ → List ElusivTransaction}
  {limit limit' : ℕ} {followed : ι → Prop} {h h' : History} {w w' : Wallet ι}

lemma WalletOk.start {m : TxManager} (hk : Knows p g limit h m) (hg : ∀ n, (g n).Nodup)
    (queries : ι → Query) (hq : ∀ i, followed i → (queries i).Follows p) :
    WalletOk p g limit followed h (Wallet.start m queries) where
  knows := hk
  requests _ _ hr := absurd hr List.not_mem_nil
  follows := hq
  calls i _ := CallOk.start hg limit h m (queries i)

/-- The chain grew, but no selected part changed. -/
lemma WalletOk.grow (hw : WalletOk p g limit followed h w) (hlen : h.length ≤ h'.length)
    (hle : limit' ≤ limit) : WalletOk p g limit' followed h' w where
  knows := hw.knows.mono hlen hle
  requests i r hr := (hw.requests i r hr).mono hlen hle
  follows := hw.follows
  calls i hi := (hw.calls i hi).mono hlen hle (fun _ hn => hn) fun _ _ ha => Or.inr ha

/-- **A selected transaction lands** on a nonce of which nothing was read and that the followed calls
have not passed yet, or on a nonce from `limit` on. -/
lemma WalletOk.land (hw : WalletOk p g limit followed h w) (hlen : h.length ≤ h'.length) {k : ℕ}
    (hq : ∀ i, followed i → (w.calls i).query ≠ .getMostRecentTx)
    (hk : w.Unread k ∧ (∀ i, followed i → limit ≤ k ∨ (k : ℤ) < (w.calls i).rest) ∨
      limit ≤ k ∧ g k ⊆ g' k)
    (hg : ∀ n, n ≠ k → g' n = g n) (hnodup : ∀ n, (g' n).Nodup) :
    WalletOk p g' limit followed h' w := by
  refine WalletOk.grow ⟨⟨fun n hn => ?_, hw.knows.used⟩, fun i r hr cell hcell txs htxs => ?_,
    hw.follows, fun i hi => (hw.calls i hi).land (hq i hi) ?_ hg hnodup⟩ hlen (Nat.le_refl limit)
  · have hpart := hw.knows.part n hn
    by_cases hne : n = k
    · subst hne
      rcases hk with ⟨hunread, -⟩ | ⟨hle, hsub⟩
      · exact absurd hunread.1 hn
      · exact hpart.extend hle hsub
    · exact hpart.congr (hg n hne)
  · have hok := hw.requests i r hr cell hcell txs htxs
    by_cases hne : cell.1 = k
    · rcases hk with ⟨hunread, -⟩ | ⟨hle, hsub⟩
      · -- an empty answer says nothing of what lands later
        have hnil : txs = [] := by
          rcases hunread.2 i r hr cell hcell hne with hnone | hsome
          · rw [htxs] at hnone
            cases hnone
          · exact Option.some.inj (htxs.symm.trans hsome)
        subst hnil
        exact ⟨hok.nonce_eq, fun hnil => absurd rfl hnil, List.forall_mem_nil _, hok.used⟩
      · subst hne
        refine ⟨hok.nonce_eq, fun htxs => (hok.part htxs).extend hle hsub, fun x hx hp => ?_, hok.used⟩
        obtain ⟨y, hy, hkey⟩ := hok.known x hx hp
        exact ⟨y, hsub hy, hkey⟩
    · refine ⟨hok.nonce_eq, fun htxs => (hok.part htxs).congr (hg _ hne), fun x hx hp => ?_, hok.used⟩
      rw [hg _ hne]
      exact hok.known x hx hp
  · exact hk.imp_left fun hk => ⟨hk.1.1, hk.2 i hi⟩

variable [DecidableEq ι]

/-- Replacing an element by one with the same property keeps that some element has it. -/
lemma exists_mem_set {α : Type*} {P : α → Prop} {l : List α} {k : ℕ} {y z : α} (hy : l[k]? = some y)
    (hex : ∃ x ∈ l, P x) (hyz : P y → P z) : ∃ x ∈ l.set k z, P x := by
  obtain ⟨x, hx, hP⟩ := hex
  obtain ⟨i, hi, rfl⟩ := List.mem_iff_getElem.mp hx
  obtain ⟨hk, rfl⟩ := List.getElem?_eq_some_iff.mp hy
  by_cases hik : k = i
  · subst hik
    exact ⟨z, List.mem_set hk z, hyz hP⟩
  · refine ⟨l[i], List.mem_iff_getElem.mpr ⟨i, by simpa using hi, ?_⟩, hP⟩
    exact List.getElem_set_ne hik _

lemma RequestOk.ofNonces (nonces : List (ℕ × Bool)) : RequestOk p g limit h (.ofNonces nonces) := by
  intro cell hcell txs htxs
  obtain ⟨n, -, rfl⟩ := List.mem_map.mp hcell
  cases htxs

/-- A call that waits for other things is not disturbed. -/
lemma CallOk.undisturbed {m m' : TxManager} {c : Call} (hc : CallOk g limit h m c)
    (hm : ∀ n, m.bucket n ≠ [] → m'.bucket n ≠ []) : CallOk g limit h m' c :=
  hc.mono (Nat.le_refl _) (Nat.le_refl _) hm fun _ _ ha => Or.inr ha

/-- An event of the call `i` that leaves the wallet otherwise alone. -/
lemma WalletOk.of_call {w : Wallet ι} (hw : WalletOk p g limit followed h w) {i : ι} {m : TxManager}
    {c : Call} (hk : Knows p g limit h m) (hm : ∀ n, w.manager.bucket n ≠ [] → m.bucket n ≠ [])
    (hr : ∀ r ∈ c.requests, RequestOk p g limit h r) (hq : c.query = (w.calls i).query)
    (hc : followed i → CallOk g limit h m c) :
    WalletOk p g limit followed h { w.setCall i c with manager := m } := by
  refine ⟨hk, fun j => ?_, fun j hj => ?_, fun j hj => ?_⟩
  · show ∀ r ∈ ((w.setCall i c).calls j).requests, RequestOk p g limit h r
    by_cases hji : j = i
    · subst hji
      rwa [Wallet.setCall_calls_self]
    · rw [Wallet.setCall_calls_ne hji]
      exact hw.requests j
  · show ((w.setCall i c).calls j).query.Follows p
    by_cases hji : j = i
    · subst hji
      rw [Wallet.setCall_calls_self, hq]
      exact hw.follows j hj
    · rw [Wallet.setCall_calls_ne hji]
      exact hw.follows j hj
  · show CallOk g limit h m ((w.setCall i c).calls j)
    by_cases hji : j = i
    · subst hji
      rw [Wallet.setCall_calls_self]
      exact hc hj
    · rw [Wallet.setCall_calls_ne hji]
      exact (hw.calls j hj).undisturbed hm

/-- A read fills a cell of a request. -/
lemma WalletOk.read (hch : ChainOk p g h) (hw : WalletOk p g limit followed h w) {i : ι} {k j n : ℕ}
    {r : Request} (hr : (w.calls i).requests[k]? = some r) (hcell : r.cells[j]? = some (n, none)) :
    WalletOk p g limit followed h
      (w.setRequest i k { r with cells := r.cells.set j (n, some (h.txsAt n)) }) := by
  refine hw.of_call (m := w.manager) hw.knows (fun n hn => hn) (fun r' hr' => ?_) rfl fun hq => ?_
  · rcases List.mem_or_eq_of_mem_set hr' with hr' | rfl
    · exact hw.requests i r' hr'
    · intro cell hc txs htxs
      rcases List.mem_or_eq_of_mem_set hc with hc | rfl
      · exact hw.requests i r (List.mem_of_getElem? hr) cell hc txs htxs
      · obtain rfl := Option.some.inj htxs
        exact hch.tracks.readOk n
  · refine (hw.calls i hq).mono (Nat.le_refl _) (Nat.le_refl _) (fun n hn => hn)
      fun n' hn' ha => Or.inr ?_
    refine exists_mem_set hr ha ?_
    rintro ⟨hans, hex⟩
    refine ⟨hans, exists_mem_set hcell hex ?_⟩
    -- the nonce is on the chain, so something is read for it
    rintro ⟨rfl, -⟩
    refine ⟨rfl, fun hnil => ?_⟩
    exact hch.gapless n hn' (Option.some.inj hnil)

/-- An answer goes into the cache. -/
lemma WalletOk.answer (hw : WalletOk p g limit followed h w) {i : ι} {k : ℕ} {r : Request}
    (hr : (w.calls i).requests[k]? = some r) (hread : r.isRead = true) :
    WalletOk p g limit followed h
      { w.setRequest i k { r with answered := true } with manager := w.manager.cache r.txs } := by
  have hrok := hw.requests i r (List.mem_of_getElem? hr)
  have hkeep : ∀ n, w.manager.bucket n ≠ [] → (w.manager.cache r.txs).bucket n ≠ [] :=
    fun n hn => TxManager.cache_bucket_ne_nil hn
  refine hw.of_call (hw.knows.cache hrok) hkeep (fun r' hr' => ?_) rfl fun hq => ?_
  · rcases List.mem_or_eq_of_mem_set hr' with hr' | rfl
    · exact hw.requests i r' hr'
    · exact hrok
  · refine (hw.calls i hq).mono (Nat.le_refl _) (Nat.le_refl _) hkeep fun n hn ha => ?_
    by_cases hin : ∃ cell ∈ r.cells, cell.1 = n ∧ cell.2 ≠ some []
    · obtain ⟨cell, hcell, rfl, hne⟩ := hin
      exact Or.inl (TxManager.cache_request_ne_nil hrok hread hcell hne)
    · exact Or.inr (exists_mem_set hr ha fun hawait => absurd hawait.2 hin)

/-- A call runs on. -/
lemma WalletOk.resume (hch : ChainOk p g h) (hw : WalletOk p g limit followed h w) {i : ι}
    {m : TxManager} {c : Call} (hend : EndsAbove g limit followed w (.resume i))
    (hall : (w.calls i).requests.all Request.answered = true)
    (hr : (w.calls i).resume w.manager = some (m, c)) :
    WalletOk p g limit followed h { w.setCall i c with manager := m } := by
  have hframe := Call.frame_resume hr
  have hk : Knows p g limit h m := by
    refine ⟨?_, ?_⟩
    · rw [hframe.bucket]
      exact hw.knows.part
    · rw [hframe.bucket]
      exact hw.knows.used
  refine hw.of_call hk (fun n hn => ?_) (fun r hr' => ?_) hframe.query fun hi => ?_
  · rwa [hframe.bucket]
  · obtain ⟨nonces, rfl⟩ := hframe.fresh r hr'
    exact RequestOk.ofNonces nonces
  · exact (hw.calls i hi).resume hch.tracks hw.knows hch.length_le (hw.follows i hi) hall (hend hi) hr

/-- **One event keeps the invariant.** -/
theorem WalletOk.step (hch : ChainOk p g h) (hw : WalletOk p g limit followed h w) {e : Event ι}
    (hend : EndsAbove g limit followed w e) (hs : w.step h e = some w') :
    WalletOk p g limit followed h w' := by
  obtain ⟨i, k, j, r, n, rfl, hr, hcell, rfl⟩ | ⟨i, k, r, rfl, hr, hread, rfl⟩ |
    ⟨i, m, c, rfl, hall, hr, rfl⟩ := Wallet.step_cases hs
  · exact hw.read hch hr hcell
  · exact hw.answer hr hread
  · exact hw.resume hch hend hall hr

end WalletOk

/-! ## Runs -/

namespace Wallet

variable {ι : Type} [DecidableEq ι] {h : History} {w w' : Wallet ι}

/-- **No call gets stuck**: as long as it is not done, an event of it can happen. -/
theorem progress (h : History) (w : Wallet ι) (i : ι) :
    (w.calls i).outcome.isSome = true ∨
      ∃ e, (e = .resume i ∨ (∃ k, e = .answer i k) ∨ ∃ k j, e = .read i k j) ∧
        (w.step h e).isSome = true := by
  by_cases hall : (w.calls i).requests.all Request.answered = true
  · cases hr : (w.calls i).resume w.manager with
    | none => exact Or.inl (Call.resume_eq_none hr)
    | some next =>
        refine Or.inr ⟨.resume i, Or.inl rfl, ?_⟩
        simp only [step, if_pos hall, hr]
        rfl
  · obtain ⟨r, hmem, hans⟩ : ∃ r ∈ (w.calls i).requests, r.answered = false := by
      simpa using hall
    obtain ⟨k, hk, rfl⟩ := List.mem_iff_getElem.mp hmem
    have hget : (w.calls i).requests[k]? = some (w.calls i).requests[k] :=
      List.getElem?_eq_getElem hk
    right
    cases hread : (w.calls i).requests[k].isRead with
    | true =>
        refine ⟨.answer i k, Or.inr (Or.inl ⟨k, rfl⟩), ?_⟩
        simp only [step, hget, Option.bind_eq_bind, Option.bind_some, hread, hans]
        rfl
    | false =>
        obtain ⟨cell, hcell, hnone⟩ : ∃ cell ∈ (w.calls i).requests[k].cells, cell.2 = none := by
          simpa [Request.isRead] using hread
        obtain ⟨j, hj, rfl⟩ := List.mem_iff_getElem.mp hcell
        have hgetj : (w.calls i).requests[k].cells[j]?
            = some ((w.calls i).requests[k].cells[j].1, none) := by
          rw [List.getElem?_eq_getElem hj, ← hnone]
        refine ⟨.read i k j, Or.inr (Or.inr ⟨k, j, rfl⟩), ?_⟩
        simp only [step, hget, Option.bind_eq_bind, Option.bind_some, hgetj]
        rfl

lemma run_query {es : List (Event ι)} (hrun : run (Wallet.step h) w es = some w') (i : ι) :
    (w'.calls i).query = (w.calls i).query :=
  run_invariant (I := fun v => (v.calls i).query = (w.calls i).query)
    (fun _ _ _ hv _ hs => (step_query hs i).trans hv) rfl (allowed_true w es) hrun

end Wallet

/-! ## Calls on a fixed chain -/

/-- The managers that completed calls leave, on a chain that does not change.  The fuel bounds the
loops of the program, which end on their own. -/
inductive History.LeftByCalls (h : History) : TxManager → Prop
  | new : h.LeftByCalls TxManager.new
  | call {m m' : TxManager} {txs : List ElusivTransaction} (q : Query) (fuel : ℕ) :
      h.LeftByCalls m → h.length + DEFAULT_FETCH_BATCH_SIZE + 3 ≤ fuel →
      exec (q.alone h.fetcher fuel) m = (.ok txs, m') → h.LeftByCalls m'

/-- A call that resumes from an empty window over the newest nonces finds the newest nonce of the chain
cached. -/
def EndsAtNewest {ι : Type} (h : History) (w : Wallet ι) : Event ι → Prop
  | .resume i => (w.calls i).inLatest = true → (w.calls i).requests.flatMap Request.txs = [] →
      h.length ≤ w.manager.getLatestCachedNonce + 1
  | _ => True

instance {ι : Type} (h : History) (w : Wallet ι) : ∀ e, Decidable (EndsAtNewest h w e)
  | .resume _ => inferInstanceAs (Decidable (_ → _ → _))
  | .read _ _ _ => inferInstanceAs (Decidable True)
  | .answer _ _ => inferInstanceAs (Decidable True)

section Fixed

variable {h : History}

/-- Every transaction of the chain has its like in the bucket. -/
lemma History.exists_key_mem_bucket (h : History) {n : ℕ} {x : ElusivTransaction}
    (hx : x ∈ h.txsAt n) : ∃ y ∈ h.bucket n, y.key = x.key := by
  have hex : ∃ y ∈ insertAll equalTx [] (h.txsAt n), equalTx y x = true :=
    exists_mem_insertAll equalTx_self hx
  obtain ⟨y, hy, heq⟩ := hex
  exact ⟨y, hy, equalTx_iff.mp heq⟩

/-- Everything is selected. -/
lemma History.Gapless.chainOk (hg : h.Gapless) (hlen : h.length ≤ MAX_UINT32) :
    ChainOk (fun _ => true) h.bucket h where
  tracks := ⟨fun _ => List.filter_true _, fun _ _ hx _ => h.exists_key_mem_bucket hx⟩
  gapless := hg
  length_le := hlen

lemma Coherent.knows {m : TxManager} (hc : Coherent h m) (limit : ℕ) :
    Knows (fun _ => true) h.bucket limit h m where
  part n hn := by
    rw [List.filter_true, hc n hn]
    exact Part.refl h.bucket limit n
  used _ hn := hc.lt_length hn

/-- A bound above the newest nonce makes no difference. -/
lemma Query.found_bucket (hlen : h.length ≤ MAX_UINT32) (q : Query) :
    q.found h.bucket = takeGroups ElusivTransaction.nonce q.count
      (below (h.tokenBucket q.tokenType) (h.top q.before)) := by
  have htop : h.top q.before = min h.length q.bound := by
    rw [History.top, Query.bound]
    cases q.before with
    | none =>
        have hmax : MAX_UINT32 ≤ MAX_SAFE_INTEGER := by decide
        simp only [Option.map_none, Option.getD_none]
        omega
    | some b => rfl
  rw [Query.found, htop]
  rcases Nat.le_total q.bound h.length with hle | hle
  · rw [Nat.min_eq_right hle]
    rfl
  · rw [Nat.min_eq_left hle]
    refine congrArg _ (between_eq_of_empty hle fun n hn => ?_)
    show (h.bucket n).filter _ = []
    rw [h.bucket_of_length_le hn, List.filter_nil]

/-- On a gapless chain a call that runs alone returns the result of the query. -/
lemma Query.answer_eq (hg : h.Gapless) (hlen : h.length ≤ MAX_UINT32) (q : Query) :
    h.answer q = q.result h.bucket := by
  have hfound := q.found_bucket hlen
  cases q with
  | fetchTxs count tokenType before =>
      exact (hg.fetchTxs_eq hlen count tokenType before).trans hfound.symm
  | getActiveTxs tokenType beforeSend =>
      refine congrArg selectActiveTxs ?_
      exact (hg.fetchTxs_eq hlen SEND_ARITY (some tokenType) _).trans hfound.symm
  | getMostRecentTx =>
      have hself : h.tokenBucket none = h.bucket :=
        funext fun n => List.filter_eq_self.mpr fun _ _ => rfl
      show (h.read 1 none).head?.toList = (Query.getMostRecentTx.found h.bucket).head?.toList
      rw [hg.read_eq, hfound, ← hself]
      rfl

/-- Completed calls leave a coherent manager. -/
lemma History.LeftByCalls.coherent (hg : h.Gapless) {m : TxManager}
    (hm : h.LeftByCalls m) : Coherent h m := by
  induction hm with
  | new => exact coherent_new h
  | call q fuel _ hfuel hexec ih =>
      have hpost := q.alone_spec ih (hg.gapsBelow (by decide)) hfuel _ rfl
      rw [hexec] at hpost
      exact hpost.2

/-- The most recent transaction is on the newest nonce. -/
lemma Query.mostRecent_result (hg : h.Gapless) (hlen : h.length ≤ MAX_UINT32) (hpos : 0 < h.length) :
    ∃ tx, Query.getMostRecentTx.result h.bucket = [tx] ∧ tx.nonce + 1 = h.length := by
  obtain ⟨n, hn⟩ := Nat.exists_eq_succ_of_ne_zero (Nat.ne_of_gt hpos)
  have hbelow : below (h.tokenBucket none) (h.top none)
      = (h.tokenBucket none n).reverse ++ below (h.tokenBucket none) n := by
    rw [show h.top none = n + 1 from (Nat.min_self _).trans hn]
    rfl
  have hself : h.tokenBucket none n = h.bucket n := List.filter_eq_self.mpr fun _ _ => rfl
  have hne : (h.bucket n).reverse ≠ [] := by
    rw [Ne, List.reverse_eq_nil_iff]
    exact hg.bucket_ne_nil (by omega)
  obtain ⟨tx, rest, hcons⟩ := List.exists_cons_of_ne_nil hne
  have hmem : tx ∈ h.bucket n := by
    rw [← List.mem_reverse, hcons]
    exact List.mem_cons_self
  refine ⟨tx, ?_, by rw [h.graded_bucket n tx hmem, hn]⟩
  show (Query.getMostRecentTx.found h.bucket).head?.toList = [tx]
  rw [Query.getMostRecentTx.found_bucket hlen]
  show (takeGroups _ 1 (below (h.tokenBucket none) (h.top none))).head?.toList = [tx]
  rw [hbelow, hself, hcons]
  rfl

/-- **On a fixed gapless chain, calls that leave the loop over the newest nonces only at the newest
nonce return what each would return alone**, in any order of the events; in particular
`getMostRecentTx` returns a transaction of the newest nonce.  A call that is not done can go on. -/
theorem Wallet.concurrent_eq_alone {ι : Type} [DecidableEq ι] (hg : h.Gapless)
    (hlen : h.length ≤ MAX_UINT32) {m₀ : TxManager} (hm₀ : h.LeftByCalls m₀) (queries : ι → Query)
    {es : List (Event ι)} {w : Wallet ι}
    (hrun : run (Wallet.step h) (Wallet.start m₀ queries) es = some w)
    (hends : Allowed (Wallet.step h) (EndsAtNewest h) (Wallet.start m₀ queries) es) (i : ι) :
    (∀ r, (w.calls i).outcome = some r →
      (∀ fuel ≥ h.length + DEFAULT_FETCH_BATCH_SIZE + 3,
        (exec ((queries i).alone h.fetcher fuel) m₀).1 = r) ∧
      (queries i = .getMostRecentTx → 0 < h.length →
        ∃ tx, r = .ok [tx] ∧ tx.nonce + 1 = h.length)) ∧
    ((w.calls i).outcome.isSome = true ∨
      ∃ e, (e = .resume i ∨ (∃ k, e = .answer i k) ∨ ∃ k j, e = .read i k j) ∧
        (w.step h e).isSome = true) := by
  refine ⟨fun r hdone => ?_, w.progress h i⟩
  have hc := hm₀.coherent hg
  have hquery := Wallet.run_query hrun i
  have hstart : WalletOk (fun _ => true) h.bucket h.length (fun _ => True) h
      (Wallet.start m₀ queries) := WalletOk.start (hc.knows _) h.bucket_nodup queries fun _ _ _ _ => rfl
  have hok : WalletOk (fun _ => true) h.bucket h.length (fun _ => True) h w := by
    refine run_invariant (fun s e s' hs hend hstep => ?_) hstart hends hrun
    refine hs.step (hg.chainOk hlen) ?_ hstep
    cases e with
    | read i k j => trivial
    | answer i k => trivial
    | resume i =>
        intro _ hlatest hnil n hn _
        have := hend hlatest hnil
        omega
  have hr : r = .ok ((queries i).result h.bucket) := by
    obtain ⟨v, hv, hr⟩ := (hok.calls i trivial).result_eq h.graded_bucket (Call.outcome_eq_some.mp hdone)
    -- above the newest nonce there is nothing to miss
    rw [hv.eq_of_empty fun n hn => h.bucket_of_length_le hn, hquery] at hr
    exact hr
  refine ⟨fun fuel hfuel => ?_, fun hq hpos => ?_⟩
  · obtain ⟨txs, m, hexec, rfl, -⟩ :=
      ((queries i).alone_spec hc (hg.gapsBelow (by decide)) hfuel).run rfl
    rw [hexec, hr, (queries i).answer_eq hg hlen]
  · obtain ⟨tx, htx, hnonce⟩ := Query.mostRecent_result hg hlen hpos
    exact ⟨tx, by rw [hr, hq, htx], hnonce⟩

end Fixed

/-! ### The two calls of `RemoteParamFetching` -/

/-- A chain with one topup on each nonce. -/
def topupChain (count : ℕ) : History :=
  .ofList ((List.range count).map fun n => .bareTopup n .LAMPORTS 1 (UInt8.ofNat n)) (by
    intro tx htx
    obtain ⟨n, -, rfl⟩ := List.mem_map.mp htx
    exact nofun)

def remoteParamCalls (tokenType : TokenType) : Bool → Query
  | true => .getActiveTxs tokenType none
  | false => .getMostRecentTx

def readWindow {ι : Type} (i : ι) : List (Event ι) := (List.range 10).map fun j => .read i 0 j

/-- Both calls ask for each window before either gets its answer. -/
def inTurns : List (Event Bool) :=
  let round := [.resume true, .resume false] ++ readWindow true ++ readWindow false ++
    [.answer true 0, .answer false 0]
  round ++ round ++ (List.replicate 6 [.resume true, .resume false]).flatten ++
    List.replicate 6 (.resume true)

theorem Wallet.concurrent_eq_alone_inTurns :
    ∃ w, run (Wallet.step (topupChain 3)) (Wallet.start .new (remoteParamCalls .LAMPORTS)) inTurns = some w ∧
      ∀ i, ∃ r, (w.calls i).outcome = some r ∧
        ∀ fuel ≥ 16, (exec ((remoteParamCalls .LAMPORTS i).alone (topupChain 3).fetcher fuel) .new).1 = r := by
  have hall : ((run (Wallet.step (topupChain 3)) (Wallet.start .new (remoteParamCalls .LAMPORTS)) inTurns).map
      fun w => (w.calls true).outcome.isSome && (w.calls false).outcome.isSome) = some true := by
    decide +kernel
  obtain ⟨w, hrun, hw⟩ := Option.map_eq_some_iff.mp hall
  rw [Bool.and_eq_true] at hw
  have hcall := fun i => Wallet.concurrent_eq_alone (show (topupChain 3).Gapless by
      show ∀ n < 3, (topupChain 3).txsAt n ≠ []
      decide) (by decide) .new (remoteParamCalls .LAMPORTS) hrun (by decide +kernel) i
  refine ⟨w, hrun, fun i => ?_⟩
  obtain ⟨r, hr⟩ : ∃ r, (w.calls i).outcome = some r := by
    cases i with
    | true => exact Option.isSome_iff_exists.mp hw.1
    | false => exact Option.isSome_iff_exists.mp hw.2
  exact ⟨r, hr, ((hcall i).1 r hr).1⟩

/-- `getActiveTxs` caches the second window while `getMostRecentTx` still reads the first one. -/
def overtaken : List (Event Bool) :=
  [.resume true, .resume false] ++ readWindow true ++ [.answer true 0, .resume true] ++
    readWindow true ++ [.answer true 0] ++ readWindow false ++
    [.answer false 0, .resume false, .answer false 0] ++ List.replicate 6 (.resume false)

/-- **Without the condition the newest transaction is missed**: the second window of
`getMostRecentTx` is cached already, so it brings nothing, and the third is never asked for. -/
theorem Wallet.concurrent_stale :
    (topupChain 21).Gapless ∧
    ((run (Wallet.step (topupChain 21)) (Wallet.start .new (remoteParamCalls .LAMPORTS)) overtaken).bind
      fun w => (w.calls false).outcome) = some (.ok [.bareTopup 19 .LAMPORTS 1 19]) ∧
    (exec (Query.getMostRecentTx.alone (topupChain 21).fetcher 34) .new).1
      = .ok [.bareTopup 20 .LAMPORTS 1 20] := by
  refine ⟨?_, ?_, ?_⟩
  · show ∀ n < 21, (topupChain 21).txsAt n ≠ []
    decide +kernel
  · decide +kernel
  · decide +kernel

end ElusivSdk
