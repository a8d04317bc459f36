import ElusivSdk.TxManagers.ConcurrentCalls

/-!
# The selected part of what calls read

The calls of a wallet share one cache, and the chain may grow while they run.  What is kept through
this is stated for a **selected part** of the transactions, given by a predicate `p`: `g n` is the
selected part of nonce `n`.  With `p` always true all tokens are followed, else those of one token.
Below a nonce `limit` the selected part matters completely, from there on only what is not in it must
not show up.

* `Tracks`, `Knows`, `ReadOk` — the chain, the cache, and what a request has read: below `limit` each
  holds the selected part of a nonce completely or holds nothing of the nonce.
* `Knows.cache` — caching an answer keeps this.
* `View` — what a call goes by: the selected part, from `limit` on with transactions missing.
-/

namespace ElusivSdk

open Descending Program

/-! ## The selected part -/

/-- Some of the selected part of a nonce; below `limit` all of it. -/
structure Part (g : ℕ → List ElusivTransaction) (limit n : ℕ) (l : List ElusivTransaction) : Prop where
  subset : l ⊆ g n
  eq : n < limit → l = g n

section Selected

variable (p : ElusivTransaction → Bool) (g : ℕ → List ElusivTransaction)

/-- The selected part of the chain is `g`. -/
structure Tracks (h : History) : Prop where
  part : ∀ n, (h.bucket n).filter p = g n
  known : ∀ n, ∀ x ∈ h.txsAt n, p x = true → ∃ y ∈ g n, y.key = x.key

variable (limit : ℕ)

/-- A nonce below `limit` that is cached, is cached with its whole selected part. -/
structure Knows (h : History) (m : TxManager) : Prop where
  part : ∀ n, m.bucket n ≠ [] → Part g limit n ((m.bucket n).filter p)
  used : ∀ n, m.bucket n ≠ [] → n < h.length

/-- What was read for a nonce, at some time of the run. -/
structure ReadOk (h : History) (n : ℕ) (txs : List ElusivTransaction) : Prop where
  nonce_eq : ∀ tx ∈ txs, tx.nonce = n
  part : txs ≠ [] → Part g limit n ((dedup equalTx txs).filter p)
  known : ∀ x ∈ txs, p x = true → ∃ y ∈ g n, y.key = x.key
  used : txs ≠ [] → n < h.length

/-- Everything a request has read so far. -/
def RequestOk (h : History) (r : Request) : Prop :=
  ∀ cell ∈ r.cells, ∀ txs, cell.2 = some txs → ReadOk p g limit h cell.1 txs

end Selected

section Selected

variable {p : ElusivTransaction → Bool} {g g' : ℕ → List ElusivTransaction} {limit limit' : ℕ}
  {h h' : History}

lemma Part.refl (g : ℕ → List ElusivTransaction) (limit n : ℕ) : Part g limit n (g n) :=
  ⟨fun _ hx => hx, fun _ => rfl⟩

lemma Part.lower {n : ℕ} {l : List ElusivTransaction} (hl : Part g limit n l)
    (hle : limit' ≤ limit) : Part g limit' n l :=
  ⟨hl.subset, fun hn => hl.eq (Nat.lt_of_lt_of_le hn hle)⟩

lemma Part.congr {n : ℕ} {l : List ElusivTransaction} (hl : Part g limit n l) (hg : g' n = g n) :
    Part g' limit n l := by
  refine ⟨?_, fun hn => ?_⟩
  · rw [hg]
    exact hl.subset
  · rw [hg]
    exact hl.eq hn

/-- From `limit` on the selected part may gain transactions. -/
lemma Part.extend {n : ℕ} {l : List ElusivTransaction} (hl : Part g limit n l) (hle : limit ≤ n)
    (hg : g n ⊆ g' n) : Part g' limit n l :=
  ⟨fun _ hx => hg (hl.subset hx), fun hn => absurd hn (Nat.not_lt_of_le hle)⟩

lemma Part.nil {n : ℕ} (hle : limit ≤ n) : Part g limit n [] :=
  ⟨List.nil_subset _, fun hn => absurd hn (Nat.not_lt_of_le hle)⟩

lemma Tracks.graded (ht : Tracks p g h) : Graded ElusivTransaction.nonce g := by
  intro n tx htx
  rw [← ht.part n] at htx
  exact h.graded_bucket n tx (List.mem_of_mem_filter htx)

lemma Tracks.lt_length (ht : Tracks p g h) {n : ℕ} (hn : g n ≠ []) : n < h.length := by
  refine h.lt_length_of_bucket_ne_nil fun hnil => hn ?_
  rw [← ht.part n, hnil]
  rfl

lemma Tracks.nodup (ht : Tracks p g h) (n : ℕ) : (g n).Nodup := by
  rw [← ht.part n]
  exact (h.bucket_nodup n).filter p

lemma Tracks.readOk (ht : Tracks p g h) (n : ℕ) : ReadOk p g limit h n (h.txsAt n) where
  nonce_eq := h.nonce_eq n
  part _ := by
    rw [show (dedup equalTx (h.txsAt n)).filter p = g n from ht.part n]
    exact Part.refl g limit n
  known := ht.known n
  used hne := by
    by_contra hle
    exact hne (h.eq_nil_of_length_le n (by omega))

lemma Knows.mono {m : TxManager} (hk : Knows p g limit h m) (hlen : h.length ≤ h'.length)
    (hle : limit' ≤ limit) : Knows p g limit' h' m :=
  ⟨fun n hn => (hk.part n hn).lower hle, fun n hn => Nat.lt_of_lt_of_le (hk.used n hn) hlen⟩

lemma RequestOk.mono {r : Request} (hr : RequestOk p g limit h r) (hlen : h.length ≤ h'.length)
    (hle : limit' ≤ limit) : RequestOk p g limit' h' r := by
  intro cell hcell txs htxs
  have hok := hr cell hcell txs htxs
  exact ⟨hok.nonce_eq, fun hne => (hok.part hne).lower hle, hok.known,
    fun hne => Nat.lt_of_lt_of_le (hok.used hne) hlen⟩

/-- Caching what was read for a nonce leaves the nonce with its selected part. -/
lemma ReadOk.insertAll {n : ℕ} {spot txs : List ElusivTransaction} (hr : ReadOk p g limit h n txs)
    (hspot : spot ≠ [] → Part g limit n (spot.filter p)) (hne : insertAll equalTx spot txs ≠ []) :
    Part g limit n ((insertAll equalTx spot txs).filter p) := by
  refine ⟨fun x hx => ?_, fun hn => ?_⟩
  · obtain ⟨hx, hp⟩ := List.mem_filter.mp hx
    have htrans : ∀ t u v : ElusivTransaction, equalTx t u = true → equalTx u v = true →
        equalTx t v = true := fun t u v htu huv =>
      equalTx_iff.mpr ((equalTx_iff.mp htu).trans (equalTx_iff.mp huv))
    rcases mem_insertAll_dedup htrans hx with hx | hx
    · exact (hspot (List.ne_nil_of_mem hx)).subset (List.mem_filter.mpr ⟨hx, hp⟩)
    · refine (hr.part ?_).subset (List.mem_filter.mpr ⟨hx, hp⟩)
      rintro rfl
      exact List.not_mem_nil hx
  · by_cases hnil : spot = []
    · subst hnil
      refine (hr.part fun htxs => hne ?_).eq hn
      rw [htxs, insertAll_nil]
    · have heq := (hspot hnil).eq hn
      rw [← heq]
      refine filter_insertAll_of_known p fun x hx hp => ?_
      obtain ⟨y, hy, hkey⟩ := hr.known x hx hp
      rw [← heq] at hy
      exact ⟨y, List.mem_of_mem_filter hy, equalTx_iff.mpr hkey⟩

/-- The transactions of one nonce in an answer, cell by cell. -/
lemma insertAll_cells {n : ℕ} :
    ∀ {cells : List (ℕ × Option (List ElusivTransaction))} {spot : List ElusivTransaction},
      (∀ cell ∈ cells, ∀ txs, cell.2 = some txs → ReadOk p g limit h cell.1 txs) →
      (spot ≠ [] → Part g limit n (spot.filter p) ∧ n < h.length) →
      let added := (cells.flatMap fun cell => cell.2.getD []).filter fun tx => tx.nonce = n
      insertAll equalTx spot added ≠ [] →
        Part g limit n ((insertAll equalTx spot added).filter p) ∧ n < h.length
  | [], spot, _, hspot => hspot
  | (k, none) :: cells, spot, hcells, hspot => by
      simpa using insertAll_cells (fun cell hc => hcells cell (List.mem_cons_of_mem _ hc)) hspot
  | (k, some txs) :: cells, spot, hcells, hspot => by
      have hread := hcells (k, some txs) (by simp) txs rfl
      have hrest : ∀ cell ∈ cells, ∀ txs, cell.2 = some txs → ReadOk p g limit h cell.1 txs :=
        fun cell hc => hcells cell (List.mem_cons_of_mem _ hc)
      simp only [List.flatMap_cons, Option.getD_some, List.filter_append, insertAll_append]
      refine insertAll_cells hrest fun hne => ?_
      by_cases hk : k = n
      · subst hk
        have hself : txs.filter (fun tx => decide (tx.nonce = k)) = txs :=
          List.filter_eq_self.mpr fun tx htx => by simpa using hread.nonce_eq tx htx
        rw [hself] at hne ⊢
        refine ⟨hread.insertAll (fun hs => (hspot hs).1) hne, ?_⟩
        by_cases hs : spot = []
        · refine hread.used fun hnil => hne ?_
          rw [hs, hnil]
          rfl
        · exact (hspot hs).2
      · have hnil : txs.filter (fun tx => decide (tx.nonce = n)) = [] :=
          List.filter_eq_nil_iff.mpr fun tx htx => by
            have := hread.nonce_eq tx htx
            simp only [decide_eq_true_eq]
            omega
        rw [hnil, insertAll_nil] at hne ⊢
        exact hspot hne

/-- **Caching the answer to a request keeps what the manager knows.** -/
lemma Knows.cache {m : TxManager} (hk : Knows p g limit h m) {r : Request}
    (hr : RequestOk p g limit h r) : Knows p g limit h (m.cache r.txs) := by
  have hboth : ∀ n, (m.cache r.txs).bucket n ≠ [] →
      Part g limit n (((m.cache r.txs).bucket n).filter p) ∧ n < h.length := by
    intro n
    rw [TxManager.bucket_cache]
    exact insertAll_cells hr fun hne => ⟨hk.part n hne, hk.used n hne⟩
  exact ⟨fun n hn => (hboth n hn).1, fun n hn => (hboth n hn).2⟩

end Selected

/-- Nothing that is cached is lost. -/
lemma TxManager.cache_bucket_ne_nil {m : TxManager} {txs : List ElusivTransaction} {n : ℕ}
    (hn : m.bucket n ≠ []) : (m.cache txs).bucket n ≠ [] := by
  rw [TxManager.bucket_cache]
  exact insertAll_ne_nil (Or.inl hn)

/-- A nonce for which a request read something is cached afterwards. -/
lemma TxManager.cache_request_ne_nil {p : ElusivTransaction → Bool}
    {g : ℕ → List ElusivTransaction} {limit : ℕ} {h : History} {m : TxManager} {r : Request}
    (hr : RequestOk p g limit h r) (hread : r.isRead = true)
    {cell : ℕ × Option (List ElusivTransaction)} (hcell : cell ∈ r.cells) (hne : cell.2 ≠ some []) :
    (m.cache r.txs).bucket cell.1 ≠ [] := by
  obtain ⟨txs, htxs⟩ := Option.isSome_iff_exists.mp (List.all_eq_true.mp hread cell hcell)
  have hnil : txs ≠ [] := by
    rintro rfl
    exact hne htxs
  obtain ⟨tx, htx⟩ := List.exists_mem_of_ne_nil _ hnil
  rw [TxManager.bucket_cache]
  refine insertAll_ne_nil (Or.inr (List.ne_nil_of_mem (List.mem_filter.mpr
    ⟨List.mem_flatMap.mpr ⟨cell, hcell, by rw [htxs]; exact htx⟩, ?_⟩)))
  simpa using (hr cell hcell txs htxs).nonce_eq tx htx

/-! ## Views -/

/-- A view of the selected part, which it shows below `limit` as it is. -/
structure View (g : ℕ → List ElusivTransaction) (limit : ℕ) (v : ℕ → List ElusivTransaction) :
    Prop where
  part : ∀ n, Part g limit n (v n)
  nodup : ∀ n, (v n).Nodup

namespace View

variable {g v : ℕ → List ElusivTransaction} {limit limit' : ℕ}

lemma refl (hg : ∀ n, (g n).Nodup) (limit : ℕ) : View g limit g := ⟨Part.refl g limit, hg⟩

lemma lower (hv : View g limit v) (hle : limit' ≤ limit) : View g limit' v :=
  ⟨fun n => (hv.part n).lower hle, hv.nodup⟩

lemma graded (hv : View g limit v) (hg : Graded ElusivTransaction.nonce g) :
    Graded ElusivTransaction.nonce v := fun n tx htx => hg n tx ((hv.part n).subset htx)

/-- With nothing from `limit` on there is one view. -/
lemma eq_of_empty (hv : View g limit v) (hg : ∀ n, limit ≤ n → g n = []) : v = g := by
  funext n
  by_cases hn : n < limit
  · exact (hv.part n).eq hn
  · have hsub := (hv.part n).subset
    rw [hg n (by omega)] at hsub ⊢
    exact List.subset_nil.mp hsub

end View

end ElusivSdk
