import ElusivSdk.TxManagers.TransactionCacher

/-!
# What the chain holds for one wallet

A `History` gives, for every nonce, the transactions found under the identifier key of that nonce,
in the order in which the fetcher returns them.  It is what the wallet could know at one moment; a
transaction manager knows a part of it.

* `bucket` — what is cached of a nonce once it was fetched: the transactions of the nonce without
  repetitions of a commitment hash.
* `Gapless`, `GapsBelow` — the assumptions under which the newest nonce can be found at all: every
  nonce below the newest is used, or there are at least fewer than `step` unused nonces in a row.
* `fetch` — the answer to a request for nonces, where nonces marked as cached are skipped.
* `Coherent` — every nonce that a manager has cached, it has cached completely.
-/

namespace ElusivSdk

open Descending

/-- The transactions of a wallet on the chain, by nonce. -/
structure History where
  txsAt : ℕ → List ElusivTransaction
  /-- One more than the newest nonce in use, 0 when no nonce is. -/
  length : ℕ
  nonce_eq : ∀ n, ∀ tx ∈ txsAt n, tx.nonce = n
  ne_nil_of_newest : ∀ n, length = n + 1 → txsAt n ≠ []
  eq_nil_of_length_le : ∀ n, length ≤ n → txsAt n = []
  /-- Parsing never reports a transaction as confirmed. -/
  not_confirmed : ∀ n, ∀ tx ∈ txsAt n, tx.transactionStatus ≠ some .CONFIRMED

namespace History

/-- What is cached of a nonce once it was fetched. -/
def bucket (h : History) (n : ℕ) : List ElusivTransaction := dedup equalTx (h.txsAt n)

/-- Every nonce up to the newest is in use. -/
def Gapless (h : History) : Prop := ∀ n, n < h.length → h.txsAt n ≠ []

/-- No `step` consecutive nonces below the newest are all unused. -/
def GapsBelow (step : ℕ) (h : History) : Prop :=
  ∀ k, k < h.length → ∃ n, k ≤ n ∧ n < k + step ∧ h.txsAt n ≠ []

/-- The transactions of one nonce have pairwise different commitment hashes. -/
def DistinctHashes (h : History) : Prop :=
  ∀ n, (h.txsAt n).Pairwise fun tx1 tx2 => tx1.commitmentHash ≠ tx2.commitmentHash

/-- The answer to a request.  A nonce marked `true` is cached and skipped. -/
def fetch (h : History) (nonces : List (ℕ × Bool)) : List ElusivTransaction :=
  nonces.flatMap fun n => if n.2 then [] else h.txsAt n.1

lemma Gapless.gapsBelow {h : History} (hg : h.Gapless) {step : ℕ} (hs : 0 < step) :
    h.GapsBelow step := fun k hk => ⟨k, le_rfl, by omega, hg k hk⟩

lemma bucket_subset (h : History) (n : ℕ) : h.bucket n ⊆ h.txsAt n := by
  intro tx htx
  rcases mem_insertAll htx with htx | htx
  · simp at htx
  · exact htx

lemma graded_bucket (h : History) : Graded ElusivTransaction.nonce h.bucket :=
  fun n tx htx => h.nonce_eq n tx (h.bucket_subset n htx)

lemma bucket_nodup (h : History) (n : ℕ) : (h.bucket n).Nodup :=
  nodup_of_pairwise equalTx_self (pairwise_dedup (h.txsAt n))

lemma bucket_eq_nil_iff (h : History) (n : ℕ) : h.bucket n = [] ↔ h.txsAt n = [] := by
  constructor
  · intro hnil
    by_contra hne
    exact insertAll_ne_nil (Or.inr hne) hnil
  · intro hnil
    rw [bucket, hnil, dedup_nil]

lemma bucket_of_length_le (h : History) {n : ℕ} (hn : h.length ≤ n) : h.bucket n = [] :=
  (h.bucket_eq_nil_iff n).mpr (h.eq_nil_of_length_le n hn)

lemma Gapless.bucket_ne_nil {h : History} (hg : h.Gapless) {n : ℕ} (hn : n < h.length) :
    h.bucket n ≠ [] := fun hnil => hg n hn ((h.bucket_eq_nil_iff n).mp hnil)

lemma lt_length_of_bucket_ne_nil (h : History) {n : ℕ} (hn : h.bucket n ≠ []) : n < h.length := by
  by_contra hle
  exact hn (h.bucket_of_length_le (by omega))

/-- With distinct hashes caching drops nothing. -/
lemma DistinctHashes.bucket_eq {h : History} (hd : h.DistinctHashes) (n : ℕ) :
    h.bucket n = h.txsAt n := by
  refine dedup_of_pairwise ((hd n).imp fun {tx1 tx2} hne => ?_)
  simp [equalTx, hne]

lemma graded_txsAt (h : History) : Graded ElusivTransaction.nonce h.txsAt := h.nonce_eq

/-- With distinct hashes per nonce the chain holds no transaction twice. -/
lemma DistinctHashes.nodup {h : History} (hd : h.DistinctHashes) (hi : ℕ) :
    (below h.txsAt hi).Nodup :=
  h.graded_txsAt.between_nodup (fun n => (hd n).imp fun {_ _} hne heq =>
    hne (congrArg ElusivTransaction.commitmentHash heq)) 0 hi

/-- All transactions of the wallet, from the newest nonce down. -/
def txs (h : History) : List ElusivTransaction := below h.txsAt h.length

lemma mem_txs {h : History} {tx : ElusivTransaction} : tx ∈ h.txs ↔ tx ∈ h.txsAt tx.nonce := by
  rw [txs, h.graded_txsAt.mem_between]
  refine ⟨fun htx => htx.2.2, fun htx => ⟨Nat.zero_le _, ?_, htx⟩⟩
  by_contra hge
  rw [h.eq_nil_of_length_le _ (Nat.le_of_not_lt hge)] at htx
  exact List.not_mem_nil htx

lemma lt_length_of_mem_txs {h : History} {tx : ElusivTransaction} (htx : tx ∈ h.txs) :
    tx.nonce < h.length := (h.graded_txsAt.mem_between.mp htx).2.1

lemma mem_fetch {h : History} {nonces : List (ℕ × Bool)} {tx : ElusivTransaction} :
    tx ∈ h.fetch nonces ↔ ∃ n, (n, false) ∈ nonces ∧ tx ∈ h.txsAt n := by
  rw [fetch, List.mem_flatMap]
  constructor
  · rintro ⟨⟨n, cached⟩, hn, htx⟩
    cases cached with
    | true => simp at htx
    | false => exact ⟨n, hn, by simpa using htx⟩
  · rintro ⟨n, hn, htx⟩
    exact ⟨(n, false), hn, by simpa using htx⟩

/-- An answer is empty exactly when no requested nonce is both uncached and in use. -/
lemma fetch_eq_nil_iff {h : History} {nonces : List (ℕ × Bool)} :
    h.fetch nonces = [] ↔ ∀ n, (n, false) ∈ nonces → h.txsAt n = [] := by
  constructor
  · intro hnil n hn
    refine List.eq_nil_iff_forall_not_mem.mpr fun tx htx => ?_
    have : tx ∈ h.fetch nonces := mem_fetch.mpr ⟨n, hn, htx⟩
    rw [hnil] at this
    exact List.not_mem_nil this
  · intro hall
    refine List.eq_nil_iff_forall_not_mem.mpr fun tx htx => ?_
    obtain ⟨n, hn, htx⟩ := mem_fetch.mp htx
    rw [hall n hn] at htx
    exact List.not_mem_nil htx

/-- What an answer holds for one nonce: its transactions, once for every uncached request. -/
lemma filter_fetch (h : History) (nonces : List (ℕ × Bool)) (n : ℕ) :
    (h.fetch nonces).filter (fun tx => tx.nonce = n)
      = (nonces.filter fun p => p == (n, false)).flatMap fun _ => h.txsAt n := by
  induction nonces with
  | nil => rfl
  | cons p nonces ih =>
      obtain ⟨k, cached⟩ := p
      have hsplit : h.fetch ((k, cached) :: nonces)
          = (if cached then [] else h.txsAt k) ++ h.fetch nonces := rfl
      rw [hsplit, List.filter_append, ih]
      cases cached with
      | true => simp
      | false =>
          by_cases hk : k = n
          · subst hk
            have hself : (h.txsAt k).filter (fun tx => decide (tx.nonce = k)) = h.txsAt k :=
              List.filter_eq_self.mpr fun tx htx => by simpa using h.nonce_eq k tx htx
            rw [List.filter_cons_of_pos (by simp), List.flatMap_cons]
            simp [hself]
          · have hnil : (h.txsAt k).filter (fun tx => decide (tx.nonce = n)) = [] :=
              List.filter_eq_nil_iff.mpr fun tx htx => by
                have := h.nonce_eq k tx htx
                simp only [decide_eq_true_eq]
                omega
            rw [List.filter_cons_of_neg (by simpa using hk)]
            simp [hnil]

/-- Adding the transactions of a nonce any positive number of times gives its bucket. -/
lemma insertAll_flatMap_const {α : Type} (h : History) (n : ℕ) (l : List α) :
    insertAll equalTx [] (l.flatMap fun _ => h.txsAt n) = if l = [] then [] else h.bucket n := by
  have hgen : ∀ l : List α, insertAll equalTx (h.bucket n) (l.flatMap fun _ => h.txsAt n)
      = h.bucket n := by
    intro l
    refine insertAll_of_forall fun tx htx => ?_
    obtain ⟨_, -, htx⟩ := List.mem_flatMap.mp htx
    exact exists_mem_insertAll equalTx_self htx
  cases l with
  | nil => rfl
  | cons a l =>
      rw [if_neg (by simp), List.flatMap_cons]
      have happ : insertAll equalTx [] (h.txsAt n ++ l.flatMap fun _ => h.txsAt n)
          = insertAll equalTx (h.bucket n) (l.flatMap fun _ => h.txsAt n) := by
        simp [insertAll, bucket, dedup]
      rw [happ, hgen]

/-! ### The history of a list of transactions -/

/-- One more than the largest nonce of a list. -/
def lengthOf (txs : List ElusivTransaction) : ℕ := (txs.map fun tx => tx.nonce + 1).foldr max 0

lemma nonce_lt_lengthOf {txs : List ElusivTransaction} {tx : ElusivTransaction} (h : tx ∈ txs) :
    tx.nonce < lengthOf txs := by
  induction txs with
  | nil => simp at h
  | cons t txs ih =>
      have hmax : lengthOf (t :: txs) = max (t.nonce + 1) (lengthOf txs) := rfl
      rcases List.mem_cons.mp h with rfl | h
      · omega
      · have := ih h
        omega

lemma exists_nonce_of_lengthOf {txs : List ElusivTransaction} {n : ℕ} (h : lengthOf txs = n + 1) :
    ∃ tx ∈ txs, tx.nonce = n := by
  induction txs with
  | nil => simp [lengthOf] at h
  | cons t txs ih =>
      have hmax : lengthOf (t :: txs) = max (t.nonce + 1) (lengthOf txs) := rfl
      rcases Nat.le_total (t.nonce + 1) (lengthOf txs) with hle | hle
      · obtain ⟨tx, htx, hn⟩ := ih (by omega)
        exact ⟨tx, List.mem_cons_of_mem t htx, hn⟩
      · exact ⟨t, by simp, by omega⟩

lemma nil_not_confirmed : ∀ tx ∈ ([] : List ElusivTransaction), tx.transactionStatus ≠ some .CONFIRMED :=
  List.forall_mem_nil _

/-- The history in which exactly the given transactions are on the chain, in this order. -/
def ofList (txs : List ElusivTransaction)
    (hstatus : ∀ tx ∈ txs, tx.transactionStatus ≠ some .CONFIRMED) : History where
  txsAt n := txs.filter fun tx => tx.nonce == n
  length := lengthOf txs
  nonce_eq n tx htx := eq_of_beq (List.mem_filter.mp htx).2
  ne_nil_of_newest n hn := by
    obtain ⟨tx, htx, hnonce⟩ := exists_nonce_of_lengthOf hn
    exact List.ne_nil_of_mem (List.mem_filter.mpr ⟨htx, by simpa using hnonce⟩)
  eq_nil_of_length_le n hn := by
    refine List.filter_eq_nil_iff.mpr fun tx htx => ?_
    have := nonce_lt_lengthOf htx
    simp only [beq_iff_eq]
    omega
  not_confirmed n tx htx := hstatus tx (List.mem_of_mem_filter htx)

/-- A property of the transactions of every nonce has to be checked below the length only. -/
lemma forall_nonce_of_lt {h : History} {P : ℕ → List ElusivTransaction → Prop}
    (hnil : ∀ n, P n []) (hlt : ∀ n, n < h.length → P n (h.txsAt n)) (n : ℕ) : P n (h.txsAt n) := by
  rcases Nat.lt_or_ge n h.length with hn | hn
  · exact hlt n hn
  · rw [h.eq_nil_of_length_le n hn]
    exact hnil n

/-- Caching the answer to a request fills the buckets it asks for and leaves the others, where
what was there is either nothing or the history's own bucket. -/
lemma bucket_cache_fetch (h : History) {m : TxManager} {nonces : List (ℕ × Bool)} {n : ℕ}
    (hm : (n, false) ∈ nonces → m.bucket n = [] ∨ m.bucket n = h.bucket n) :
    (m.cache (h.fetch nonces)).bucket n
      = if (n, false) ∈ nonces then h.bucket n else m.bucket n := by
  rw [TxManager.bucket_cache, h.filter_fetch]
  split_ifs with hn
  · have hne : nonces.filter (fun p => p == (n, false)) ≠ [] :=
      List.ne_nil_of_mem (List.mem_filter.mpr ⟨hn, by simp⟩)
    rcases hm hn with hnil | hfull
    · rw [hnil, h.insertAll_flatMap_const, if_neg hne]
    · rw [hfull]
      refine insertAll_of_forall fun tx htx => ?_
      obtain ⟨_, -, htx⟩ := List.mem_flatMap.mp htx
      exact exists_mem_insertAll equalTx_self htx
  · have hnil : nonces.filter (fun p => p == (n, false)) = [] :=
      List.filter_eq_nil_iff.mpr fun p hp hpn => hn (by rwa [← eq_of_beq hpn])
    rw [hnil]
    rfl

end History

/-! ## Coherent managers -/

/-- A nonce that the manager has cached, it has cached completely. -/
def Coherent (h : History) (m : TxManager) : Prop := ∀ n, m.bucket n ≠ [] → m.bucket n = h.bucket n

/-- The manager has every transaction of the nonces below `hi` from `lo` up. -/
def Covers (h : History) (m : TxManager) (lo hi : ℕ) : Prop :=
  ∀ n, lo ≤ n → n < hi → m.bucket n = h.bucket n

lemma coherent_new (h : History) : Coherent h TxManager.new :=
  fun n hn => absurd (TxManager.new_bucket n) hn

namespace Coherent

variable {h : History} {m : TxManager}

lemma eq_nil_or (hc : Coherent h m) (n : ℕ) : m.bucket n = [] ∨ m.bucket n = h.bucket n :=
  or_iff_not_imp_left.mpr (hc n)

lemma lt_length (hc : Coherent h m) {n : ℕ} (hn : m.bucket n ≠ []) : n < h.length :=
  h.lt_length_of_bucket_ne_nil (by rw [← hc n hn]; exact hn)

lemma eq_nil_of_length_le (hc : Coherent h m) {n : ℕ} (hn : h.length ≤ n) : m.bucket n = [] := by
  by_contra hne
  have := hc.lt_length hne
  omega

/-- **Caching the answer to a request keeps a coherent manager coherent**, and the nonces of the
request that were not marked as cached are there afterwards. -/
lemma cache_fetch (hc : Coherent h m) (nonces : List (ℕ × Bool)) :
    Coherent h (m.cache (h.fetch nonces)) ∧
      (∀ n, (n, false) ∈ nonces → (m.cache (h.fetch nonces)).bucket n = h.bucket n) ∧
      (∀ n, (n, false) ∉ nonces → (m.cache (h.fetch nonces)).bucket n = m.bucket n) := by
  have hbucket : ∀ n, (m.cache (h.fetch nonces)).bucket n
      = if (n, false) ∈ nonces then h.bucket n else m.bucket n :=
    fun n => h.bucket_cache_fetch fun _ => hc.eq_nil_or n
  refine ⟨fun n hn => ?_, fun n hn => ?_, fun n hn => ?_⟩
  · rw [hbucket] at hn ⊢
    split_ifs at hn ⊢ with hmem
    · rfl
    · exact hc n hn
  · rw [hbucket, if_pos hn]
  · rw [hbucket, if_neg hn]

end Coherent

end ElusivSdk
