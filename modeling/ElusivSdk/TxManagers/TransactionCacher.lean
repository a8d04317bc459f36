import ElusivSdk.Caching.IndexedMultiCacher
import ElusivSdk.Types

/-!
# The state of a transaction manager

A transaction manager owns one cache of transactions, of mixed token types, indexed by nonce.  Two
transactions are the same cached object when they agree in nonce and commitment hash.

* `TxManager` — the cache, and the set of objects whose `transactionStatus` field was set to
  `CONFIRMED` since they were cached.  The source writes that field inside the shared objects; the
  cache holds at most one object for a nonce and a commitment hash (`eq_of_mem_bucket`), so the
  writes are kept beside the cache under that key and `statusOf` reads the field.
* `getCachedTxs`, `getCachedTxsWrapper` — the readings of the cache.  **`getCachedTxsWrapper_eq`**:
  the second one is a descending reading of the cache.
-/

namespace ElusivSdk

open SparseArray Descending

/-- Equal nonce and commitment hash: the comparison the cache is built with. -/
def equalTx (tx1 tx2 : ElusivTransaction) : Bool :=
  tx1.nonce == tx2.nonce && tx1.commitmentHash == tx2.commitmentHash

lemma equalTx_iff {tx1 tx2 : ElusivTransaction} : equalTx tx1 tx2 = true ↔ tx1.key = tx2.key := by
  simp [equalTx, ElusivTransaction.key]

@[simp]
lemma equalTx_self (tx : ElusivTransaction) : equalTx tx tx = true := equalTx_iff.mpr rfl

abbrev FetchedTxs := IndexedMultiCacher ElusivTransaction ElusivTransaction.nonce equalTx

/-- The state of a transaction manager. -/
structure TxManager where
  fetchedTxs : FetchedTxs
  /-- The objects whose status was set to `CONFIRMED`. -/
  confirmed : List (ℕ × Bytes)

namespace TxManager

/-- A newly created manager. -/
def new : TxManager := { fetchedTxs := IndexedMultiCacher.empty, confirmed := [] }

/-- What the `transactionStatus` field of a cached object reads. -/
def statusOf (m : TxManager) (tx : ElusivTransaction) : Option TransactionStatus :=
  if tx.key ∈ m.confirmed then some .CONFIRMED else tx.transactionStatus

/-- `tx.transactionStatus = 'CONFIRMED'`. -/
def setConfirmed (m : TxManager) (tx : ElusivTransaction) : TxManager :=
  { m with confirmed := tx.key :: m.confirmed }

def cache (m : TxManager) (txs : List ElusivTransaction) : TxManager :=
  { m with fetchedTxs := m.fetchedTxs.cache txs }

/-- The transactions cached for a nonce. -/
def bucket (m : TxManager) : ℕ → List ElusivTransaction := m.fetchedTxs.bucket

lemma new_bucket (n : ℕ) : new.bucket n = [] := by simp [new, bucket]

lemma bucket_cache (m : TxManager) (txs : List ElusivTransaction) (n : ℕ) :
    (m.cache txs).bucket n
      = insertAll equalTx (m.bucket n) (txs.filter fun tx => tx.nonce = n) :=
  m.fetchedTxs.bucket_cache txs n

lemma graded_bucket (m : TxManager) : Graded ElusivTransaction.nonce m.bucket :=
  m.fetchedTxs.graded_bucket

lemma bucket_pairwise (m : TxManager) (n : ℕ) :
    (m.bucket n).Pairwise fun tx1 tx2 => equalTx tx1 tx2 = false :=
  m.fetchedTxs.bucket_pairwise n

lemma bucket_nodup (m : TxManager) (n : ℕ) : (m.bucket n).Nodup :=
  nodup_of_pairwise equalTx_self (m.bucket_pairwise n)

/-- The cache holds one object for a nonce and a commitment hash. -/
lemma eq_of_mem_bucket (m : TxManager) {n : ℕ} {tx tx' : ElusivTransaction} (h : tx ∈ m.bucket n)
    (h' : tx' ∈ m.bucket n) (hkey : tx.key = tx'.key) : tx = tx' := by
  have hp := List.pairwise_iff_getElem.mp (m.bucket_pairwise n)
  by_contra hne
  obtain ⟨i, hi, rfl⟩ := List.getElem_of_mem h
  obtain ⟨j, hj, rfl⟩ := List.getElem_of_mem h'
  rcases Nat.lt_trichotomy i j with hij | hij | hij
  · have := hp i j hi hj hij
    rw [equalTx_iff.mpr hkey] at this
    exact Bool.noConfusion this
  · subst hij
    exact hne rfl
  · have := hp j i hj hi hij
    rw [equalTx_iff.mpr hkey.symm] at this
    exact Bool.noConfusion this

/-! ## Readings of the cache -/

/-- The cached values of a range of nonces, flattened; holes give nothing. -/
def getAllCachedTxs (m : TxManager) (fromNonce : ℤ) (toNonce : Option ℤ) :
    List ElusivTransaction :=
  (slice m.fetchedTxs.getCachedValues fromNonce toNonce).flatMap fun b => b.getD []

/-- `fromNonce` is inclusive and `toNonce` exclusive. -/
def getCachedTxs (m : TxManager) (tokenType : Option TokenType) (fromNonce : ℤ)
    (toNonce : Option ℤ) : List ElusivTransaction :=
  (m.getAllCachedTxs fromNonce toNonce).filter (ElusivTransaction.hasToken tokenType)

/-- The reading from the newest nonce down; both bounds are exclusive. -/
def getCachedTxsWrapper (m : TxManager) (beforeTx afterTx : Option ℤ) : List ElusivTransaction :=
  (m.getCachedTxs none ((afterTx.map (· + 1)).getD 0) beforeTx).reverse

lemma getCachedTxs_none (m : TxManager) (fromNonce : ℤ) (toNonce : Option ℤ) :
    m.getCachedTxs none fromNonce toNonce = m.getAllCachedTxs fromNonce toNonce := by
  rw [getCachedTxs]
  exact List.filter_eq_self.mpr fun _ _ => rfl

/-- **The cached transactions between two nonces are a descending reading of the cache.** -/
lemma getCachedTxsWrapper_eq (m : TxManager) (lo hi : ℕ) :
    m.getCachedTxsWrapper (some hi) (some (lo - 1 : ℤ)) = between m.bucket lo hi := by
  have hlo : (lo : ℤ) - 1 + 1 = lo := by omega
  simp only [getCachedTxsWrapper, getCachedTxs_none, Option.map_some, Option.getD_some, hlo]
  exact reverse_flatten_slice m.fetchedTxs.cached lo hi

/-- Without an upper bound the whole cache is read. -/
lemma getCachedTxsWrapper_none (m : TxManager) {hi : ℕ}
    (h : m.fetchedTxs.cached.length ≤ hi) (lo : ℕ) :
    m.getCachedTxsWrapper none (some (lo - 1 : ℤ)) = between m.bucket lo hi := by
  have hlo : (lo : ℤ) - 1 + 1 = lo := by omega
  simp only [getCachedTxsWrapper, getCachedTxs_none, Option.map_some, Option.getD_some, hlo]
  exact reverse_flatten_slice_none m.fetchedTxs.cached lo hi h

def isCachedNonce (m : TxManager) (nonce : ℤ) : Bool :=
  (m.getCachedTxsWrapper (some (nonce + 1)) (some (nonce - 1))).head?.isSome

def getLatestCachedTx (m : TxManager) : Option ElusivTransaction :=
  (m.getCachedTxsWrapper none none).head?

/-- The largest cached nonce; -1 when nothing is cached. -/
def getLatestCachedNonce (m : TxManager) : ℤ :=
  match m.getLatestCachedTx with
  | none => -1
  | some tx => tx.nonce

@[simp]
lemma isCachedNonce_iff (m : TxManager) (n : ℕ) :
    m.isCachedNonce n = true ↔ m.bucket n ≠ [] := by
  have hw := m.getCachedTxsWrapper_eq n (n + 1)
  rw [between_singleton] at hw
  have hcast : ((n + 1 : ℕ) : ℤ) = (n : ℤ) + 1 := by omega
  rw [hcast] at hw
  rw [isCachedNonce, hw]
  cases h : m.bucket n with
  | nil => simp
  | cons tx txs => simp

/-- The whole cache, newest nonce first. -/
lemma getCachedTxsWrapper_all (m : TxManager) :
    m.getCachedTxsWrapper none none = below m.bucket m.fetchedTxs.cached.length := by
  simpa [getCachedTxsWrapper] using m.getCachedTxsWrapper_none (Nat.le_refl _) 0

lemma bucket_eq_nil_of_latest_lt (m : TxManager) {n : ℕ} (h : m.getLatestCachedNonce < n) :
    m.bucket n = [] := by
  by_contra hne
  obtain ⟨tx, htx⟩ := List.exists_mem_of_ne_nil _ hne
  have hlen : n < m.fetchedTxs.cached.length := by
    by_contra hge
    exact hne (bucket_of_length_le (by omega))
  have hmem : tx ∈ m.getCachedTxsWrapper none none := by
    rw [getCachedTxsWrapper_all]
    exact mem_between.mpr ⟨n, Nat.zero_le n, hlen, htx⟩
  have hpair : (m.getCachedTxsWrapper none none).Pairwise fun x y => y.nonce ≤ x.nonce := by
    rw [getCachedTxsWrapper_all]
    exact m.graded_bucket.between_pairwise 0 _
  have hnonce : tx.nonce = n := m.graded_bucket n tx htx
  unfold getLatestCachedNonce getLatestCachedTx at h
  cases hl : m.getCachedTxsWrapper none none with
  | nil =>
      rw [hl] at hmem
      exact List.not_mem_nil hmem
  | cons t ts =>
      rw [hl] at hmem hpair h
      simp only [List.head?_cons] at h
      rcases List.mem_cons.mp hmem with rfl | hmem
      · omega
      · have := (List.pairwise_cons.mp hpair).1 tx hmem
        omega

lemma le_getLatestCachedNonce (m : TxManager) {n : ℕ} (hn : m.bucket n ≠ []) :
    (n : ℤ) ≤ m.getLatestCachedNonce := by
  by_contra h
  exact hn (m.bucket_eq_nil_of_latest_lt (by omega))

/-- What is read from the cache is cached. -/
lemma mem_bucket_of_mem_wrapper (m : TxManager) {before after : Option ℤ} {tx : ElusivTransaction}
    (htx : tx ∈ m.getCachedTxsWrapper before after) : tx ∈ m.bucket tx.nonce := by
  rw [getCachedTxsWrapper, getCachedTxs_none, List.mem_reverse] at htx
  obtain ⟨n, hn⟩ := exists_bucket_of_mem_slice htx
  rwa [m.graded_bucket n tx hn]

lemma neg_one_le_getLatestCachedNonce (m : TxManager) : -1 ≤ m.getLatestCachedNonce := by
  unfold getLatestCachedNonce
  cases m.getLatestCachedTx with
  | none => simp
  | some tx => simp only; omega

/-- The latest cached nonce is cached. -/
lemma bucket_getLatestCachedNonce (m : TxManager) {n : ℕ} (h : m.getLatestCachedNonce = n) :
    m.bucket n ≠ [] := by
  unfold getLatestCachedNonce getLatestCachedTx at h
  cases hl : m.getCachedTxsWrapper none none with
  | nil =>
      rw [hl] at h
      simp only [List.head?_nil] at h
      omega
  | cons t ts =>
      rw [hl] at h
      simp only [List.head?_cons] at h
      have ht : t ∈ below m.bucket m.fetchedTxs.cached.length := by
        rw [← getCachedTxsWrapper_all, hl]
        simp
      obtain ⟨-, -, hb⟩ := m.graded_bucket.mem_between.mp ht
      obtain rfl : t.nonce = n := by omega
      exact List.ne_nil_of_mem hb

/-- With more cached the latest cached nonce is not smaller. -/
lemma latest_mono {m m' : TxManager} (hm : ∀ n, m.bucket n ≠ [] → m'.bucket n ≠ []) :
    m.getLatestCachedNonce ≤ m'.getLatestCachedNonce := by
  have hlow := m.neg_one_le_getLatestCachedNonce
  by_cases hneg : m.getLatestCachedNonce = -1
  · rw [hneg]
    exact m'.neg_one_le_getLatestCachedNonce
  · have hcached := m.bucket_getLatestCachedNonce (n := m.getLatestCachedNonce.toNat) (by omega)
    have hle := m'.le_getLatestCachedNonce (hm _ hcached)
    omega

/-- The latest cached nonce is the largest nonce with a cached transaction. -/
lemma getLatestCachedNonce_eq (m : TxManager) {n : ℕ} (hn : m.bucket n ≠ [])
    (htop : ∀ k, n < k → m.bucket k = []) : m.getLatestCachedNonce = n := by
  have hle := m.le_getLatestCachedNonce hn
  have hge : m.getLatestCachedNonce ≤ n := by
    by_contra h
    have hL := m.bucket_getLatestCachedNonce (n := m.getLatestCachedNonce.toNat) (by omega)
    exact hL (htop _ (by omega))
  omega

lemma getLatestCachedNonce_eq_neg_one (m : TxManager) (h : ∀ k, m.bucket k = []) :
    m.getLatestCachedNonce = -1 := by
  have := m.neg_one_le_getLatestCachedNonce
  by_contra hne
  exact m.bucket_getLatestCachedNonce (n := m.getLatestCachedNonce.toNat) (by omega) (h _)

end TxManager

end ElusivSdk
