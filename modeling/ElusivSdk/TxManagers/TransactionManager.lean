import ElusivSdk.TxManagers.AbstractTxManager

/-!
# Queries on a transaction manager

The public queries, each a loop over batches of `getTxs` or of `fetchTxs`.

* `fetchTxs` — the newest transactions of a token, `count` of them, completed to whole nonces.  It
  marks all but the first as confirmed.
* `getActiveTxs` — the transactions whose commitments are not spent: the newest `SEND_ARITY`
  transactions up to the latest send, and the topups on the nonce of that send.
* `getMostRecentTx` — a transaction of the newest nonce.

`History.fetchTxs` is the loop of `fetchTxs` with the chain read directly.  **`fetchTxs_spec`**: every
coherent manager returns what that loop returns; **`History.Gapless.fetchTxs_eq`**: on a gapless chain
that is the matching transactions from the newest down, cut to whole nonces.
-/

namespace ElusivSdk

open Descending Program

/-! ## The queries -/

/-- The lowest nonce of a batch; -1, for "everything was fetched", when there is none. -/
def getLowestFetchedNonceFromBatch (batch : List ElusivTransaction) : ℤ :=
  let lowest := batch.foldl (fun lowest curr => min lowest curr.nonce) MAX_UINT32
  if lowest = MAX_UINT32 then -1 else lowest

/-- The local variables of the loop of `fetchTxs`. -/
structure FetchLoop where
  res : List (Option ElusivTransaction)
  fetchedCount : ℕ
  beforeInner : ℤ

namespace FetchLoop

def start (before : Option ℤ) : FetchLoop :=
  { res := [], fetchedCount := 0, beforeInner := before.getD MAX_SAFE_INTEGER }

/-- The condition of the loop. -/
def continues (count : ℕ) (loop : FetchLoop) : Bool :=
  decide (0 ≤ loop.beforeInner) && decide (loop.fetchedCount < count)

/-- What a round does with the batch it fetched: other tokens leave `undefined` behind. -/
def addBatch (tokenType : Option TokenType) (loop : FetchLoop) (batch : List ElusivTransaction) :
    FetchLoop :=
  { res := loop.res ++ batch.map fun tx => if tx.hasToken tokenType then some tx else none
    fetchedCount := loop.fetchedCount + (batch.filter (·.hasToken tokenType)).length
    beforeInner := getLowestFetchedNonceFromBatch batch }

end FetchLoop

namespace TxManager

/-- Set the status of every given transaction to `CONFIRMED`. -/
def setAllConfirmed (m : TxManager) (txs : List ElusivTransaction) : TxManager :=
  txs.foldl setConfirmed m

end TxManager

section Methods

variable (getTxsFromNonces : List (ℕ × Bool) → Except Failure (List ElusivTransaction))

def fetchTxsRound (fuel count : ℕ) (tokenType : Option TokenType) (loop : FetchLoop) :
    ManagerM FetchLoop := do
  let batch ← getTxs getTxsFromNonces fuel (some count) (some loop.beforeInner)
  pure (loop.addBatch tokenType batch)

def fetchTxs (fuel count : ℕ) (tokenType : Option TokenType) (before : Option ℤ) :
    ManagerM (List ElusivTransaction) := do
  let loop ← whileLoop Failure.outOfFuel (FetchLoop.continues count)
    (fetchTxsRound getTxsFromNonces fuel count tokenType) fuel (FetchLoop.start before)
  let txs ← lift (getTxsInNonceRange loop.res (some count))
  -- all but the most recent one must be confirmed, lest that one could not have been sent
  modify fun m => m.setAllConfirmed txs.tail
  pure txs

def getMostRecentTx (fuel : ℕ) : ManagerM (Option ElusivTransaction) := do
  let txs ← getTxs getTxsFromNonces fuel (some 1)
  pure txs.head?

/-- The topups on the nonce of the send `curr` that are not among `res` yet.  Signatures are compared
as objects; there is one signature object for each signature. -/
def sameNonceTopupsNotIncluded (mostRecentTxs res : List ElusivTransaction)
    (curr : ElusivTransaction) : List ElusivTransaction :=
  mostRecentTxs.filter fun tx => tx.txType == .TOPUP && tx.nonce == curr.nonce &&
    (res.find? fun resTx => tx.signature.isSome && resTx.signature == tx.signature).isNone

/-- The loop of `getActiveTxs`: `seen` are the transactions before the current one. -/
def activeTxsFrom (mostRecentTxs : List ElusivTransaction) :
    List ElusivTransaction → List ElusivTransaction → List ElusivTransaction
  | _, [] => mostRecentTxs
  | seen, curr :: rest =>
      match curr.txType with
      | .SEND =>
          let res := seen ++ [curr]
          res ++ sameNonceTopupsNotIncluded mostRecentTxs res curr
      | .TOPUP => activeTxsFrom mostRecentTxs (seen ++ [curr]) rest

/-- What `getActiveTxs` selects from the transactions it fetched. -/
def selectActiveTxs (mostRecentTxs : List ElusivTransaction) : List ElusivTransaction :=
  activeTxsFrom mostRecentTxs [] mostRecentTxs

def getActiveTxs (fuel : ℕ) (tokenType : TokenType) (beforeSend : Option ElusivTransaction) :
    ManagerM (List ElusivTransaction) := do
  let mostRecentTxs ← fetchTxs getTxsFromNonces fuel SEND_ARITY (some tokenType)
    (beforeSend.map fun send => (send.nonce : ℤ))
  match mostRecentTxs with
  | [] => pure []
  | newest :: _ =>
      modify fun m => m.setConfirmed newest
      pure (selectActiveTxs mostRecentTxs)

end Methods

/-- The loop of `getActiveTxs` ends at the newest send: `front` are the topups before it. -/
structure NewestSend (txs front : List ElusivTransaction) (send : ElusivTransaction)
    (back : List ElusivTransaction) : Prop where
  eq : txs = front ++ send :: back
  topups : ∀ tx ∈ front, tx.txType = .TOPUP
  send : send.txType = .SEND

lemma activeTxsFrom_cases {txs : List ElusivTransaction} :
    ∀ {rest seen : List ElusivTransaction}, txs = seen ++ rest →
      (∀ tx ∈ seen, tx.txType = .TOPUP) →
      ((∀ tx ∈ txs, tx.txType = .TOPUP) ∧ activeTxsFrom txs seen rest = txs) ∨
      ∃ front send back, NewestSend txs front send back ∧
        activeTxsFrom txs seen rest
          = (front ++ [send]) ++ sameNonceTopupsNotIncluded txs (front ++ [send]) send
  | [], seen, heq, hseen => by
      rw [List.append_nil] at heq
      exact Or.inl ⟨heq ▸ hseen, rfl⟩
  | curr :: rest, seen, heq, hseen => by
      rw [activeTxsFrom]
      cases htype : curr.txType with
      | SEND => exact Or.inr ⟨seen, curr, rest, ⟨heq, hseen, htype⟩, rfl⟩
      | TOPUP =>
          refine activeTxsFrom_cases (by rw [heq, List.append_assoc]; rfl) fun tx htx => ?_
          rcases List.mem_append.mp htx with htx | htx
          · exact hseen tx htx
          · rw [List.mem_singleton.mp htx, htype]

/-- **What `getActiveTxs` selects**: everything when there is no send, otherwise the transactions up
to the newest send and the topups on its nonce. -/
lemma selectActiveTxs_cases (txs : List ElusivTransaction) :
    ((∀ tx ∈ txs, tx.txType = .TOPUP) ∧ selectActiveTxs txs = txs) ∨
    ∃ front send back, NewestSend txs front send back ∧
      selectActiveTxs txs
        = (front ++ [send]) ++ sameNonceTopupsNotIncluded txs (front ++ [send]) send :=
  activeTxsFrom_cases rfl fun _ htx => absurd htx List.not_mem_nil

lemma NewestSend.sublist {txs front back : List ElusivTransaction} {send : ElusivTransaction}
    (hs : NewestSend txs front send back) : (front ++ [send]).Sublist txs := by
  have heq : txs = (front ++ [send]) ++ back := by rw [hs.eq, List.append_cons]
  rw [heq]
  exact List.sublist_append_left _ back

/-- The selection keeps nothing that was not fetched. -/
lemma selectActiveTxs_subset (txs : List ElusivTransaction) : selectActiveTxs txs ⊆ txs := by
  rcases selectActiveTxs_cases txs with ⟨-, heq⟩ | ⟨front, send, back, hs, heq⟩
  · rw [heq]
    exact List.Subset.refl txs
  · rw [heq]
    exact List.append_subset.mpr ⟨hs.sublist.subset, fun x hx => List.mem_of_mem_filter hx⟩

/-! ## The loop over the chain itself -/

namespace History

/-- One round of the loop of `fetchTxs` with the chain read directly. -/
def fetchRound (h : History) (count : ℕ) (tokenType : Option TokenType) (loop : FetchLoop) :
    FetchLoop :=
  loop.addBatch tokenType (h.read count (some loop.beforeInner))

/-- The loop ends after at most this many rounds. -/
def fetchVariant (h : History) (loop : FetchLoop) : ℕ :=
  (min (loop.beforeInner + 1) (h.length + 1)).toNat

def fetchLoop (h : History) (count : ℕ) (tokenType : Option TokenType) (before : Option ℤ) :
    FetchLoop :=
  iterateWhile (FetchLoop.continues count) (h.fetchRound count tokenType) (h.length + 2)
    (FetchLoop.start before)

/-- What `fetchTxs` finds when it reads the chain directly. -/
def fetchTxs (h : History) (count : ℕ) (tokenType : Option TokenType) (before : Option ℤ) :
    List ElusivTransaction :=
  takeGroups ElusivTransaction.nonce count ((h.fetchLoop count tokenType before).res.filterMap id)

end History

/-! ## The lowest nonce of a batch -/

lemma foldl_min_nonce_le (batch : List ElusivTransaction) (a : ℕ) :
    batch.foldl (fun lowest curr => min lowest curr.nonce) a ≤ a := by
  induction batch generalizing a with
  | nil => exact Nat.le_refl a
  | cons tx batch ih => exact Nat.le_trans (ih _) (Nat.min_le_left _ _)

lemma foldl_min_nonce_eq {batch : List ElusivTransaction} {a m : ℕ} (hm : m ≤ a)
    (hle : ∀ tx ∈ batch, m ≤ tx.nonce) (hex : a = m ∨ ∃ tx ∈ batch, tx.nonce = m) :
    batch.foldl (fun lowest curr => min lowest curr.nonce) a = m := by
  induction batch generalizing a with
  | nil =>
      rcases hex with rfl | ⟨tx, htx, -⟩
      · rfl
      · simp at htx
  | cons tx batch ih =>
      have htx := hle tx (by simp)
      refine ih (a := min a tx.nonce) (by omega) (fun t ht => hle t (List.mem_cons_of_mem tx ht)) ?_
      rcases hex with rfl | ⟨t, ht, rfl⟩
      · left; omega
      · rcases List.mem_cons.mp ht with rfl | ht
        · left; omega
        · exact Or.inr ⟨t, ht, rfl⟩

/-- A batch read from a history ends at its lowest nonce. -/
lemma getLowestFetchedNonceFromBatch_between {f : ℕ → List ElusivTransaction}
    (hf : Graded ElusivTransaction.nonce f) {m hi : ℕ} (hm : m < hi) (hne : f m ≠ [])
    (hmax : m < MAX_UINT32) : getLowestFetchedNonceFromBatch (between f m hi) = m := by
  obtain ⟨tx, htx⟩ := List.exists_mem_of_ne_nil _ hne
  have hnonce := hf m tx htx
  have hlow : (between f m hi).foldl (fun lowest curr => min lowest curr.nonce) MAX_UINT32 = m :=
    foldl_min_nonce_eq (Nat.le_of_lt hmax) (fun t ht => (hf.mem_between.mp ht).1)
      (Or.inr ⟨tx, mem_between.mpr ⟨m, Nat.le_refl m, hm, htx⟩, hnonce⟩)
  simp only [getLowestFetchedNonceFromBatch, hlow]
  rw [if_neg (by omega)]

@[simp]
lemma getLowestFetchedNonceFromBatch_nil : getLowestFetchedNonceFromBatch [] = -1 := rfl

/-- The lowest nonce of a batch is below every bound of the batch. -/
lemma getLowestFetchedNonceFromBatch_lt {batch : List ElusivTransaction} {b : ℕ}
    (h : ∀ tx ∈ batch, tx.nonce < b) : getLowestFetchedNonceFromBatch batch < b := by
  unfold getLowestFetchedNonceFromBatch
  simp only
  split_ifs with hmax
  · omega
  · cases batch with
    | nil => exact absurd rfl hmax
    | cons tx batch =>
        have htx := h tx (by simp)
        have hle := foldl_min_nonce_le batch (min MAX_UINT32 tx.nonce)
        simp only [List.foldl_cons]
        omega

/-! ## `fetchTxs` reads the chain -/

namespace TxManager

@[simp]
lemma setAllConfirmed_bucket (m : TxManager) (txs : List ElusivTransaction) :
    (m.setAllConfirmed txs).bucket = m.bucket := by
  induction txs generalizing m with
  | nil => rfl
  | cons tx txs ih => exact ih _

lemma mem_setAllConfirmed {m : TxManager} {txs : List ElusivTransaction} {k : ℕ × Bytes} :
    k ∈ (m.setAllConfirmed txs).confirmed ↔ k ∈ m.confirmed ∨ ∃ tx ∈ txs, tx.key = k := by
  induction txs generalizing m with
  | nil => simp [setAllConfirmed]
  | cons tx txs ih =>
      have hstep : m.setAllConfirmed (tx :: txs) = (m.setConfirmed tx).setAllConfirmed txs := rfl
      rw [hstep, ih]
      simp only [setConfirmed, List.mem_cons, exists_eq_or_imp]
      tauto

end TxManager

lemma Coherent.of_bucket_eq {h : History} {m m' : TxManager} (hc : Coherent h m)
    (hb : m'.bucket = m.bucket) : Coherent h m' := by
  intro n hn
  rw [hb] at hn ⊢
  exact hc n hn

namespace History

variable {h : History}

lemma nonce_lt_top_of_mem_read (count : ℕ) (before : Option ℤ) {tx : ElusivTransaction}
    (htx : tx ∈ h.read count before) : tx.nonce < h.top before := by
  unfold read at htx
  cases count with
  | zero => simp at htx
  | succ n =>
      by_cases hnil : between h.bucket (h.top before - (n + 1)) (h.top before) = []
      · rw [hnil, takeGroups_nil] at htx
        exact absurd htx List.not_mem_nil
      · obtain ⟨m, -, -, -, heq⟩ := h.graded_bucket.takeGroups_between (Nat.succ_pos n) hnil
        rw [heq] at htx
        exact (h.graded_bucket.mem_between.mp htx).2.1

/-- Every round of the loop lowers the bound. -/
lemma fetchRound_variant {count : ℕ} {tokenType : Option TokenType} (loop : FetchLoop)
    (hcont : loop.continues count = true) :
    h.fetchVariant (h.fetchRound count tokenType loop) < h.fetchVariant loop := by
  have hpos : 0 ≤ loop.beforeInner := by
    simp only [FetchLoop.continues, Bool.and_eq_true, decide_eq_true_eq] at hcont
    exact hcont.1
  have hlt := getLowestFetchedNonceFromBatch_lt fun tx htx =>
    h.nonce_lt_top_of_mem_read count (some loop.beforeInner) htx
  have htop : (h.top (some loop.beforeInner) : ℤ) = min (h.length : ℤ) loop.beforeInner := by
    simp only [top, Option.map_some, Option.getD_some]
    omega
  simp only [fetchVariant, fetchRound, FetchLoop.addBatch]
  omega

end History

/-- What `fetchTxs` leaves of the manager: it fetched, and marked all but the first transaction it
returns. -/
def FetchedAndMarked (h : History) (m : TxManager) (txs : List ElusivTransaction) (m' : TxManager) :
    Prop :=
  ∃ m₁, Fetched h m m₁ ∧ m' = m₁.setAllConfirmed txs

lemma FetchedAndMarked.coherent {h : History} {m m' : TxManager} {txs : List ElusivTransaction}
    (hm : FetchedAndMarked h m txs m') : Coherent h m' := by
  obtain ⟨m₁, hf, rfl⟩ := hm
  exact hf.coherent.of_bucket_eq (m₁.setAllConfirmed_bucket txs)

/-- **`fetchTxs` on a coherent manager returns what the loop over the chain itself returns.** -/
theorem fetchTxs_spec {h : History} {m₀ : TxManager} (hc : Coherent h m₀)
    (hg : h.GapsBelow DEFAULT_FETCH_BATCH_SIZE) {fuel : ℕ}
    (hfuel : h.length + DEFAULT_FETCH_BATCH_SIZE + 3 ≤ fuel) (count : ℕ)
    (tokenType : Option TokenType) (before : Option ℤ) :
    Total (fun m => m = m₀) (fetchTxs h.fetcher fuel count tokenType before)
      fun txs m => txs = h.fetchTxs count tokenType before ∧
        FetchedAndMarked h m₀ txs.tail m := by
  have hvar : h.fetchVariant (FetchLoop.start before) < h.length + 2 := by
    simp only [History.fetchVariant]
    omega
  have hstep : DEFAULT_FETCH_BATCH_SIZE = 10 := rfl
  have hround : ∀ loop : FetchLoop, loop.continues count = true →
      Total (Fetched h m₀) (fetchTxsRound h.fetcher fuel count tokenType loop) fun loop' m =>
        loop' = h.fetchRound count tokenType loop ∧ Fetched h m₀ m := by
    intro loop hcont
    simp only [FetchLoop.continues, Bool.and_eq_true, decide_eq_true_eq] at hcont
    have hbefore : (some loop.beforeInner).all (0 ≤ ·) := by simpa using hcont.1
    refine Triple.of_forall fun m hm => ?_
    refine Triple.bind (getTxs_spec hm.coherent hg hfuel (by omega) (by decide) hbefore)
      fun batch => Triple.ret ?_
    rintro m' ⟨rfl, hf⟩
    exact ⟨rfl, hm.trans hf⟩
  have hloop : Total (Fetched h m₀) (whileLoop Failure.outOfFuel (FetchLoop.continues count)
      (fetchTxsRound h.fetcher fuel count tokenType) fuel (FetchLoop.start before)) fun loop m =>
        loop = iterateWhile (FetchLoop.continues count) (h.fetchRound count tokenType) fuel
          (FetchLoop.start before) ∧ Fetched h m₀ m :=
    Triple.loop_eq h.fetchRound_variant hround fuel _ (by omega)
  have hfuel_eq : iterateWhile (FetchLoop.continues count) (h.fetchRound count tokenType) fuel
      (FetchLoop.start before) = h.fetchLoop count tokenType before :=
    iterateWhile_eq h.fetchRound_variant _ _ _ (by omega) hvar
  rw [hfuel_eq] at hloop
  have hempty : count = 0 → (h.fetchLoop count tokenType before).res = [] := by
    rintro rfl
    simp [History.fetchLoop, iterateWhile, FetchLoop.continues, FetchLoop.start]
  rintro m rfl
  refine Triple.bind hloop (fun loop => ?_) m (Fetched.refl hc)
  refine Triple.bind (Q := fun txs m' => txs = h.fetchTxs count tokenType before ∧
    Fetched h m m') ?_ fun txs => ?_
  · rintro m' ⟨rfl, hm'⟩
    refine Triple.lift_ok (P := Fetched h m) (getTxsInNonceRange_eq ?_) (fun s hs => ⟨rfl, hs⟩)
      m' hm'
    rcases Nat.eq_zero_or_pos count with hz | hpos
    · right
      rw [hempty hz]
      rfl
    · exact Or.inl hpos
  · refine Triple.update_bind (Triple.ret ?_)
    rintro m'' ⟨m', ⟨rfl, hm'⟩, rfl⟩
    exact ⟨rfl, m', hm', rfl⟩

/-- The manager after `getActiveTxs` fetched `txs`: here the newest one is marked too. -/
def FetchedAndAllMarked (h : History) (m : TxManager) (txs : List ElusivTransaction)
    (m' : TxManager) : Prop :=
  ∃ m₁, Fetched h m m₁ ∧ m' = match txs with
    | [] => m₁
    | newest :: rest => (m₁.setAllConfirmed rest).setConfirmed newest

lemma FetchedAndAllMarked.coherent {h : History} {m m' : TxManager} {txs : List ElusivTransaction}
    (hm : FetchedAndAllMarked h m txs m') : Coherent h m' := by
  obtain ⟨m₁, hf, rfl⟩ := hm
  cases txs with
  | nil => exact hf.coherent
  | cons newest rest => exact hf.coherent.of_bucket_eq (m₁.setAllConfirmed_bucket rest)

theorem getActiveTxs_spec {h : History} {m₀ : TxManager} (hc : Coherent h m₀)
    (hg : h.GapsBelow DEFAULT_FETCH_BATCH_SIZE) {fuel : ℕ}
    (hfuel : h.length + DEFAULT_FETCH_BATCH_SIZE + 3 ≤ fuel) (tokenType : TokenType)
    (beforeSend : Option ElusivTransaction) :
    Total (fun m => m = m₀) (getActiveTxs h.fetcher fuel tokenType beforeSend) fun txs m =>
      let fetched := h.fetchTxs SEND_ARITY (some tokenType)
        (beforeSend.map fun send => (send.nonce : ℤ))
      txs = selectActiveTxs fetched ∧ FetchedAndAllMarked h m₀ fetched m := by
  refine Triple.bind (fetchTxs_spec hc hg hfuel SEND_ARITY (some tokenType) _) fun txs => ?_
  cases txs with
  | nil =>
      refine Triple.ret ?_
      rintro m ⟨heq, m₁, hf, hm⟩
      rw [← heq]
      exact ⟨rfl, m₁, hf, hm⟩
  | cons newest rest =>
      refine Triple.update_bind (Triple.ret ?_)
      rintro _ ⟨_, ⟨heq, m₁, hf, rfl⟩, rfl⟩
      rw [← heq]
      exact ⟨rfl, m₁, hf, rfl⟩

theorem getMostRecentTx_spec {h : History} {m₀ : TxManager} (hc : Coherent h m₀)
    (hg : h.GapsBelow DEFAULT_FETCH_BATCH_SIZE) {fuel : ℕ}
    (hfuel : h.length + DEFAULT_FETCH_BATCH_SIZE + 3 ≤ fuel) :
    Total (fun m => m = m₀) (getMostRecentTx h.fetcher fuel) fun tx m =>
      tx = (h.read 1 none).head? ∧ Fetched h m₀ m := by
  refine Triple.bind (getTxs_spec hc hg hfuel Nat.one_pos (by decide) rfl) fun txs =>
    Triple.ret ?_
  rintro m ⟨rfl, hf⟩
  exact ⟨rfl, hf⟩

/-! ## The loop on a gapless chain -/

namespace History

variable {h : History}

/-- The transactions of a token on a nonce. -/
def tokenBucket (h : History) (tokenType : Option TokenType) (n : ℕ) : List ElusivTransaction :=
  (h.bucket n).filter fun tx => tx.hasToken tokenType

lemma graded_tokenBucket (h : History) (tokenType : Option TokenType) :
    Graded ElusivTransaction.nonce (h.tokenBucket tokenType) :=
  h.graded_bucket.filter _

lemma filter_between_bucket (h : History) (tokenType : Option TokenType) (lo hi : ℕ) :
    (between h.bucket lo hi).filter (fun tx => tx.hasToken tokenType)
      = between (h.tokenBucket tokenType) lo hi :=
  filter_between h.bucket _ lo hi

/-- The loop of `fetchTxs` after some rounds: the matching transactions from `lo` up were found, and
the next round starts at `lo`. -/
structure FetchInv (h : History) (tokenType : Option TokenType) (hi : ℕ) (loop : FetchLoop) (lo : ℕ) :
    Prop where
  le : lo ≤ hi
  res_eq : loop.res.filterMap id = between (h.tokenBucket tokenType) lo hi
  count_eq : loop.fetchedCount = (between (h.tokenBucket tokenType) lo hi).length
  finished : loop.beforeInner < 0 → lo = 0
  bound : 0 ≤ loop.beforeInner → h.top (some loop.beforeInner) = lo

lemma filterMap_mark (p : ElusivTransaction → Bool) (l : List ElusivTransaction) :
    (l.map fun tx => if p tx then some tx else none).filterMap id = l.filter p := by
  induction l with
  | nil => rfl
  | cons tx l ih =>
      rw [List.map_cons, List.filterMap_cons, ih]
      cases hp : p tx <;> simp [hp]

/-- The next batch ends at some nonce `m`, or nothing is left. -/
lemma Gapless.read_cases (hg : h.Gapless) {count : ℕ} (hc : 0 < count) (before : Option ℤ) :
    (h.top before = 0 ∧ h.read count before = []) ∨
      ∃ m, m < h.top before ∧ h.bucket m ≠ [] ∧
        h.read count before = between h.bucket m (h.top before) := by
  rw [hg.read_eq]
  rcases Nat.eq_zero_or_pos (h.top before) with hz | hpos
  · left
    rw [hz]
    exact ⟨rfl, by simp⟩
  · right
    have hne : below h.bucket (h.top before) ≠ [] := by
      have hlt := h.top_le before
      obtain ⟨tx, htx⟩ := List.exists_mem_of_ne_nil _
        (hg.bucket_ne_nil (n := h.top before - 1) (by omega))
      exact List.ne_nil_of_mem (mem_between.mpr ⟨_, Nat.zero_le _, by omega, htx⟩)
    obtain ⟨m, -, hm, ⟨tx, htx, -⟩, heq⟩ := h.graded_bucket.takeGroups_between hc hne
    exact ⟨m, hm, List.ne_nil_of_mem htx, heq⟩

/-- One round of the loop. -/
lemma FetchInv.round (hg : h.Gapless) (hlen : h.length ≤ MAX_UINT32) {count : ℕ}
    {tokenType : Option TokenType} {hi lo : ℕ} {loop : FetchLoop}
    (hinv : FetchInv h tokenType hi loop lo) (hhi : hi ≤ h.length)
    (hcont : loop.continues count = true) :
    ∃ lo', FetchInv h tokenType hi (h.fetchRound count tokenType loop) lo' := by
  simp only [FetchLoop.continues, Bool.and_eq_true, decide_eq_true_eq] at hcont
  obtain ⟨hpos, hcount⟩ := hcont
  have hbound := hinv.bound hpos
  have hle := hinv.le
  have hc : 0 < count := by omega
  rcases hg.read_cases hc (some loop.beforeInner) with ⟨hz, hnil⟩ | ⟨m, hm, hne, hread⟩
  · refine ⟨lo, hinv.le, ?_, ?_, fun _ => by omega, fun h0 => ?_⟩
    · simp only [fetchRound, FetchLoop.addBatch, hnil, List.map_nil, List.append_nil]
      exact hinv.res_eq
    · simp only [fetchRound, FetchLoop.addBatch, hnil, List.filter_nil, List.length_nil]
      exact hinv.count_eq
    · simp [fetchRound, FetchLoop.addBatch, hnil] at h0
  · rw [hbound] at hm hread
    have hsplit := between_append (f := h.tokenBucket tokenType) (Nat.le_of_lt hm) hinv.le
    have hlow : getLowestFetchedNonceFromBatch (between h.bucket m lo) = m :=
      getLowestFetchedNonceFromBatch_between h.graded_bucket hm hne (by omega)
    refine ⟨m, by omega, ?_, ?_, fun h0 => ?_, fun _ => ?_⟩
    · simp only [fetchRound, FetchLoop.addBatch, hread]
      rw [List.filterMap_append, hinv.res_eq, filterMap_mark, filter_between_bucket, hsplit]
    · simp only [fetchRound, FetchLoop.addBatch, hread]
      rw [hinv.count_eq, filter_between_bucket, hsplit, List.length_append]
    · simp only [fetchRound, FetchLoop.addBatch, hread, hlow] at h0
      omega
    · simp only [fetchRound, FetchLoop.addBatch, hread, hlow, top, Option.map_some,
        Option.getD_some]
      omega

/-- **`fetchTxs` returns the newest matching transactions**: those with a nonce below `before`, from
the newest down, cut after `count` of them to whole nonces. -/
theorem Gapless.fetchTxs_eq (hg : h.Gapless) (hlen : h.length ≤ MAX_UINT32) (count : ℕ)
    (tokenType : Option TokenType) (before : Option ℤ) :
    h.fetchTxs count tokenType before = takeGroups ElusivTransaction.nonce count
      (below (h.tokenBucket tokenType) (h.top before)) := by
  have hvar : h.fetchVariant (FetchLoop.start before) < h.length + 2 := by
    simp only [fetchVariant]
    omega
  have hstart : FetchInv h tokenType (h.top before) (FetchLoop.start before) (h.top before) := by
    refine ⟨Nat.le_refl _, by simp [FetchLoop.start], by simp [FetchLoop.start], fun hneg => ?_,
      fun hpos => ?_⟩
    · cases before with
      | none =>
          simp only [FetchLoop.start, Option.getD_none] at hneg
          omega
      | some b =>
          simp only [FetchLoop.start, Option.getD_some] at hneg
          simp only [top, Option.map_some, Option.getD_some]
          omega
    · cases before with
      | none =>
          have hmax : MAX_UINT32 ≤ MAX_SAFE_INTEGER := by decide
          simp only [FetchLoop.start, top, Option.map_some, Option.getD_some, Option.map_none,
            Option.getD_none]
          omega
      | some b => rfl
  obtain ⟨⟨lo, hinv⟩, hend⟩ := iterateWhile_inv (h.fetchRound_variant)
    (fun loop => ∃ lo, FetchInv h tokenType (h.top before) loop lo)
    (fun loop hcont hex => hex.elim fun lo hinv => hinv.round hg hlen (h.top_le before) hcont)
    (h.length + 2) (FetchLoop.start before) hvar ⟨_, hstart⟩
  rw [fetchTxs, fetchLoop, hinv.res_eq]
  simp only [FetchLoop.continues, Bool.and_eq_false_iff, decide_eq_false_iff_not] at hend
  rcases hend with hneg | hcount
  · rw [hinv.finished (by omega)]
  · refine ((h.graded_tokenBucket tokenType).takeGroups_below hinv.le ?_).symm
    rw [← hinv.count_eq]
    omega

/-- A non-empty answer is everything between two nonces; an empty one means that nothing matches. -/
lemma Gapless.fetchTxs_cases (hg : h.Gapless) (hlen : h.length ≤ MAX_UINT32) {count : ℕ}
    (hc : 0 < count) (tokenType : Option TokenType) (before : Option ℤ) :
    (h.fetchTxs count tokenType before = [] ∧
      below (h.tokenBucket tokenType) (h.top before) = []) ∨
    ∃ m, m < h.top before ∧ h.tokenBucket tokenType m ≠ [] ∧
      h.fetchTxs count tokenType before = between (h.tokenBucket tokenType) m (h.top before) := by
  rw [hg.fetchTxs_eq hlen]
  by_cases hnil : below (h.tokenBucket tokenType) (h.top before) = []
  · left
    rw [hnil, takeGroups_nil]
    exact ⟨rfl, rfl⟩
  · right
    obtain ⟨m, -, hm, ⟨tx, htx, -⟩, heq⟩ :=
      (h.graded_tokenBucket tokenType).takeGroups_between hc hnil
    exact ⟨m, hm, List.ne_nil_of_mem htx, heq⟩

end History

end ElusivSdk
