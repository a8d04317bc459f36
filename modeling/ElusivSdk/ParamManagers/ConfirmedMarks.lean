import ElusivSdk.ParamManagers.CommitmentManager
import ElusivSdk.TxManagers.FetchSelection

/-!
# Transactions marked as confirmed

`fetchTxs` marks all but the first transaction it returns, because a newer one could not have been sent
before; `getActiveTxs` marks the first one too.

* `MarksSound` — a marked transaction is inserted in the tree, or a larger nonce is in use.
* `onNewest` — the transactions of the newest nonce that a call can return.  They are all that a call
  can mark too early.
* **`fetchTxs_marks`**, **`getActiveTxs_marks`**, **`getActiveCommitments_marks`** — the calls keep
  `MarksSound` when the transactions of the newest nonce that they mark are inserted.
-/

namespace ElusivSdk

open Descending Program

/-- A marked transaction is inserted, or a larger nonce is in use. -/
structure MarksSound (h : History) (inserted : ElusivTransaction → Bool) (m : TxManager) : Prop where
  lt_length : ∀ n, m.bucket n ≠ [] → n < h.length
  not_confirmed : ∀ n, ∀ tx ∈ m.bucket n, tx.transactionStatus ≠ some .CONFIRMED
  cached : ∀ k ∈ m.confirmed, m.bucket k.1 ≠ []
  marks : ∀ n, ∀ tx ∈ m.bucket n, tx.key ∈ m.confirmed → inserted tx = true ∨ n + 1 < h.length

/-- The transactions of the newest nonce that a call can return. -/
def History.onNewest (h : History) (m : TxManager) (tokenType : Option TokenType)
    (before : Option ℤ) : List ElusivTransaction :=
  if before.all fun before => (h.length : ℤ) - 1 < before
  then h.tokenSeenBy m tokenType (h.length - 1) else []

section Marks

variable {h : History} {inserted : ElusivTransaction → Bool} {m m' : TxManager}

lemma marksSound_new (h : History) (inserted : ElusivTransaction → Bool) :
    MarksSound h inserted .new where
  lt_length n hn := absurd (TxManager.new_bucket n) hn
  not_confirmed n tx htx := by
    rw [TxManager.new_bucket] at htx
    exact absurd htx List.not_mem_nil
  cached k hk := absurd hk List.not_mem_nil
  marks n tx htx := by
    rw [TxManager.new_bucket] at htx
    exact absurd htx List.not_mem_nil

namespace MarksSound

lemma looked (hm : MarksSound h inserted m) (hl : Looked h m m') : MarksSound h inserted m' where
  lt_length n hn := by
    rcases hl.bucket_eq n with heq | ⟨-, hfull⟩
    · exact hm.lt_length n (heq ▸ hn)
    · exact h.lt_length_of_bucket_ne_nil (hfull ▸ hn)
  not_confirmed n tx htx := by
    rcases hl.bucket_eq n with heq | ⟨-, hfull⟩
    · exact hm.not_confirmed n tx (heq ▸ htx)
    · exact h.not_confirmed n tx (h.bucket_subset n (hfull ▸ htx))
  cached k hk := by
    rw [hl.confirmed] at hk
    rw [hl.bucket_of_ne_nil (hm.cached k hk)]
    exact hm.cached k hk
  marks n tx htx hk := by
    rw [hl.confirmed] at hk
    have hnonce : tx.key.1 = n := m'.graded_bucket n tx htx
    have hne := hm.cached tx.key hk
    rw [hnonce] at hne
    rw [hl.bucket_of_ne_nil hne] at htx
    exact hm.marks n tx htx hk

/-- Marking transactions of which that is known. -/
lemma setAllConfirmed (hm : MarksSound h inserted m) (txs : List ElusivTransaction)
    (htxs : ∀ tx ∈ txs, tx ∈ m.bucket tx.nonce ∧ (inserted tx = true ∨ tx.nonce + 1 < h.length)) :
    MarksSound h inserted (m.setAllConfirmed txs) where
  lt_length n hn := hm.lt_length n (by rwa [TxManager.setAllConfirmed_bucket] at hn)
  not_confirmed n tx htx := hm.not_confirmed n tx (by rwa [TxManager.setAllConfirmed_bucket] at htx)
  cached k hk := by
    rw [TxManager.setAllConfirmed_bucket]
    rcases TxManager.mem_setAllConfirmed.mp hk with hk | ⟨tx, htx, rfl⟩
    · exact hm.cached k hk
    · exact List.ne_nil_of_mem (htxs tx htx).1
  marks n tx htx hk := by
    rw [TxManager.setAllConfirmed_bucket] at htx
    rcases TxManager.mem_setAllConfirmed.mp hk with hk | ⟨tx', htx', hkey⟩
    · exact hm.marks n tx htx hk
    · -- the marked object is `tx` itself
      have hnonce : tx'.nonce = n := (congrArg Prod.fst hkey).trans (m.graded_bucket n tx htx)
      obtain ⟨hmem, hsound⟩ := htxs tx' htx'
      rw [hnonce] at hmem hsound
      rwa [m.eq_of_mem_bucket hmem htx hkey] at hsound

lemma tokenSeenBy_eq_nil (hm : MarksSound h inserted m) (tokenType : Option TokenType) {n : ℕ}
    (hn : h.length ≤ n) : h.tokenSeenBy m tokenType n = [] := by
  have hnil : m.bucket n = [] := by
    by_contra hne
    have := hm.lt_length n hne
    omega
  rw [History.tokenSeenBy, History.seenBy, if_pos hnil, h.bucket_of_length_le hn, List.filter_nil]

/-- A call that selects a transaction of the newest nonce can return that nonce. -/
lemma onNewest_eq {tokenType : Option TokenType} {before : Option ℤ} {n : ℕ} (hn : n + 1 = h.length)
    (hbefore : n < (before.getD MAX_SAFE_INTEGER).toNat) :
    h.onNewest m tokenType before = h.tokenSeenBy m tokenType n := by
  have hpred : h.length - 1 = n := by omega
  rw [History.onNewest, if_pos, hpred]
  cases before with
  | none => rfl
  | some b =>
      simp only [Option.getD_some] at hbefore
      simp only [Option.all_some, decide_eq_true_eq]
      omega

/-- What a call selects has smaller nonces than the newest, or it is on the newest. -/
lemma selected_newest (hm : MarksSound h inserted m) {count : ℕ} {tokenType : Option TokenType}
    {before : Option ℤ} {txs : List ElusivTransaction}
    (hsel : Selected h m count tokenType before txs m') :
    (∀ tx ∈ txs, tx.nonce + 1 < h.length ∨ tx ∈ h.onNewest m tokenType before) ∧
      ∀ tx ∈ txs.tail, tx.nonce + 1 < h.length ∨ tx ∈ (h.onNewest m tokenType before).dropLast := by
  have hgraded := h.graded_tokenSeenBy m tokenType
  have hlt : ∀ tx ∈ txs, tx.nonce < h.length := fun tx htx =>
    (hm.looked hsel.looked).lt_length _ (List.ne_nil_of_mem (hsel.cached tx htx))
  have hmem : ∀ tx ∈ txs, tx.nonce < (before.getD MAX_SAFE_INTEGER).toNat ∧
      tx ∈ h.tokenSeenBy m tokenType tx.nonce := fun tx htx =>
    (hgraded.mem_between.mp (hsel.sublist.subset htx)).2
  refine ⟨fun tx htx => ?_, fun tx htx => ?_⟩
  · obtain ⟨hbound, hin⟩ := hmem tx htx
    refine (Nat.lt_or_ge (tx.nonce + 1) h.length).imp_right fun hn => ?_
    have := hlt tx htx
    rw [onNewest_eq (by omega) hbound]
    exact hin
  · obtain ⟨hbound, hin⟩ := hmem tx (List.mem_of_mem_tail htx)
    refine (Nat.lt_or_ge (tx.nonce + 1) h.length).imp_right fun hn => ?_
    have hlen := hlt tx (List.mem_of_mem_tail htx)
    rw [onNewest_eq (by omega) hbound]
    -- the selection starts on the newest nonce, and its first transaction is not in the tail
    have hsplit : below (h.tokenSeenBy m tokenType) (before.getD MAX_SAFE_INTEGER).toNat
        = (h.tokenSeenBy m tokenType tx.nonce).reverse
          ++ below (h.tokenSeenBy m tokenType) tx.nonce := by
      rw [below, between_append (f := h.tokenSeenBy m tokenType) (Nat.zero_le (tx.nonce + 1)) hbound,
        between_eq_nil fun n hn _ => hm.tokenSeenBy_eq_nil tokenType (by omega), List.nil_append,
        between_succ (Nat.zero_le _)]
    have hne : (h.tokenSeenBy m tokenType tx.nonce).reverse ≠ [] := by
      simpa using List.ne_nil_of_mem hin
    have htail := hsel.sublist.tail.subset htx
    rw [hsplit, List.tail_append_of_ne_nil hne, List.tail_reverse, List.mem_append,
      List.mem_reverse] at htail
    rcases htail with htail | htail
    · exact htail
    · exact absurd (hgraded.mem_between.mp htail).2.1 (lt_irrefl _)

end MarksSound

end Marks

/-! ## The calls -/

section Specs

variable {h : History} {inserted : ElusivTransaction → Bool} {m₀ : TxManager}

/-- **`fetchTxs` keeps the marks sound**, when what it can return of the newest nonce, but the first, is
inserted. -/
theorem fetchTxs_marks (hm : MarksSound h inserted m₀) (fuel : ℕ) {count : ℕ}
    {tokenType : Option TokenType} {before : Option ℤ}
    (hnewest : count = 0 ∨
      ∀ tx ∈ (h.onNewest m₀ tokenType before).dropLast, inserted tx = true) :
    Triple (fun m => m = m₀) (fetchTxs h.fetcher fuel count tokenType before)
      (fun txs m => MarksSound h inserted m ∧ ∃ m₁, Selected h m₀ count tokenType before txs m₁ ∧
        m = m₁.setAllConfirmed txs.tail) (fun _ => MarksSound h inserted) := by
  refine (fetchTxs_selected fuel count tokenType before).mono (fun _ hs => hs) ?_
    fun _ _ hl => hm.looked hl
  rintro txs _ ⟨m₁, hsel, rfl⟩
  refine ⟨(hm.looked hsel.looked).setAllConfirmed _ fun tx htx => ?_, m₁, hsel, rfl⟩
  have hmem := List.mem_of_mem_tail htx
  refine ⟨hsel.cached tx hmem, ?_⟩
  rcases hnewest with hzero | hnewest
  · exact absurd (hsel.count_pos (List.ne_nil_of_mem hmem)) (by omega)
  · rcases (hm.selected_newest hsel).2 tx htx with hlt | hin
    · exact Or.inr hlt
    · exact Or.inl (hnewest tx hin)

/-- **`getActiveTxs` keeps the marks sound**, when all it can return of the newest nonce is inserted. -/
theorem getActiveTxs_marks (hm : MarksSound h inserted m₀) (fuel : ℕ) {tokenType : TokenType}
    {beforeSend : Option ElusivTransaction}
    (hnewest : ∀ tx ∈ h.onNewest m₀ (some tokenType) (beforeSend.map fun send => (send.nonce : ℤ)),
      inserted tx = true) :
    Triple (fun m => m = m₀) (getActiveTxs h.fetcher fuel tokenType beforeSend)
      (fun txs m => MarksSound h inserted m ∧ ∀ tx ∈ txs, tx.nonce < h.length)
      (fun _ => MarksSound h inserted) := by
  refine Triple.bind (fetchTxs_marks hm fuel
    (Or.inr fun tx htx => hnewest tx (List.dropLast_subset _ htx))) fun txs => ?_
  cases txs with
  | nil => exact Triple.ret fun m hm' => ⟨hm'.1, fun tx htx => absurd htx List.not_mem_nil⟩
  | cons newest rest =>
      refine Triple.update_bind (Triple.ret ?_)
      rintro _ ⟨m, ⟨hm', m₁, hsel, rfl⟩, rfl⟩
      have hin : ∀ tx ∈ newest :: rest, tx ∈ (m₁.setAllConfirmed rest).bucket tx.nonce := by
        intro tx htx
        rw [TxManager.setAllConfirmed_bucket]
        exact hsel.cached tx htx
      refine ⟨hm'.setAllConfirmed [newest] fun tx htx => ?_, fun tx htx => ?_⟩
      · obtain rfl := List.mem_singleton.mp htx
        refine ⟨hin tx List.mem_cons_self, ?_⟩
        rcases (hm.selected_newest hsel).1 tx List.mem_cons_self with hlt | hnew
        · exact Or.inr hlt
        · exact Or.inl (hnewest tx hnew)
      · exact hm'.lt_length _ (List.ne_nil_of_mem (hin tx (selectActiveTxs_subset _ htx)))

/-- Below a nonce in use nothing is on the newest nonce. -/
lemma History.onNewest_of_lt (m : TxManager) (tokenType : Option TokenType) {b : ℤ}
    (hb : b < h.length) : h.onNewest m tokenType (some b) = [] := by
  rw [onNewest, if_neg]
  simp only [Option.all_some, decide_eq_true_eq]
  omega

lemma getPrivateBalanceFromTxHistory_marks (fuel : ℕ) (tokenType : TokenType) {nonce : ℕ}
    (hn : nonce < h.length) :
    Keeps (MarksSound h inserted)
      (getPrivateBalanceFromTxHistory h.fetcher fuel tokenType (some nonce)) := by
  let inv : BalanceLoop → TxManager → Prop := fun loop m =>
    loop.lowestFetchedNonce < h.length ∧ MarksSound h inserted m
  have hround : ∀ loop : BalanceLoop, loop.continues = true → Triple (inv loop)
      (txHistoryRound h.fetcher fuel tokenType DEFAULT_FETCH_BATCH_SIZE loop) inv
      (fun _ => MarksSound h inserted) := by
    intro loop hcont
    refine Triple.of_forall fun m hm => ?_
    have hnil := History.onNewest_of_lt m (some tokenType) hm.1
    refine Triple.bind (fetchTxs_marks hm.2 fuel (Or.inr ?_)) fun batch => Triple.ret ?_
    · rw [hnil]
      exact fun tx htx => absurd htx List.not_mem_nil
    · rintro m' ⟨hm', m₁, hsel, -⟩
      refine ⟨getLowestFetchedNonceFromBatch_lt fun tx htx => ?_, hm'⟩
      exact (hm.2.looked hsel.looked).lt_length _ (List.ne_nil_of_mem (hsel.cached tx htx))
  have hloop : Triple (inv (BalanceLoop.start (some nonce)))
      (whileLoop Failure.outOfFuel BalanceLoop.continues
        (txHistoryRound h.fetcher fuel tokenType DEFAULT_FETCH_BATCH_SIZE) fuel
        (BalanceLoop.start (some nonce)))
      (fun loop m => inv loop m ∧ loop.continues = false) (fun _ => MarksSound h inserted) :=
    Triple.loop_partial (E := fun _ => MarksSound h inserted) inv hround (fun _ _ hs => hs.2) fuel _
  have hcall : Triple (inv (BalanceLoop.start (some nonce)))
      (getPrivateBalanceFromTxHistory h.fetcher fuel tokenType (some nonce))
      (fun _ => MarksSound h inserted) (fun _ => MarksSound h inserted) :=
    Triple.bind hloop fun loop => Triple.ret fun m hm => hm.1.2
  refine hcall.mono (fun m hm => ⟨?_, hm⟩) (fun _ _ hq => hq) fun _ _ he => he
  show (nonce : ℤ) < h.length
  omega

namespace CommitmentScheme

variable (scheme : CommitmentScheme) (fuel : ℕ) {tx : ElusivTransaction}

lemma getCommitmentForPartialSend_marks (hn : tx.nonce < h.length) :
    Keeps (MarksSound h inserted) (scheme.getCommitmentForPartialSend h.fetcher fuel tx) := by
  have hslow : Keeps (MarksSound h inserted)
      (scheme.getCommitmentForPartialSendSlow h.fetcher fuel tx) := by
    refine Triple.bind (getPrivateBalanceFromTxHistory_marks fuel tx.tokenType hn) fun balance => ?_
    dsimp only
    split_ifs
    · exact Triple.ret fun _ hs => hs
    · exact Triple.raise fun _ hs => hs
  rw [getCommitmentForPartialSend]
  split
  · dsimp only
    split_ifs
    · exact Triple.ret fun _ hs => hs
    · exact hslow
  · exact hslow

lemma isTransactionConfirmed_marks (hn : tx.nonce < h.length) :
    Keeps (MarksSound h inserted) (scheme.isTransactionConfirmed h.fetcher fuel tx) := by
  refine Triple.bind (Q := fun _ => MarksSound h inserted) ?_ fun _ => Triple.ret fun _ hs => hs
  rw [getCommitmentForTransaction]
  split
  · exact Triple.ret fun _ hs => hs
  · exact scheme.getCommitmentForPartialSend_marks fuel hn

lemma getIncompleteCommitmentsForTxs_marks {txs : List ElusivTransaction}
    (hn : ∀ tx ∈ txs, tx.nonce < h.length) :
    Keeps (MarksSound h inserted) (scheme.getIncompleteCommitmentsForTxs h.fetcher fuel txs) := by
  refine Triple.bind (Keeps.mapM fun tx htx => ?_) fun sends => Triple.ret fun _ hs => hs
  exact scheme.getCommitmentForPartialSend_marks fuel (hn tx (List.mem_of_mem_filter htx))

/-- **`getActiveCommitments` keeps the marks sound**, when all it can return of the newest nonce is
inserted; it may throw. -/
theorem getActiveCommitments_marks (hm : MarksSound h inserted m₀) {tokenType : TokenType}
    {beforeSend : Option ElusivTransaction}
    (hnewest : ∀ tx ∈ h.onNewest m₀ (some tokenType) (beforeSend.map fun send => (send.nonce : ℤ)),
      inserted tx = true) :
    Triple (fun m => m = m₀) (scheme.getActiveCommitments h.fetcher fuel tokenType beforeSend)
      (fun _ => MarksSound h inserted) (fun _ => MarksSound h inserted) := by
  refine Triple.bind (getActiveTxs_marks hm fuel hnewest) fun activeTxs => ?_
  cases activeTxs with
  | nil => exact Triple.ret fun _ hs => hs.1
  | cons newest rest =>
      intro m hs
      refine Triple.bind (scheme.isTransactionConfirmed_marks fuel (hs.2 newest List.mem_cons_self))
        (fun confirmed => ?_) m hs.1
      split_ifs
      · refine Triple.bind (scheme.getIncompleteCommitmentsForTxs_marks fuel hs.2) fun comms => ?_
        exact Triple.lift_any (fun _ _ _ hs => hs) fun _ _ _ hs => hs
      · exact Triple.raise fun _ hs => hs

end CommitmentScheme

end Specs

end ElusivSdk
