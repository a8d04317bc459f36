import ElusivSdk.TxManagers.TransactionManager

/-!
# What `getActiveTxs` selects

A send of a token spends every commitment of the token on a smaller nonce.  So the unspent commitments
of a token are those of its latest send and of the topups from that nonce on
(`History.unspent`).  `getActiveTxs` looks for them among the newest `SEND_ARITY` transactions.

* `mem_selectActiveTxs` — the selection keeps exactly the transactions with no later send before them.
* **`unspent_subset_active`** — nothing unspent is missed while the token has at most `SEND_ARITY`
  unspent commitments.
-/

namespace ElusivSdk

open Descending

/-! ## The selection -/

/-- No transaction of the list is a send on a larger nonce. -/
def NoLaterSend (txs : List ElusivTransaction) (tx : ElusivTransaction) : Prop :=
  ∀ s ∈ txs, s.txType = .SEND → s.nonce ≤ tx.nonce

instance (txs : List ElusivTransaction) : DecidablePred (NoLaterSend txs) :=
  fun tx => inferInstanceAs (Decidable (∀ s ∈ txs, s.txType = .SEND → s.nonce ≤ tx.nonce))

/-- At most one send on a nonce, and no signature twice. -/
structure Orderly (txs : List ElusivTransaction) : Prop where
  oneSend : ∀ x ∈ txs, ∀ y ∈ txs, x.txType = .SEND → y.txType = .SEND → x.nonce = y.nonce → x = y
  signatures : ∀ x ∈ txs, ∀ y ∈ txs, x.signature.isSome = true → x.signature = y.signature → x = y

lemma Orderly.mono {txs txs' : List ElusivTransaction} (ho : Orderly txs) (h : txs' ⊆ txs) :
    Orderly txs' :=
  ⟨fun x hx y hy => ho.oneSend x (h hx) y (h hy), fun x hx y hy => ho.signatures x (h hx) y (h hy)⟩

/-- The topups added for the send `curr`. -/
lemma mem_sameNonceTopups {txs res : List ElusivTransaction} {curr tx : ElusivTransaction}
    (hsigs : ∀ x ∈ txs, ∀ y ∈ txs, x.signature.isSome = true → x.signature = y.signature → x = y)
    (hres : res ⊆ txs) :
    tx ∈ res ++ sameNonceTopupsNotIncluded txs res curr ↔
      tx ∈ res ∨ (tx ∈ txs ∧ tx.txType = .TOPUP ∧ tx.nonce = curr.nonce) := by
  rw [List.mem_append, sameNonceTopupsNotIncluded, List.mem_filter]
  constructor
  · rintro (hr | ⟨htx, hp⟩)
    · exact Or.inl hr
    · simp only [Bool.and_eq_true, beq_iff_eq] at hp
      exact Or.inr ⟨htx, hp.1.1, hp.1.2⟩
  · rintro (hr | ⟨htx, htype, hnonce⟩)
    · exact Or.inl hr
    · by_cases hr : tx ∈ res
      · exact Or.inl hr
      · refine Or.inr ⟨htx, ?_⟩
        simp only [Bool.and_eq_true, beq_iff_eq, Option.isNone_iff_eq_none, List.find?_eq_none]
        refine ⟨⟨htype, hnonce⟩, fun resTx hmem hsig => hr ?_⟩
        -- a transaction of the result with this signature would be `tx`
        rwa [hsigs tx htx resTx (hres hmem) hsig.1 hsig.2.symm]

namespace NewestSend

variable {txs front back : List ElusivTransaction} {send : ElusivTransaction}

lemma mem (hs : NewestSend txs front send back) : send ∈ txs :=
  hs.sublist.subset (List.mem_append_right _ (List.mem_singleton_self _))

lemma le_of_mem_front (hs : NewestSend txs front send back)
    (hdesc : txs.Pairwise fun x y => y.nonce ≤ x.nonce) {tx : ElusivTransaction} (htx : tx ∈ front) :
    send.nonce ≤ tx.nonce :=
  (List.pairwise_append.mp (hs.eq ▸ hdesc)).2.2 tx htx send List.mem_cons_self

/-- What is not before the send is not above it. -/
lemma mem_cases (hs : NewestSend txs front send back)
    (hdesc : txs.Pairwise fun x y => y.nonce ≤ x.nonce) {tx : ElusivTransaction} (htx : tx ∈ txs) :
    tx ∈ front ∨ tx = send ∨ tx.nonce ≤ send.nonce := by
  have hsplit := List.pairwise_append.mp (hs.eq ▸ hdesc)
  rw [hs.eq, List.mem_append, List.mem_cons] at htx
  rcases htx with htx | htx | htx
  · exact Or.inl htx
  · exact Or.inr (Or.inl htx)
  · exact Or.inr (Or.inr ((List.pairwise_cons.mp hsplit.2.1).1 tx htx))

/-- The newest send is the latest one. -/
lemma noLaterSend (hs : NewestSend txs front send back)
    (hdesc : txs.Pairwise fun x y => y.nonce ≤ x.nonce) : NoLaterSend txs send := by
  intro tx htx hsend
  rcases hs.mem_cases hdesc htx with hfront | rfl | hle
  · rw [hs.topups tx hfront] at hsend
    cases hsend
  · exact Nat.le_refl _
  · exact hle

/-- The transactions selected with the newest send: the send, and the topups from its nonce on. -/
lemma mem_selected (hs : NewestSend txs front send back)
    (hdesc : txs.Pairwise fun x y => y.nonce ≤ x.nonce)
    (hsigs : ∀ x ∈ txs, ∀ y ∈ txs, x.signature.isSome = true → x.signature = y.signature → x = y)
    {tx : ElusivTransaction} :
    tx ∈ (front ++ [send]) ++ sameNonceTopupsNotIncluded txs (front ++ [send]) send ↔
      tx = send ∨ (tx ∈ txs ∧ tx.txType = .TOPUP ∧ send.nonce ≤ tx.nonce) := by
  have hsub := hs.sublist.subset
  rw [mem_sameNonceTopups hsigs hsub, List.mem_append, List.mem_singleton]
  constructor
  · rintro ((htx | htx) | ⟨htx, htype, hnonce⟩)
    · exact Or.inr ⟨hsub (List.mem_append_left _ htx), hs.topups tx htx, hs.le_of_mem_front hdesc htx⟩
    · exact Or.inl htx
    · exact Or.inr ⟨htx, htype, Nat.le_of_eq hnonce.symm⟩
  · rintro (htx | ⟨htx, htype, hge⟩)
    · exact Or.inl (Or.inr htx)
    · rcases hs.mem_cases hdesc htx with hfront | hsend | hle
      · exact Or.inl (Or.inl hfront)
      · exact Or.inl (Or.inr hsend)
      · exact Or.inr ⟨htx, htype, Nat.le_antisymm hle hge⟩

end NewestSend

/-- **The selection keeps exactly the transactions with no later send among the fetched ones.** -/
theorem mem_selectActiveTxs {txs : List ElusivTransaction} (ho : Orderly txs)
    (hdesc : txs.Pairwise fun x y => y.nonce ≤ x.nonce) {tx : ElusivTransaction} :
    tx ∈ selectActiveTxs txs ↔ tx ∈ txs ∧ NoLaterSend txs tx := by
  rcases selectActiveTxs_cases txs with ⟨htopups, heq⟩ | ⟨front, send, back, hs, heq⟩
  · rw [heq]
    refine ⟨fun htx => ⟨htx, fun s hmem hsend => ?_⟩, And.left⟩
    rw [htopups s hmem] at hsend
    cases hsend
  · rw [heq, hs.mem_selected hdesc ho.signatures]
    have hlatest := hs.noLaterSend hdesc
    constructor
    · rintro (rfl | ⟨htx, -, hge⟩)
      · exact ⟨hs.mem, hlatest⟩
      · exact ⟨htx, fun s hmem hsend => Nat.le_trans (hlatest s hmem hsend) hge⟩
    · rintro ⟨htx, hno⟩
      have hge := hno send hs.mem hs.send
      cases htype : tx.txType with
      | TOPUP => exact Or.inr ⟨htx, rfl, hge⟩
      | SEND =>
          exact Or.inl (ho.oneSend tx htx send hs.mem htype hs.send
            (Nat.le_antisymm (hlatest tx htx htype) hge))

/-- Of transactions that all have a signature none is selected twice. -/
lemma nodup_selectActiveTxs {txs : List ElusivTransaction} (hnodup : txs.Nodup)
    (hsigned : ∀ tx ∈ txs, tx.signature.isSome = true) : (selectActiveTxs txs).Nodup := by
  rcases selectActiveTxs_cases txs with ⟨-, heq⟩ | ⟨front, send, back, hs, heq⟩
  · rwa [heq]
  · rw [heq]
    refine List.nodup_append.mpr ⟨hnodup.sublist hs.sublist, hnodup.filter _, ?_⟩
    rintro x hx y hy rfl
    -- `x` itself would be found among those that are included
    have hfind := (List.mem_filter.mp hy).2
    simp only [Bool.and_eq_true, Option.isNone_iff_eq_none, List.find?_eq_none] at hfind
    refine hfind.2 x hx ?_
    rw [hsigned x (hs.sublist.subset hx), beq_self_eq_true]
    trivial

/-! ## The unspent transactions -/

/-- The transactions that no later send of the list spends. -/
def unspent (txs : List ElusivTransaction) : List ElusivTransaction :=
  txs.filter fun tx => NoLaterSend txs tx

lemma mem_unspent {txs : List ElusivTransaction} {tx : ElusivTransaction} :
    tx ∈ unspent txs ↔ tx ∈ txs ∧ NoLaterSend txs tx := by
  rw [unspent, List.mem_filter, decide_eq_true_eq]

/-- The transactions above an unspent one are unspent too, so an unspent one has fewer above it. -/
lemma length_above_unspent {txs : List ElusivTransaction} {tx : ElusivTransaction}
    (htx : tx ∈ unspent txs) :
    (txs.filter fun x => tx.nonce < x.nonce).length < (unspent txs).length := by
  have hno := (mem_unspent.mp htx).2
  have habove : txs.filter (fun x => tx.nonce < x.nonce)
      = (unspent txs).filter fun x => tx.nonce < x.nonce := by
    rw [unspent, List.filter_filter]
    refine List.filter_congr fun x _ => ?_
    by_cases hlt : tx.nonce < x.nonce
    · have hx : NoLaterSend txs x := fun s hs hsend =>
        Nat.le_of_lt (Nat.lt_of_le_of_lt (hno s hs hsend) hlt)
      simp [hlt, hx]
    · simp [hlt]
  rw [habove]
  refine List.length_filter_lt_length_iff_exists.mpr ⟨tx, htx, ?_⟩
  simp

/-- **With at most `count` unspent transactions, the newest `count` are enough to find them all.** -/
theorem mem_select_takeGroups {txs : List ElusivTransaction} (ho : Orderly txs)
    (hdesc : txs.Pairwise fun x y => y.nonce ≤ x.nonce) {count : ℕ}
    (hcount : (unspent txs).length ≤ count) {tx : ElusivTransaction} :
    tx ∈ selectActiveTxs (takeGroups ElusivTransaction.nonce count txs) ↔ tx ∈ unspent txs := by
  have hsubl := takeGroups_sublist ElusivTransaction.nonce count txs
  have hsub := hsubl.subset
  rw [mem_selectActiveTxs (ho.mono hsub) (hdesc.sublist hsubl), mem_unspent]
  constructor
  · rintro ⟨htx, hno⟩
    refine ⟨hsub htx, fun s hs hsend => ?_⟩
    by_contra hlt
    exact hlt (hno s (mem_takeGroups_of_le hdesc htx hs (by omega)) hsend)
  · rintro ⟨htx, hno⟩
    have habove := length_above_unspent (mem_unspent.mpr ⟨htx, hno⟩)
    exact ⟨mem_takeGroups hdesc htx (by omega), fun s hs hsend => hno s (hsub hs) hsend⟩

/-- An unspent transaction is found in a part of the transactions, in which nothing up to its nonce is
missing. -/
theorem mem_select_of_subset {txs part : List ElusivTransaction} (ho : Orderly txs) (hsub : part ⊆ txs)
    (hdesc : part.Pairwise fun x y => y.nonce ≤ x.nonce) (hnodup : part.Nodup) {count : ℕ}
    (hcount : (unspent txs).length ≤ count) {tx : ElusivTransaction} (htx : tx ∈ unspent txs)
    (hall : ∀ x ∈ txs, x.nonce ≤ tx.nonce → x ∈ part) :
    tx ∈ selectActiveTxs (takeGroups ElusivTransaction.nonce count part) := by
  obtain ⟨hmem, hno⟩ := mem_unspent.mp htx
  have hunspent : unspent part ⊆ unspent txs := by
    intro x hx
    obtain ⟨hx, hnox⟩ := mem_unspent.mp hx
    -- no send lies above `tx`, so every send is in the part
    exact mem_unspent.mpr ⟨hsub hx, fun s hs hsend => hnox s (hall s hs (hno s hs hsend)) hsend⟩
  have hlength : (unspent part).length ≤ count :=
    (List.subperm_of_subset (hnodup.filter _) hunspent).length_le.trans hcount
  rw [mem_select_takeGroups (ho.mono hsub) hdesc hlength, mem_unspent]
  exact ⟨hall tx hmem (Nat.le_refl _), fun s hs hsend => hno s (hsub hs) hsend⟩

end ElusivSdk
