import ElusivSdk.TxManagers.ActiveTransactions
import ElusivSdk.TxManagers.FetchOrder

/-!
# `getActiveTxs` returns the unspent transactions

The unspent transactions of a token are all of them while it has no send, and otherwise the latest
send, the topups on larger nonces and the topups on its own nonce (`UnspentOf`).  On one nonce the
chain may list the send before, between or behind the topups.

* `UnspentOf.exists_selected` — the selection from the newest `count` transactions is an `UnspentOf`.
* **`getActiveTxs_exact`** — `getActiveTxs` returns the unspent transactions, each once and one of the
  largest nonce first, whatever was fetched before.
-/

namespace ElusivSdk

open Descending Program

/-- The unspent ones among the transactions of a token.  When two sends share the largest nonce of a
send, either of them may be taken as the latest one. -/
inductive UnspentOf (txs : List ElusivTransaction) : List ElusivTransaction → Prop
  | noSend (htopups : ∀ tx ∈ txs, tx.txType = .TOPUP) : UnspentOf txs txs
  | latestSend {send : ElusivTransaction} (hmem : send ∈ txs) (hsend : send.txType = .SEND)
      (hlatest : NoLaterSend txs send) :
      UnspentOf txs (send :: txs.filter fun tx => tx.txType = .TOPUP ∧ send.nonce ≤ tx.nonce)

/-- Every transaction has a signature, and no two have the same. -/
structure SignedDistinctly (txs : List ElusivTransaction) : Prop where
  signed : ∀ tx ∈ txs, tx.signature.isSome = true
  distinct : ∀ x ∈ txs, ∀ y ∈ txs, x.signature = y.signature → x = y

lemma SignedDistinctly.mono {txs txs' : List ElusivTransaction} (hs : SignedDistinctly txs)
    (h : txs' ⊆ txs) : SignedDistinctly txs' :=
  ⟨fun tx htx => hs.signed tx (h htx), fun x hx y hy => hs.distinct x (h hx) y (h hy)⟩

namespace UnspentOf

variable {txs : List ElusivTransaction}

lemma nodup {U : List ElusivTransaction} (hU : UnspentOf txs U) (hnodup : txs.Nodup) : U.Nodup := by
  cases hU with
  | noSend htopups => exact hnodup
  | latestSend hmem hsend hlatest =>
      refine List.nodup_cons.mpr ⟨fun hmem => ?_, hnodup.filter _⟩
      have htopup := (List.mem_filter.mp hmem).2
      rw [decide_eq_true_eq, hsend] at htopup
      cases htopup.1

/-- With one send on a nonce there is one way to be unspent. -/
lemma unique {U U' : List ElusivTransaction} (hU : UnspentOf txs U) (hU' : UnspentOf txs U')
    (hone : ∀ x ∈ txs, ∀ y ∈ txs, x.txType = .SEND → y.txType = .SEND → x.nonce = y.nonce → x = y) :
    U = U' := by
  cases hU with
  | noSend htopups =>
      cases hU' with
      | noSend => rfl
      | latestSend hmem hsend =>
          rw [htopups _ hmem] at hsend
          cases hsend
  | @latestSend s hmem hsend hlatest =>
      cases hU' with
      | noSend htopups =>
          rw [htopups _ hmem] at hsend
          cases hsend
      | @latestSend s' hmem' hsend' hlatest' =>
          have hnonce := Nat.le_antisymm (hlatest' s hmem hsend) (hlatest s' hmem' hsend')
          rw [hone s hmem s' hmem' hsend hsend' hnonce]

/-- Above the latest send there are fewer transactions than unspent ones. -/
lemma length_above {send : ElusivTransaction} (hlatest : NoLaterSend txs send) :
    (txs.filter fun tx => send.nonce < tx.nonce).length
      < (send :: txs.filter fun tx => tx.txType = .TOPUP ∧ send.nonce ≤ tx.nonce).length := by
  have habove : txs.filter (fun tx => send.nonce < tx.nonce)
      = txs.filter fun tx => tx.txType = .TOPUP ∧ send.nonce < tx.nonce := by
    refine List.filter_congr fun tx htx => decide_eq_decide.mpr ⟨fun hlt => ⟨?_, hlt⟩, And.right⟩
    cases htype : tx.txType with
    | TOPUP => rfl
    | SEND => exact absurd (hlatest tx htx htype) (Nat.not_le_of_lt hlt)
  rw [List.length_cons, Nat.lt_succ_iff, habove]
  refine (List.monotone_filter_right _ fun tx hlt => ?_).length_le
  rw [decide_eq_true_eq] at hlt ⊢
  exact ⟨hlt.1, Nat.le_of_lt hlt.2⟩

/-- **What is selected from the newest `count` transactions are unspent transactions**, when there are
at most `count` unspent ones. -/
theorem exists_selected {U : List ElusivTransaction} (hU : UnspentOf txs U)
    (hdesc : txs.Pairwise fun x y => y.nonce ≤ x.nonce) (hnodup : txs.Nodup)
    (hs : SignedDistinctly txs) {count : ℕ} (hcount : U.length ≤ count) :
    ∃ U', UnspentOf txs U' ∧
      (selectActiveTxs (takeGroups ElusivTransaction.nonce count txs)).Perm U' := by
  have hsubl := takeGroups_sublist ElusivTransaction.nonce count txs
  have hs' := hs.mono hsubl.subset
  rcases selectActiveTxs_cases (takeGroups ElusivTransaction.nonce count txs) with
    ⟨htopups, heq⟩ | ⟨front, send, back, hnew, heq⟩
  · cases hU with
    | noSend hall =>
        refine ⟨txs, .noSend hall, ?_⟩
        rw [heq, takeGroups_of_length_le hcount]
    | @latestSend send hmem hsend hlatest =>
        -- the latest send is among the newest `count`
        have hfetched := mem_takeGroups hdesc hmem (Nat.lt_of_lt_of_le (length_above hlatest) hcount)
        rw [htopups send hfetched] at hsend
        cases hsend
  · have hdesc' := hdesc.sublist hsubl
    have hfetched : ∀ {tx}, tx ∈ txs → send.nonce ≤ tx.nonce →
        tx ∈ takeGroups ElusivTransaction.nonce count txs :=
      fun htx hle => mem_takeGroups_of_le hdesc hnew.mem htx hle
    have hlatest : NoLaterSend txs send := by
      intro tx htx hsend
      by_contra hlt
      exact hlt (hnew.noLaterSend hdesc' tx (hfetched htx (by omega)) hsend)
    have hU' := UnspentOf.latestSend (hsubl.subset hnew.mem) hnew.send hlatest
    refine ⟨_, hU', ?_⟩
    refine (List.perm_ext_iff_of_nodup (nodup_selectActiveTxs (hnodup.sublist hsubl) hs'.signed)
      (hU'.nodup hnodup)).mpr fun tx => ?_
    rw [heq, hnew.mem_selected hdesc' fun x hx y hy _ => hs'.distinct x hx y hy, List.mem_cons,
      List.mem_filter, decide_eq_true_eq]
    refine or_congr_right ⟨?_, ?_⟩
    · rintro ⟨htx, htopup, hle⟩
      exact ⟨hsubl.subset htx, htopup, hle⟩
    · rintro ⟨htx, htopup, hle⟩
      exact ⟨hfetched htx hle, htopup, hle⟩

end UnspentOf

lemma head?_selectActiveTxs (txs : List ElusivTransaction) :
    (selectActiveTxs txs).head? = txs.head? := by
  rcases selectActiveTxs_cases txs with ⟨-, heq⟩ | ⟨front, send, back, hs, heq⟩
  · rw [heq]
  · rw [heq, hs.eq]
    cases front with
    | nil => rfl
    | cons tx front => rfl

/-- The transactions of a token, those below the nonce of `beforeSend` when one is given. -/
def History.txsBeforeSend (h : History) (tokenType : TokenType)
    (beforeSend : Option ElusivTransaction) : List ElusivTransaction :=
  h.matching (some tokenType) (beforeSend.map fun send => (send.nonce : ℤ))

/-- **`getActiveTxs` returns exactly the unspent transactions of the token**, each once and one of the
largest nonce first, when there are at most `SEND_ARITY` of them — in whatever order a nonce lists its
transactions, and whatever earlier calls left in the cache. -/
theorem getActiveTxs_exact {h : History} (hg : h.Gapless) (hlen : h.length ≤ MAX_UINT32)
    (hd : h.DistinctHashes) (earlier : List Query) {fuel : ℕ}
    (hfuel : h.length + DEFAULT_FETCH_BATCH_SIZE + 3 ≤ fuel) (tokenType : TokenType)
    (beforeSend : Option ElusivTransaction)
    (hs : SignedDistinctly (h.txsBeforeSend tokenType beforeSend)) {U : List ElusivTransaction}
    (hU : UnspentOf (h.txsBeforeSend tokenType beforeSend) U) (hcount : U.length ≤ SEND_ARITY) :
    ∃ res, (exec (getActiveTxs h.fetcher fuel tokenType beforeSend)
        (h.managerAfter fuel earlier)).1 = .ok res ∧ res.Nodup ∧
      (∀ newest ∈ res.head?, ∀ tx ∈ h.txsBeforeSend tokenType beforeSend,
        tx.nonce ≤ newest.nonce) ∧
      (∃ U', UnspentOf (h.txsBeforeSend tokenType beforeSend) U' ∧ res.Perm U') ∧
      ((∀ x ∈ h.txsBeforeSend tokenType beforeSend, ∀ y ∈ h.txsBeforeSend tokenType beforeSend,
          x.txType = .SEND → y.txType = .SEND → x.nonce = y.nonce → x = y) → res.Perm U) := by
  have hgaps : h.GapsBelow DEFAULT_FETCH_BATCH_SIZE := hg.gapsBelow (by decide)
  have hdesc : (h.txsBeforeSend tokenType beforeSend).Pairwise fun x y => y.nonce ≤ x.nonce :=
    h.matching_pairwise _ _
  have hnodup : (h.txsBeforeSend tokenType beforeSend).Nodup :=
    (hd.nodup h.length).sublist List.filter_sublist
  obtain ⟨res, m, hexec, ⟨rfl, -⟩⟩ := (getActiveTxs_spec (h.coherent_managerAfter hgaps hfuel earlier)
    hgaps hfuel tokenType beforeSend).run rfl
  have hfetched : h.fetchTxs SEND_ARITY (some tokenType)
      (beforeSend.map fun send => (send.nonce : ℤ))
        = takeGroups ElusivTransaction.nonce SEND_ARITY (h.txsBeforeSend tokenType beforeSend) := by
    rw [hg.fetchTxs_eq hlen, ← hd.matching_eq, History.txsBeforeSend]
  rw [hexec, hfetched]
  have hsubl := takeGroups_sublist ElusivTransaction.nonce SEND_ARITY
    (h.txsBeforeSend tokenType beforeSend)
  obtain ⟨U', hU', hperm⟩ := hU.exists_selected hdesc hnodup hs hcount
  refine ⟨_, rfl, nodup_selectActiveTxs (hnodup.sublist hsubl) (hs.mono hsubl.subset).signed, ?_,
    ⟨U', hU', hperm⟩, fun hone => ?_⟩
  · intro newest hnewest tx htx
    rw [head?_selectActiveTxs, head?_takeGroups (by decide)] at hnewest
    cases htxs : h.txsBeforeSend tokenType beforeSend with
    | nil =>
        rw [htxs] at htx
        exact absurd htx List.not_mem_nil
    | cons first rest =>
        rw [htxs] at hnewest htx hdesc
        cases hnewest
        rcases List.mem_cons.mp htx with rfl | htx
        · exact Nat.le_refl _
        · exact (List.pairwise_cons.mp hdesc).1 tx htx
  · rw [hU.unique hU' hone]
    exact hperm

/-! ### A send between two topups on its nonce -/

/-- The nonce 1 holds a topup, a send and a topup, with a transaction of another token above. -/
def sendBetweenTopups : History :=
  .ofList [.bareTopup 0 .LAMPORTS 5 0, .bareTopup 1 .LAMPORTS 2 1, .bareSend 1 .LAMPORTS 3 1 2 none,
    .bareTopup 1 .LAMPORTS 4 3, .bareTopup 2 .USDC 1 4, .bareTopup 3 .LAMPORTS 6 5] (by decide)

lemma sendBetweenTopups_gapless : sendBetweenTopups.Gapless :=
  show ∀ n < 4, sendBetweenTopups.txsAt n ≠ [] by decide

lemma sendBetweenTopups_distinct : sendBetweenTopups.DistinctHashes :=
  fun n => History.forall_nonce_of_lt
    (P := fun _ txs => txs.Pairwise fun tx1 tx2 => tx1.commitmentHash ≠ tx2.commitmentHash)
    (fun _ => List.Pairwise.nil) (show ∀ n < 4, (sendBetweenTopups.txsAt n).Pairwise
      fun tx1 tx2 => tx1.commitmentHash ≠ tx2.commitmentHash by decide) n

/-- The send, the topups around it and the one above are returned, the newest one first. -/
theorem getActiveTxs_exact_sendBetweenTopups :
    ∃ res, (exec (getActiveTxs sendBetweenTopups.fetcher 17 .LAMPORTS none)
        (sendBetweenTopups.managerAfter 17 [.getMostRecentTx])).1 = .ok res ∧
      res.Perm [.bareSend 1 .LAMPORTS 3 1 2 none, .bareTopup 3 .LAMPORTS 6 5,
        .bareTopup 1 .LAMPORTS 4 3, .bareTopup 1 .LAMPORTS 2 1] := by
  have hU : UnspentOf (sendBetweenTopups.txsBeforeSend .LAMPORTS none) _ :=
    .latestSend (show .bareSend 1 .LAMPORTS 3 1 2 none ∈ _ by decide) rfl (by decide)
  obtain ⟨res, hrun, -, -, -, hperm⟩ := getActiveTxs_exact sendBetweenTopups_gapless (by decide)
    sendBetweenTopups_distinct [.getMostRecentTx] (Nat.le_refl 17) .LAMPORTS none
    ⟨by decide, by decide⟩ hU (by decide)
  exact ⟨res, hrun, hperm (by decide)⟩

end ElusivSdk
