import ElusivSdk.Chain.Growth
import ElusivSdk.ParamManagers.ActiveCommitments
import ElusivSdk.TxBuilding.Circuits
import Mathlib.Algebra.Order.BigOperators.Group.List

/-!
# Chains of one client that waits

A client that builds every transaction after the one before it was confirmed uses every nonce once.  On
such a chain the active transactions of a token are those from the newest down to the latest send, and
what their commitments hold is the private balance.

* `upToSend` — a list down to its first send; `activeTxs_eq` — it is what `getActiveTxs` selects.
* `SequentialChain` — one transaction on every nonce, each telling a commitment that accounts for
  everything before it.
* **`SequentialChain.sumBalance_active`** — the active commitments hold the balance.
* **`SequentialChain.land`** — the transaction of the next nonce keeps the chain so.
-/

namespace ElusivSdk

open Descending Program

/-! ## Down to the latest send -/

/-- The transactions up to the first send, this one included. -/
def upToSend : List ElusivTransaction → List ElusivTransaction
  | [] => []
  | tx :: rest =>
      match tx.txType with
      | .SEND => [tx]
      | .TOPUP => tx :: upToSend rest

lemma upToSend_sublist : ∀ txs : List ElusivTransaction, (upToSend txs).Sublist txs
  | [] => List.Sublist.slnil
  | tx :: rest => by
      rw [upToSend]
      cases tx.txType with
      | SEND => exact (List.nil_sublist rest).cons_cons tx
      | TOPUP => exact (upToSend_sublist rest).cons_cons tx

/-- As many transactions are enough as there are up to the first send. -/
lemma upToSend_take : ∀ {count : ℕ} {txs : List ElusivTransaction},
    (upToSend txs).length ≤ count → upToSend (txs.take count) = upToSend txs
  | _, [], _ => by rw [List.take_nil]
  | 0, tx :: rest, h => by
      rw [upToSend] at h
      cases htype : tx.txType with
      | SEND => rw [htype] at h; nomatch h
      | TOPUP => rw [htype] at h; nomatch h
  | n + 1, tx :: rest, h => by
      rw [List.take_succ_cons, upToSend, upToSend]
      rw [upToSend] at h
      cases htype : tx.txType with
      | SEND => rfl
      | TOPUP =>
          rw [htype] at h
          show tx :: upToSend (rest.take n) = tx :: upToSend rest
          rw [upToSend_take (Nat.le_of_succ_le_succ h)]

/-- When no nonce occurs twice, the selection ends at the first send. -/
lemma activeTxsFrom_eq_upToSend {txs : List ElusivTransaction}
    (hstrict : txs.Pairwise fun x y => y.nonce < x.nonce) :
    ∀ {rest seen : List ElusivTransaction}, txs = seen ++ rest →
      activeTxsFrom txs seen rest = seen ++ upToSend rest
  | [], seen, heq => by rw [activeTxsFrom, upToSend, heq]
  | curr :: rest, seen, heq => by
      rw [activeTxsFrom, upToSend]
      cases htype : curr.txType with
      | TOPUP =>
          show activeTxsFrom txs (seen ++ [curr]) rest = seen ++ curr :: upToSend rest
          rw [activeTxsFrom_eq_upToSend hstrict (by rw [heq, List.append_assoc]; rfl),
            List.append_assoc]
          rfl
      | SEND =>
          have hcurr : curr ∈ txs := by
            rw [heq]
            exact List.mem_append_right _ List.mem_cons_self
          have hnone : sameNonceTopupsNotIncluded txs (seen ++ [curr]) curr = [] := by
            refine List.filter_eq_nil_iff.mpr fun tx htx hall => ?_
            simp only [Bool.and_eq_true, beq_iff_eq] at hall
            -- the only transaction of that nonce is the send itself
            have hnodup : (txs.map ElusivTransaction.nonce).Nodup :=
              List.pairwise_map.mpr (hstrict.imp fun hlt => Nat.ne_of_gt hlt)
            have hinj : tx = curr := List.inj_on_of_nodup_map hnodup htx hcurr hall.1.2
            rw [hinj, htype] at hall
            exact absurd hall.1.1 (by decide)
          show (seen ++ [curr]) ++ sameNonceTopupsNotIncluded txs (seen ++ [curr]) curr = _
          rw [hnone, List.append_nil]

/-- The transactions of a token, from the newest down. -/
def History.tokenTxs (h : History) (tokenType : TokenType) : List ElusivTransaction :=
  below (h.tokenBucket (some tokenType)) h.length

namespace History

variable {h : History}

/-- One transaction on a nonce at most: nothing of it is dropped when it is cached. -/
lemma distinctHashes_of_single (hsingle : ∀ n, (h.txsAt n).length ≤ 1) : h.DistinctHashes :=
  fun n => pairwise_of_length_le_one (hsingle n)

lemma oneSendPerNonce_of_single (hsingle : ∀ n, (h.txsAt n).length ≤ 1) : h.OneSendPerNonce :=
  fun n _ => Nat.le_trans (List.length_filter_le _ _) (hsingle n)

lemma length_tokenBucket_le (hsingle : ∀ n, (h.txsAt n).length ≤ 1) (tokenType : Option TokenType)
    (n : ℕ) : (h.tokenBucket tokenType n).length ≤ 1 := by
  rw [tokenBucket, (distinctHashes_of_single hsingle).bucket_eq]
  exact Nat.le_trans (List.length_filter_le _ _) (hsingle n)

lemma tokenTxs_strict (hsingle : ∀ n, (h.txsAt n).length ≤ 1) (tokenType : TokenType) :
    (h.tokenTxs tokenType).Pairwise fun x y => y.nonce < x.nonce :=
  (h.graded_tokenBucket (some tokenType)).between_strict
    (length_tokenBucket_le hsingle (some tokenType)) 0 h.length

/-- **With at most `SEND_ARITY` transactions down to the latest send, these are the active ones.** -/
lemma Gapless.activeTxs_eq (hg : h.Gapless) (hlen : h.length ≤ MAX_UINT32)
    (hsingle : ∀ n, (h.txsAt n).length ≤ 1) {tokenType : TokenType}
    (harity : (upToSend (h.tokenTxs tokenType)).length ≤ SEND_ARITY) :
    h.activeTxs tokenType = upToSend (h.tokenTxs tokenType) := by
  have htop : h.top none = h.length := Nat.min_self h.length
  have hstrict := tokenTxs_strict hsingle tokenType
  rw [activeTxs, hg.fetchTxs_eq hlen, htop, ← tokenTxs, takeGroups_eq_take hstrict, selectActiveTxs,
    activeTxsFrom_eq_upToSend (hstrict.sublist (List.take_sublist _ _)) (List.nil_append _).symm,
    List.nil_append, upToSend_take harity]

lemma mem_tokenTxs {tokenType : TokenType} {tx : ElusivTransaction} (hd : h.DistinctHashes)
    (htx : tx ∈ h.tokenTxs tokenType) : tx ∈ h.txsAt tx.nonce ∧ tx.tokenType = tokenType := by
  have hmem := ((h.graded_tokenBucket (some tokenType)).mem_between.mp htx).2.2
  rw [tokenBucket, hd.bucket_eq] at hmem
  obtain ⟨hmem, htoken⟩ := List.mem_filter.mp hmem
  exact ⟨hmem, by simpa [ElusivTransaction.hasToken] using htoken⟩

/-! ### The next nonce -/

variable {tx : ElusivTransaction} {pos : ℕ} {hstatus : tx.transactionStatus ≠ some .CONFIRMED}

lemma length_land (hnonce : tx.nonce = h.length) :
    (h.land tx pos hstatus).length = h.length + 1 := by
  show max h.length (tx.nonce + 1) = _
  omega

lemma txsAt_land_length (hnonce : tx.nonce = h.length) :
    (h.land tx pos hstatus).txsAt h.length = [tx] := by
  rw [← hnonce, txsAt_land_nonce, hnonce, h.eq_nil_of_length_le h.length (Nat.le_refl _), putAt,
    List.take_nil, List.drop_nil]
  rfl

/-- Nothing changes below the next nonce. -/
lemma txsAt_land_of_lt (hnonce : tx.nonce = h.length) {n : ℕ} (hn : n < h.length) :
    (h.land tx pos hstatus).txsAt n = h.txsAt n := txsAt_land_of_ne (by omega)

lemma mem_land_length (hnonce : tx.nonce = h.length) {n : ℕ} {x : ElusivTransaction}
    (hx : x ∈ (h.land tx pos hstatus).txsAt n) :
    x = tx ∧ n = h.length ∨ x ∈ h.txsAt n ∧ n < h.length := by
  rcases mem_land hx with rfl | hold
  · left
    exact ⟨rfl, by rw [← (h.land x pos hstatus).nonce_eq n x hx, hnonce]⟩
  · right
    refine ⟨hold, ?_⟩
    by_contra hge
    rw [h.eq_nil_of_length_le n (Nat.le_of_not_lt hge)] at hold
    exact List.not_mem_nil hold

lemma below_txsAt_land (hnonce : tx.nonce = h.length) {hi : ℕ} (hhi : hi ≤ h.length) :
    below (h.land tx pos hstatus).txsAt hi = below h.txsAt hi :=
  between_congr fun _ _ hn => txsAt_land_of_lt hnonce (Nat.lt_of_lt_of_le hn hhi)

lemma balanceBelow_land_of_le (hnonce : tx.nonce = h.length) {hi : ℕ} (hhi : hi ≤ h.length)
    (tokenType : TokenType) :
    (h.land tx pos hstatus).balanceBelow tokenType hi = h.balanceBelow tokenType hi := by
  rw [balanceBelow, balanceBelow, below_txsAt_land hnonce hhi]

lemma balanceBelow_land (hnonce : tx.nonce = h.length) (tokenType : TokenType) :
    (h.land tx pos hstatus).balanceBelow tokenType (h.length + 1)
      = (if tx.tokenType = tokenType then tx.value else 0) + h.balanceBelow tokenType h.length := by
  rw [balanceBelow, balanceBelow, below, between_succ (Nat.zero_le _), txsAt_land_length hnonce,
    ← below, below_txsAt_land hnonce (Nat.le_refl _), List.reverse_singleton, List.singleton_append,
    List.filter_cons]
  by_cases htoken : tx.tokenType = tokenType
  · rw [if_pos (by simpa [ElusivTransaction.hasToken] using htoken), if_pos htoken, sumValue_cons]
  · rw [if_neg (by simpa [ElusivTransaction.hasToken] using htoken), if_neg htoken, zero_add]

/-- The new transaction is the newest of its token. -/
lemma tokenTxs_land (hd : h.DistinctHashes) (hd' : (h.land tx pos hstatus).DistinctHashes)
    (hnonce : tx.nonce = h.length) (tokenType : TokenType) :
    (h.land tx pos hstatus).tokenTxs tokenType
      = if tx.tokenType = tokenType then tx :: h.tokenTxs tokenType else h.tokenTxs tokenType := by
  have hbelow : below ((h.land tx pos hstatus).tokenBucket (some tokenType)) h.length
      = h.tokenTxs tokenType := by
    refine between_congr fun n _ hn => ?_
    rw [tokenBucket, tokenBucket, hd.bucket_eq, hd'.bucket_eq, txsAt_land_of_lt hnonce hn]
  have hnew : (h.land tx pos hstatus).tokenBucket (some tokenType) h.length
      = if tx.tokenType = tokenType then [tx] else [] := by
    rw [tokenBucket, hd'.bucket_eq, txsAt_land_length hnonce, List.filter_singleton]
    simp [ElusivTransaction.hasToken]
  rw [tokenTxs, length_land hnonce, below, between_succ (Nat.zero_le _), hnew, ← below, hbelow]
  split_ifs
  · rfl
  · rfl

end History

/-! ## The chain of a client -/

namespace CommitmentScheme

/-- No two commitments that metadata can describe have one hash. -/
def Separates (scheme : CommitmentScheme) : Prop :=
  Function.Injective fun metadata : CommitmentMetadata =>
    scheme.getCommitmentHash (scheme.commFromMetadata metadata)

/-- Metadata describes the commitment of the transaction. -/
def Describes (scheme : CommitmentScheme) (metadata : CommitmentMetadata) (tx : ElusivTransaction) :
    Prop := metadata.nonce = tx.nonce ∧ scheme.commFromMetadata metadata = scheme.commitmentOf tx

end CommitmentScheme

/-- A chain of one client that waited for every transaction: one transaction on a nonce at most, whose
commitment is in range; the commitment of a send holds the balance right after it; and there is room for
the unspent commitments of each token. -/
structure SequentialChain (scheme : CommitmentScheme) (h : History) : Prop where
  gapless : h.Gapless
  single : ∀ n, (h.txsAt n).length ≤ 1
  tells : ∀ n, ∀ tx ∈ h.txsAt n, scheme.Tells tx
  described : ∀ n, ∀ tx ∈ h.txsAt n, ∃ metadata, scheme.Describes metadata tx
  balances : ∀ n, ∀ tx ∈ h.txsAt n, tx.txType = .SEND →
    (scheme.commitmentOf tx).balance = tx.value + h.balanceBelow tx.tokenType n
  arity : ∀ tokenType, (upToSend (h.tokenTxs tokenType)).length ≤ SEND_ARITY

lemma sumBalance_cons (comm : IncompleteCommitment) (comms : List IncompleteCommitment) :
    sumBalance (comm :: comms) = comm.balance + sumBalance comms := by
  rw [sumBalance, sumBalance, List.map_cons, List.sum_cons]

namespace SequentialChain

variable {scheme : CommitmentScheme} {h : History} (hs : SequentialChain scheme h)
include hs

lemma distinctHashes : h.DistinctHashes := History.distinctHashes_of_single hs.single

/-- The metadata on the chain holds the balances. -/
lemma metadataBalances : h.MetadataBalances := by
  intro n tx htx metadata hmetadata
  have htype := txType_of_metadata hmetadata
  have hbalance := hs.balances n tx htx htype
  have hcomm : (scheme.commitmentOf tx).balance = metadata.balance := by
    rw [CommitmentScheme.commitmentOf, hmetadata]
    rfl
  have hvalue : tx.value = -(tx.amount + tx.fee) := by
    rw [ElusivTransaction.value, htype]
  rw [← hcomm, hbalance, hvalue, h.balanceBelow_eq_sub,
    (History.oneSendPerNonce_of_single hs.single).sendSum_succ htx htype]
  ring

/-- Commitments are not negative, and that of a topup is its amount. -/
lemma balance_nonneg {n : ℕ} {tx : ElusivTransaction} (htx : tx ∈ h.txsAt n) :
    0 ≤ (scheme.commitmentOf tx).balance := by
  obtain ⟨metadata, -, hdescribes⟩ := hs.described n tx htx
  rw [← hdescribes]
  exact metadata.balance_nonneg

/-- Down to the latest send, the commitments hold everything. -/
lemma sumBalance_upToSend (tokenType : TokenType) (hi : ℕ) :
    sumBalance ((upToSend (below (h.tokenBucket (some tokenType)) hi)).map scheme.commitmentOf)
      = h.balanceBelow tokenType hi := by
  rw [hs.distinctHashes.balanceBelow_eq]
  induction hi with
  | zero => rfl
  | succ n ih =>
      rw [below, between_succ (Nat.zero_le n), ← below]
      have hlen := History.length_tokenBucket_le hs.single (some tokenType) n
      rcases hbucket : h.tokenBucket (some tokenType) n with _ | ⟨tx, _ | ⟨tx', txs⟩⟩
      · exact ih
      · have hmem : tx ∈ h.tokenBucket (some tokenType) n := by
          rw [hbucket]
          exact List.mem_singleton_self tx
        rw [History.tokenBucket, hs.distinctHashes.bucket_eq] at hmem
        obtain ⟨htx, htoken⟩ := List.mem_filter.mp hmem
        obtain rfl : tx.tokenType = tokenType := by simpa [ElusivTransaction.hasToken] using htoken
        rw [List.reverse_singleton, List.singleton_append, upToSend, sumValue_cons]
        cases htype : tx.txType with
        | TOPUP =>
            show sumBalance (scheme.commitmentOf tx :: (upToSend _).map scheme.commitmentOf) = _
            rw [sumBalance_cons, ih, CommitmentScheme.commitmentOf_topup htype,
              ElusivTransaction.value, htype]
            rfl
        | SEND =>
            show sumBalance [scheme.commitmentOf tx] = _
            rw [sumBalance_cons, hs.balances n tx htx htype, hs.distinctHashes.balanceBelow_eq]
            exact add_zero _
      · rw [hbucket, List.length_cons, List.length_cons] at hlen
        omega

/-- What can be spent is never negative. -/
lemma balanceBelow_nonneg (tokenType : TokenType) (hi : ℕ) : 0 ≤ h.balanceBelow tokenType hi := by
  rw [← hs.sumBalance_upToSend]
  refine List.sum_nonneg fun x hx => ?_
  obtain ⟨comm, hcomm, rfl⟩ := List.mem_map.mp hx
  obtain ⟨tx, htx, rfl⟩ := List.mem_map.mp hcomm
  obtain ⟨n, -, -, hmem⟩ := mem_between.mp ((upToSend_sublist _).subset htx)
  rw [History.tokenBucket, hs.distinctHashes.bucket_eq] at hmem
  exact hs.balance_nonneg (List.mem_of_mem_filter hmem)

/-- The transactions of a token have pairwise different hashes. -/
lemma nodup_hashes (hsep : scheme.Separates) (tokenType : TokenType) :
    ((h.tokenTxs tokenType).map ElusivTransaction.commitmentHash).Nodup := by
  refine List.pairwise_map.mpr ((History.tokenTxs_strict hs.single tokenType).imp_of_mem ?_)
  intro x y hx hy hlt heq
  have hx := (History.mem_tokenTxs hs.distinctHashes hx).1
  have hy := (History.mem_tokenTxs hs.distinctHashes hy).1
  obtain ⟨metadata, hnonce, hcomm⟩ := hs.described _ x hx
  obtain ⟨metadata', hnonce', hcomm'⟩ := hs.described _ y hy
  have hsame : metadata = metadata' := by
    apply hsep
    show scheme.getCommitmentHash (scheme.commFromMetadata metadata)
      = scheme.getCommitmentHash (scheme.commFromMetadata metadata')
    rw [hcomm, hcomm', (hs.tells _ x hx).hash_eq, (hs.tells _ y hy).hash_eq, heq]
  rw [← hnonce, ← hnonce', hsame] at hlt
  exact lt_irrefl _ hlt

/-- The active transactions are those down to the latest send. -/
lemma activeTxs_eq (hlen : h.length ≤ MAX_UINT32) (tokenType : TokenType) :
    h.activeTxs tokenType = upToSend (h.tokenTxs tokenType) :=
  hs.gapless.activeTxs_eq hlen hs.single (hs.arity tokenType)

/-- **The active commitments hold the balance.** -/
theorem sumBalance_active (hlen : h.length ≤ MAX_UINT32) (tokenType : TokenType) :
    sumBalance ((sendsLast (h.activeTxs tokenType)).map scheme.commitmentOf)
      = h.balanceBelow tokenType h.length := by
  have hperm := ((sendsLast_perm (h.activeTxs tokenType)).map scheme.commitmentOf).map
    IncompleteCommitment.balance
  rw [sumBalance, hperm.sum_eq, ← sumBalance, hs.activeTxs_eq hlen]
  exact hs.sumBalance_upToSend tokenType h.length

/-- **The transaction of the next nonce** keeps the chain so, when its commitment accounts for it. -/
theorem land {tx : ElusivTransaction} (hnonce : tx.nonce = h.length) (htells : scheme.Tells tx)
    (hdescribed : ∃ metadata, scheme.Describes metadata tx)
    (hbalance : tx.txType = .SEND →
      (scheme.commitmentOf tx).balance = tx.value + h.balanceBelow tx.tokenType h.length)
    (harity : tx.txType = .TOPUP → (upToSend (h.tokenTxs tx.tokenType)).length < SEND_ARITY)
    (pos : ℕ) (hstatus : tx.transactionStatus ≠ some .CONFIRMED) :
    SequentialChain scheme (h.land tx pos hstatus) := by
  have hmem : ∀ {n : ℕ} {x : ElusivTransaction}, x ∈ (h.land tx pos hstatus).txsAt n →
      x = tx ∧ n = h.length ∨ x ∈ h.txsAt n ∧ n < h.length := History.mem_land_length hnonce
  have hsingle : ∀ n, ((h.land tx pos hstatus).txsAt n).length ≤ 1 := by
    intro n
    by_cases hn : n = h.length
    · rw [hn, History.txsAt_land_length hnonce]
      exact Nat.le_refl 1
    · rw [History.txsAt_land_of_ne (by omega)]
      exact hs.single n
  refine ⟨hs.gapless.land (Nat.le_of_eq hnonce) pos hstatus, hsingle, ?_, ?_, ?_, ?_⟩
  · intro n x hx
    rcases hmem hx with ⟨rfl, -⟩ | ⟨hold, -⟩
    · exact htells
    · exact hs.tells n x hold
  · intro n x hx
    rcases hmem hx with ⟨rfl, -⟩ | ⟨hold, -⟩
    · exact hdescribed
    · exact hs.described n x hold
  · intro n x hx htype
    rcases hmem hx with ⟨rfl, rfl⟩ | ⟨hold, hn⟩
    · rw [History.balanceBelow_land_of_le hnonce (Nat.le_refl _)]
      exact hbalance htype
    · rw [History.balanceBelow_land_of_le hnonce (Nat.le_of_lt hn)]
      exact hs.balances n x hold htype
  · intro tokenType
    rw [History.tokenTxs_land hs.distinctHashes (History.distinctHashes_of_single hsingle) hnonce]
    split_ifs with htoken
    · subst htoken
      rw [upToSend]
      cases htype : tx.txType with
      | SEND => exact show 1 ≤ SEND_ARITY by decide
      | TOPUP => exact harity htype
    · exact hs.arity tokenType

end SequentialChain

end ElusivSdk
