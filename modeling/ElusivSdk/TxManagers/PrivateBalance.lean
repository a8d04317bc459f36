import ElusivSdk.Encoding.Base58
import ElusivSdk.TxManagers.TransactionManager
import Mathlib.Tactic.Ring
import Mathlib.Tactic.Linarith

/-!
# The private balance

The balance of a token can be read in two ways.  The slow one adds up every transaction of the
history.  The fast one goes back only to the latest send that carries metadata: the metadata holds the
balance right after that send, so only what came later is added, and the topups that share the nonce
of the send, which the send did not consume.

* `getPrivateBalanceFromTxHistory`, `getPrivateBalanceFromMetadata` — the two loops.  They walk the
  same batches of `fetchTxs`, from the newest nonce down.
* `History.balanceBelow` — what the transactions below a nonce add up to.
* `scanBatch_spec` — the walk over one batch either adds the whole batch or ends with the balance of
  everything.
* **`privateBalance_eq`** — on a chain whose metadata is right, both ways return the same sum.
-/

namespace ElusivSdk

open Descending Program

/-! ## The two loops -/

/-- How the walk over one batch ends: with the running total, or with the result of the call. -/
inductive Scan
  | total (totalBalance : ℤ)
  | done (balance : ℤ)
deriving DecidableEq, Repr

/-- The message names the identifier key, which has to be there. -/
def encounteredTwoSends (send : ElusivTransaction) : Failure :=
  match send.identifier with
  | some identifier =>
      .error ("Encountered two sends with same nonce at id key " ++ identifier.toBase58)
  | none => .typeError

/-- The inner loop of `getPrivateBalanceFromMetadata` over the rest of a batch. -/
def scanBatch : List ElusivTransaction → ℤ → Except Failure Scan
  | [], totalBalance => .ok (.total totalBalance)
  | tx :: remainingBatch, totalBalance =>
      match tx.txType with
      | .SEND =>
          match tx.metadata with
          | some metadata =>
              -- topups on the nonce of the send, whose commitments have not been used yet
              let sameNonce := remainingBatch.filter fun t => t.nonce == tx.nonce
              if (sameNonce.filter fun t => t.txType == .SEND).length != 0 then
                .error (encounteredTwoSends tx)
              else
                let sameNonceTopupSum := ((sameNonce.filter fun t => t.txType == .TOPUP).map
                  ElusivTransaction.amount).sum
                .ok (.done (metadata.balance + totalBalance + sameNonceTopupSum))
          | none => scanBatch remainingBatch (totalBalance - tx.amount - tx.fee)
      | .TOPUP => scanBatch remainingBatch (totalBalance + tx.amount)

/-- The local variables of both loops; `result` is set when the call has returned. -/
structure BalanceLoop where
  lowestFetchedNonce : ℤ
  totalBalance : ℤ
  result : Option ℤ

namespace BalanceLoop

def start (before : Option ℤ) : BalanceLoop :=
  { lowestFetchedNonce := before.getD MAX_SAFE_INTEGER, totalBalance := 0, result := none }

def continues (loop : BalanceLoop) : Bool :=
  loop.result.isNone && decide (0 ≤ loop.lowestFetchedNonce)

end BalanceLoop

section Methods

variable (getTxsFromNonces : List (ℕ × Bool) → Except Failure (List ElusivTransaction))

def txHistoryRound (fuel : ℕ) (tokenType : TokenType) (batchSize : ℕ) (loop : BalanceLoop) :
    ManagerM BalanceLoop := do
  let batch ← fetchTxs getTxsFromNonces fuel batchSize (some tokenType)
    (some loop.lowestFetchedNonce)
  let totalBalance := batch.foldl (fun totalBalance tx =>
    match tx.txType with
    | .TOPUP => totalBalance + tx.amount
    | .SEND => totalBalance - tx.amount - tx.fee) loop.totalBalance
  pure { loop with
    totalBalance := totalBalance
    lowestFetchedNonce := getLowestFetchedNonceFromBatch batch }

def getPrivateBalanceFromTxHistory (fuel : ℕ) (tokenType : TokenType) (before : Option ℤ)
    (batchSize : ℕ := DEFAULT_FETCH_BATCH_SIZE) : ManagerM ℤ := do
  let loop ← whileLoop Failure.outOfFuel BalanceLoop.continues
    (txHistoryRound getTxsFromNonces fuel tokenType batchSize) fuel (BalanceLoop.start before)
  pure loop.totalBalance

def metadataRound (fuel : ℕ) (tokenType : TokenType) (batchSize : ℕ) (loop : BalanceLoop) :
    ManagerM BalanceLoop := do
  let batch ← fetchTxs getTxsFromNonces fuel batchSize (some tokenType)
    (some loop.lowestFetchedNonce)
  let scan ← lift (scanBatch batch loop.totalBalance)
  match scan with
  | .done balance => pure { loop with result := some balance }
  | .total totalBalance =>
      pure { loop with
        totalBalance := totalBalance
        lowestFetchedNonce := getLowestFetchedNonceFromBatch batch }

def getPrivateBalanceFromMetadata (fuel : ℕ) (tokenType : TokenType) (before : Option ℤ)
    (batchSize : ℕ := DEFAULT_FETCH_BATCH_SIZE) : ManagerM ℤ := do
  let loop ← whileLoop Failure.outOfFuel BalanceLoop.continues
    (metadataRound getTxsFromNonces fuel tokenType batchSize) fuel (BalanceLoop.start before)
  pure (loop.result.getD loop.totalBalance)

def getPrivateBalance (fuel : ℕ) (tokenType : TokenType) (before : Option ℤ)
    (batchSize : ℕ := DEFAULT_FETCH_BATCH_SIZE) : ManagerM ℤ :=
  getPrivateBalanceFromMetadata getTxsFromNonces fuel tokenType before batchSize

end Methods

/-! ## What a history adds up to -/

def sumValue (txs : List ElusivTransaction) : ℤ := (txs.map ElusivTransaction.value).sum

@[simp]
lemma sumValue_nil : sumValue [] = 0 := rfl

@[simp]
lemma sumValue_cons (tx : ElusivTransaction) (txs : List ElusivTransaction) :
    sumValue (tx :: txs) = tx.value + sumValue txs := by
  simp [sumValue]

@[simp]
lemma sumValue_append (txs txs' : List ElusivTransaction) :
    sumValue (txs ++ txs') = sumValue txs + sumValue txs' := by
  simp [sumValue]

/-- A sum splits along a condition. -/
lemma sumValue_filter_add (p : ElusivTransaction → Bool) (txs : List ElusivTransaction) :
    sumValue (txs.filter p) + sumValue (txs.filter fun tx => !p tx) = sumValue txs := by
  induction txs with
  | nil => rfl
  | cons tx txs ih =>
      cases hp : p tx <;> simp [hp] <;> linarith

namespace History

/-- What the transactions of a token below a nonce add up to. -/
def balanceBelow (h : History) (tokenType : TokenType) (hi : ℕ) : ℤ :=
  sumValue ((below h.txsAt hi).filter fun tx => tx.hasToken (some tokenType))

/-- No token has two sends on one nonce. -/
def OneSendPerNonce (h : History) : Prop :=
  ∀ n tokenType, ((h.txsAt n).filter fun tx =>
    tx.hasToken (some tokenType) && tx.txType == .SEND).length ≤ 1

/-- The topups of a token below a nonce. -/
def topupSum (h : History) (tokenType : TokenType) (hi : ℕ) : ℤ :=
  (((below h.txsAt hi).filter fun tx => tx.hasToken (some tokenType) && tx.txType == .TOPUP).map
    ElusivTransaction.amount).sum

/-- The amounts and fees of the sends of a token below a nonce. -/
def sendSum (h : History) (tokenType : TokenType) (hi : ℕ) : ℤ :=
  (((below h.txsAt hi).filter fun tx => tx.hasToken (some tokenType) && tx.txType == .SEND).map
    fun tx => tx.amount + tx.fee).sum

/-- The metadata of every send holds the balance right after it: the topups with a smaller nonce less
the sends up to its own. -/
def MetadataBalances (h : History) : Prop :=
  ∀ n, ∀ tx ∈ h.txsAt n, ∀ metadata, tx.metadata = some metadata →
    metadata.balance = h.topupSum tx.tokenType n - h.sendSum tx.tokenType (n + 1)

variable {h : History}

/-- The metadata of a history can be checked send by send. -/
lemma metadataBalances_of_check (hcheck : ∀ n, n < h.length → ∀ tx ∈ h.txsAt n,
    tx.metadata.all (fun metadata =>
      metadata.balance == h.topupSum tx.tokenType n - h.sendSum tx.tokenType (n + 1)) = true) :
    h.MetadataBalances := by
  intro n tx htx metadata hmeta
  have hn : n < h.length := by
    by_contra hge
    rw [h.eq_nil_of_length_le n (by omega)] at htx
    exact List.not_mem_nil htx
  have := hcheck n hn tx htx
  rw [hmeta] at this
  simpa using this

lemma DistinctHashes.balanceBelow_eq (hd : h.DistinctHashes) (tokenType : TokenType) (hi : ℕ) :
    h.balanceBelow tokenType hi = sumValue (below (h.tokenBucket (some tokenType)) hi) := by
  rw [balanceBelow, below, ← between_congr fun n _ _ => hd.bucket_eq n, filter_between_bucket]

/-- The balance below `hi` is the balance below `m` and what lies between. -/
lemma DistinctHashes.balanceBelow_add (hd : h.DistinctHashes) (tokenType : TokenType) {m hi : ℕ}
    (hm : m ≤ hi) : sumValue (between (h.tokenBucket (some tokenType)) m hi)
      + h.balanceBelow tokenType m = h.balanceBelow tokenType hi := by
  rw [hd.balanceBelow_eq, hd.balanceBelow_eq, below, below, between_append (Nat.zero_le m) hm,
    sumValue_append]

/-- The balance is what was topped up less what was sent. -/
lemma balanceBelow_eq_sub (h : History) (tokenType : TokenType) (hi : ℕ) :
    h.balanceBelow tokenType hi = h.topupSum tokenType hi - h.sendSum tokenType hi := by
  unfold balanceBelow topupSum sendSum
  induction below h.txsAt hi with
  | nil => rfl
  | cons tx txs ih =>
      cases ht : tx.hasToken (some tokenType) with
      | false => simpa [ht] using ih
      | true =>
          cases hty : tx.txType with
          | TOPUP =>
              have hv : tx.value = tx.amount := by simp [ElusivTransaction.value, hty]
              simp only [List.filter_cons, ht, hty, if_true, Bool.true_and, beq_self_eq_true,
                sumValue_cons, List.map_cons, List.sum_cons, hv]
              simp only [ih, (by decide : (TxTypes.TOPUP == TxTypes.SEND) = false),
                Bool.false_eq_true, if_false]
              ring
          | SEND =>
              have hv : tx.value = -(tx.amount + tx.fee) := by simp [ElusivTransaction.value, hty]
              simp only [List.filter_cons, ht, hty, if_true, Bool.true_and, beq_self_eq_true,
                sumValue_cons, List.map_cons, List.sum_cons, hv]
              simp only [ih, (by decide : (TxTypes.SEND == TxTypes.TOPUP) = false),
                Bool.false_eq_true, if_false]
              ring

end History

lemma txType_of_metadata {tx : ElusivTransaction} {metadata : CommitmentMetadata}
    (hm : tx.metadata = some metadata) : tx.txType = .SEND := by
  unfold ElusivTransaction.metadata at hm
  unfold ElusivTransaction.txType
  cases hb : tx.body with
  | store fields => simp [hb] at hm
  | send fields => rfl

namespace History

variable {h : History}

/-- The only send of its token on a nonce is all that the nonce adds to the sends. -/
lemma OneSendPerNonce.sendSum_succ (hs : h.OneSendPerNonce) {n : ℕ} {tx : ElusivTransaction}
    (htx : tx ∈ h.txsAt n) (hty : tx.txType = .SEND) :
    h.sendSum tx.tokenType (n + 1) = (tx.amount + tx.fee) + h.sendSum tx.tokenType n := by
  have hmem : tx ∈ (h.txsAt n).filter fun t =>
      t.hasToken (some tx.tokenType) && t.txType == .SEND :=
    List.mem_filter.mpr ⟨htx, by simp [ElusivTransaction.hasToken, hty]⟩
  have hone : ((h.txsAt n).filter fun t =>
      t.hasToken (some tx.tokenType) && t.txType == .SEND) = [tx] := by
    obtain ⟨t, ht⟩ := List.length_eq_one_iff.mp
      (Nat.le_antisymm (hs n tx.tokenType) (List.length_pos_of_mem hmem))
    rw [ht] at hmem ⊢
    rw [List.mem_singleton.mp hmem]
  unfold sendSum
  rw [below, between_succ (Nat.zero_le n), List.filter_append, List.filter_reverse, hone]
  simp

/-- The metadata of a send holds the balance of everything before it and of the send itself. -/
lemma MetadataBalances.balance_eq (hm : h.MetadataBalances) (hs : h.OneSendPerNonce) {n : ℕ}
    {tx : ElusivTransaction} (htx : tx ∈ h.txsAt n) {metadata : CommitmentMetadata}
    (hmeta : tx.metadata = some metadata) :
    metadata.balance = tx.value + h.balanceBelow tx.tokenType n := by
  have hty := txType_of_metadata hmeta
  have hv : tx.value = -(tx.amount + tx.fee) := by simp [ElusivTransaction.value, hty]
  rw [hm n tx htx metadata hmeta, hs.sendSum_succ htx hty, balanceBelow_eq_sub, hv]
  ring

end History

/-! ## The walk over one batch -/

/-- What a batch must satisfy for the walk to be right, where `rest` is the balance below the batch:
after a send with metadata its nonce has only topups left, and the metadata accounts for the send, for
the lower nonces of the batch and for everything below. -/
def ScanOk (rest : ℤ) (batch : List ElusivTransaction) : Prop :=
  ∀ seen tx remaining, batch = seen ++ tx :: remaining → ∀ metadata, tx.metadata = some metadata →
    (∀ t ∈ remaining, t.nonce = tx.nonce → t.txType = .TOPUP) ∧
      metadata.balance
        = tx.value + (sumValue (remaining.filter fun t => t.nonce != tx.nonce) + rest)

lemma ScanOk.tail {rest : ℤ} {tx : ElusivTransaction} {batch : List ElusivTransaction}
    (h : ScanOk rest (tx :: batch)) : ScanOk rest batch :=
  fun seen t remaining heq => h (tx :: seen) t remaining (by rw [heq]; rfl)

lemma sum_amount_eq_sumValue {txs : List ElusivTransaction} (h : ∀ tx ∈ txs, tx.txType = .TOPUP) :
    (txs.map ElusivTransaction.amount).sum = sumValue txs := by
  unfold sumValue
  congr 1
  refine List.map_congr_left fun tx htx => ?_
  simp [ElusivTransaction.value, h tx htx]

/-- **The walk over a batch** adds the whole batch, or ends the call with the balance of the batch and
of everything below it. -/
lemma scanBatch_spec {rest : ℤ} :
    ∀ {batch : List ElusivTransaction} (totalBalance : ℤ), ScanOk rest batch →
      scanBatch batch totalBalance = .ok (.total (totalBalance + sumValue batch)) ∨
      scanBatch batch totalBalance = .ok (.done (totalBalance + sumValue batch + rest))
  | [], totalBalance, _ => by simp [scanBatch]
  | tx :: batch, totalBalance, hok => by
      rw [scanBatch, sumValue_cons]
      cases hty : tx.txType with
      | TOPUP =>
          have hv : tx.value = tx.amount := by simp [ElusivTransaction.value, hty]
          simp only [hv]
          have ih := scanBatch_spec (totalBalance + tx.amount) hok.tail
          rwa [add_assoc] at ih
      | SEND =>
          have hv : tx.value = -(tx.amount + tx.fee) := by simp [ElusivTransaction.value, hty]
          cases hmeta : tx.metadata with
          | none =>
              simp only
              have ih := scanBatch_spec (totalBalance - tx.amount - tx.fee) hok.tail
              have hsum : totalBalance - tx.amount - tx.fee + sumValue batch
                  = totalBalance + (tx.value + sumValue batch) := by
                rw [hv]
                ring
              rwa [hsum] at ih
          | some metadata =>
              obtain ⟨htopups, hbal⟩ := hok [] tx batch rfl metadata hmeta
              set sameNonce := batch.filter fun t => t.nonce == tx.nonce with hsame
              have hall : ∀ t ∈ sameNonce, t.txType = .TOPUP := fun t ht => by
                obtain ⟨hmem, hn⟩ := List.mem_filter.mp ht
                exact htopups t hmem (eq_of_beq hn)
              have hsends : sameNonce.filter (fun t => t.txType == .SEND) = [] :=
                List.filter_eq_nil_iff.mpr fun t ht => by
                  rw [hall t ht]
                  decide
              have hself : sameNonce.filter (fun t => t.txType == .TOPUP) = sameNonce :=
                List.filter_eq_self.mpr fun t ht => by
                  rw [hall t ht]
                  decide
              have hsplit := sumValue_filter_add (fun t => t.nonce == tx.nonce) batch
              right
              simp only [hsends, hself, List.length_nil, bne_self_eq_false, Bool.false_eq_true,
                if_false, sum_amount_eq_sumValue hall, hbal]
              rw [← hsplit]
              congr 2
              simp only [bne]
              ring

/-- A reading of whole nonces of a token is walked correctly. -/
lemma History.MetadataBalances.scanOk {h : History} (hm : h.MetadataBalances)
    (hs : h.OneSendPerNonce) (hd : h.DistinctHashes) (tokenType : TokenType) (m hi : ℕ) :
    ScanOk (h.balanceBelow tokenType m) (between (h.tokenBucket (some tokenType)) m hi) := by
  intro seen tx remaining heq metadata hmeta
  have hgraded := h.graded_tokenBucket (some tokenType)
  have htx : tx ∈ between (h.tokenBucket (some tokenType)) m hi := by
    rw [heq]
    simp
  obtain ⟨hlo, hhi, hmem⟩ := hgraded.mem_between.mp htx
  obtain ⟨hbucket, htoken⟩ := List.mem_filter.mp hmem
  obtain rfl : tx.tokenType = tokenType := by simpa [ElusivTransaction.hasToken] using htoken
  rw [hd.bucket_eq] at hbucket
  have hsend := txType_of_metadata hmeta
  -- the nonce of `tx`, read from the batch
  have hgroup := hgraded.filter_eq_between hlo hhi
  rw [heq, History.tokenBucket, hd.bucket_eq] at hgroup
  have hpair := hgraded.between_pairwise m hi
  rw [heq] at hpair
  obtain ⟨-, hpair₂, hcross⟩ := List.pairwise_append.mp hpair
  have hafter : ∀ t ∈ remaining, t.nonce ≤ tx.nonce := (List.pairwise_cons.mp hpair₂).1
  constructor
  · intro t ht hn
    cases hty : t.txType with
    | TOPUP => rfl
    | SEND =>
        exfalso
        have hone := hs tx.nonce tx.tokenType
        have hsub : [tx, t].Sublist ((h.txsAt tx.nonce).reverse.filter fun t =>
            t.hasToken (some tx.tokenType) && t.txType == .SEND) := by
          have hfilter : ((h.txsAt tx.nonce).reverse.filter fun t =>
              t.hasToken (some tx.tokenType) && t.txType == .SEND)
              = ((seen ++ tx :: remaining).filter fun x => decide (x.nonce = tx.nonce)).filter
                fun t => t.txType == .SEND := by
            rw [hgroup, ← List.filter_reverse, List.filter_filter]
            refine List.filter_congr fun x _ => ?_
            rw [Bool.and_comm]
          rw [hfilter]
          have hcons : [tx, t].Sublist (seen ++ tx :: remaining) :=
            ((List.singleton_sublist.mpr ht).cons_cons tx).trans (List.sublist_append_right _ _)
          have hfil := (hcons.filter fun x => decide (x.nonce = tx.nonce)).filter
            fun t => t.txType == .SEND
          simpa [hn, hsend, hty] using hfil
        have hlen := hsub.length_le
        rw [List.filter_reverse, List.length_reverse] at hlen
        simp only [List.length_cons, List.length_nil] at hlen
        omega
  · have hbelow : (remaining.filter fun t => t.nonce != tx.nonce)
        = between (h.tokenBucket (some tx.tokenType)) m tx.nonce := by
      rw [← hgraded.filter_lt_between hlo (Nat.le_of_lt hhi), heq, List.filter_append,
        List.filter_cons_of_neg (by simp)]
      have hseen : seen.filter (fun x => decide (x.nonce < tx.nonce)) = [] :=
        List.filter_eq_nil_iff.mpr fun x hx => by
          have := hcross x hx tx (by simp)
          simpa using this
      rw [hseen, List.nil_append]
      refine List.filter_congr fun x hx => ?_
      have hle := hafter x hx
      have hiff : x.nonce ≠ tx.nonce ↔ x.nonce < tx.nonce := by omega
      simp only [bne, ← hiff]
      by_cases hxe : x.nonce = tx.nonce <;> simp [hxe]
    rw [hbelow, hd.balanceBelow_add _ hlo]
    exact hm.balance_eq hs hbucket hmeta

/-! ## The loops -/

namespace History

variable {h : History}

/-- One batch of the loops: it is everything from some nonce `m` up, and the next round starts
there. -/
lemma Gapless.batch_spec (hg : h.Gapless) (hlen : h.length ≤ MAX_UINT32) {batchSize : ℕ}
    (hb : 0 < batchSize) (tokenType : TokenType) (lowest : ℤ) :
    ∃ m, m ≤ h.top (some lowest) ∧
      h.fetchTxs batchSize (some tokenType) (some lowest)
        = between (h.tokenBucket (some tokenType)) m (h.top (some lowest)) ∧
      h.top (some (getLowestFetchedNonceFromBatch
        (h.fetchTxs batchSize (some tokenType) (some lowest)))) = m ∧
      getLowestFetchedNonceFromBatch (h.fetchTxs batchSize (some tokenType) (some lowest))
        < h.top (some lowest) := by
  have htop := h.top_le (some lowest)
  rcases hg.fetchTxs_cases hlen hb (some tokenType) (some lowest) with
    ⟨hnil, hbelow⟩ | ⟨m, hm, hne, hbatch⟩
  · refine ⟨0, Nat.zero_le _, by rw [hnil]; exact hbelow.symm, ?_, ?_⟩
    · rw [hnil]
      simp [top]
    · rw [hnil, getLowestFetchedNonceFromBatch_nil]
      omega
  · have hlow : getLowestFetchedNonceFromBatch
        (h.fetchTxs batchSize (some tokenType) (some lowest)) = m := by
      rw [hbatch]
      exact getLowestFetchedNonceFromBatch_between (h.graded_tokenBucket _) hm hne (by omega)
    refine ⟨m, Nat.le_of_lt hm, hbatch, ?_, by rw [hlow]; omega⟩
    rw [hlow]
    simp only [top, Option.map_some, Option.getD_some]
    omega

/-- The rounds that are left: none once the call has returned. -/
def balanceVariant (h : History) (loop : BalanceLoop) : ℕ :=
  if loop.result.isNone then (min (loop.lowestFetchedNonce + 1) (h.length + 1)).toNat else 0

lemma balanceVariant_start_lt {fuel : ℕ}
    (hfuel : h.length + DEFAULT_FETCH_BATCH_SIZE + 3 ≤ fuel) (before : Option ℤ) :
    h.balanceVariant (BalanceLoop.start before) < fuel := by
  simp only [balanceVariant, BalanceLoop.start, Option.isNone_none, if_true]
  omega

/-- What both loops keep: the manager is coherent, and the total and what is left below make up the
balance; a result is the balance. -/
structure BalanceInv (h : History) (tokenType : TokenType) (hi : ℕ) (loop : BalanceLoop)
    (m : TxManager) : Prop where
  coherent : Coherent h m
  total : loop.result = none →
    loop.totalBalance + h.balanceBelow tokenType (h.top (some loop.lowestFetchedNonce))
      = h.balanceBelow tokenType hi
  result : ∀ balance, loop.result = some balance → balance = h.balanceBelow tokenType hi

/-- Both loops start at the bound they were called with. -/
lemma top_start (hlen : h.length ≤ MAX_UINT32) (before : Option ℤ) :
    h.top (some (BalanceLoop.start before).lowestFetchedNonce) = h.top before := by
  cases before with
  | none =>
      have hmax : MAX_UINT32 ≤ MAX_SAFE_INTEGER := by decide
      simp only [BalanceLoop.start, top, Option.map_some, Option.getD_some, Option.map_none,
        Option.getD_none]
      omega
  | some b => rfl

lemma BalanceInv.start (hlen : h.length ≤ MAX_UINT32) {m : TxManager} (hc : Coherent h m)
    (tokenType : TokenType) (before : Option ℤ) :
    BalanceInv h tokenType (h.top before) (BalanceLoop.start before) m := by
  refine ⟨hc, fun _ => ?_, fun balance hb => by simp [BalanceLoop.start] at hb⟩
  rw [top_start hlen]
  simp [BalanceLoop.start]

/-- When a loop ends, what it returns is the balance. -/
lemma BalanceInv.balance_eq {tokenType : TokenType} {hi : ℕ} {loop : BalanceLoop} {m : TxManager}
    (hinv : BalanceInv h tokenType hi loop m) (hend : loop.continues = false) :
    loop.result.getD loop.totalBalance = h.balanceBelow tokenType hi := by
  cases hr : loop.result with
  | some balance => exact hinv.result balance hr
  | none =>
      have htotal := hinv.total hr
      have hneg : loop.lowestFetchedNonce < 0 := by
        simpa [BalanceLoop.continues, hr] using hend
      have htop : h.top (some loop.lowestFetchedNonce) = 0 := by
        simp only [top, Option.map_some, Option.getD_some]
        omega
      rw [htop] at htotal
      simpa [balanceBelow] using htotal

/-- A round that added the whole batch keeps the invariant. -/
lemma BalanceInv.add_batch (hg : h.Gapless) (hlen : h.length ≤ MAX_UINT32) (hd : h.DistinctHashes)
    {batchSize : ℕ} (hb : 0 < batchSize) {tokenType : TokenType} {hi : ℕ} {loop : BalanceLoop}
    {m m' : TxManager} (hinv : BalanceInv h tokenType hi loop m) (hc : Coherent h m')
    (hcont : loop.continues = true) :
    let batch := h.fetchTxs batchSize (some tokenType) (some loop.lowestFetchedNonce)
    let loop' : BalanceLoop := { loop with
      totalBalance := loop.totalBalance + sumValue batch
      lowestFetchedNonce := getLowestFetchedNonceFromBatch batch }
    BalanceInv h tokenType hi loop' m' ∧ h.balanceVariant loop' < h.balanceVariant loop := by
  intro batch loop'
  simp only [BalanceLoop.continues, Bool.and_eq_true, Option.isNone_iff_eq_none,
    decide_eq_true_eq] at hcont
  obtain ⟨hnone, hpos⟩ := hcont
  obtain ⟨k, hk, hbatch, hnext, hlt⟩ := hg.batch_spec hlen hb tokenType loop.lowestFetchedNonce
  have htop : (h.top (some loop.lowestFetchedNonce) : ℤ)
      = min (h.length : ℤ) loop.lowestFetchedNonce := by
    simp only [top, Option.map_some, Option.getD_some]
    omega
  refine ⟨⟨hc, fun _ => ?_, fun balance hres => by simp [loop', hnone] at hres⟩, ?_⟩
  · have hsum := hd.balanceBelow_add tokenType hk
    have htotal := hinv.total hnone
    simp only [loop', batch, hnext]
    rw [hbatch]
    linarith
  · simp only [balanceVariant, loop', batch, hnone, Option.isNone_none, if_true]
    omega

end History

lemma foldl_balance (batch : List ElusivTransaction) (totalBalance : ℤ) :
    batch.foldl (fun totalBalance tx =>
      match tx.txType with
      | .TOPUP => totalBalance + tx.amount
      | .SEND => totalBalance - tx.amount - tx.fee) totalBalance
      = totalBalance + sumValue batch := by
  induction batch generalizing totalBalance with
  | nil => simp
  | cons tx batch ih =>
      rw [List.foldl_cons, ih, sumValue_cons]
      cases hty : tx.txType with
      | TOPUP => simp only [ElusivTransaction.value, hty]; ring
      | SEND => simp only [ElusivTransaction.value, hty]; ring

section Specs

variable {h : History} {m₀ : TxManager} (tokenType : TokenType) {batchSize fuel : ℕ}

/-- **The slow path adds up the whole history.** -/
theorem getPrivateBalanceFromTxHistory_spec (hg : h.Gapless) (hlen : h.length ≤ MAX_UINT32)
    (hd : h.DistinctHashes) (hc : Coherent h m₀) (hb : 0 < batchSize)
    (hfuel : h.length + DEFAULT_FETCH_BATCH_SIZE + 3 ≤ fuel) (before : Option ℤ) :
    Total (fun m => m = m₀)
      (getPrivateBalanceFromTxHistory h.fetcher fuel tokenType before batchSize)
      fun balance m => balance = h.balanceBelow tokenType (h.top before) ∧ Coherent h m := by
  have hgaps : h.GapsBelow DEFAULT_FETCH_BATCH_SIZE := hg.gapsBelow (by decide)
  have hround : ∀ loop : BalanceLoop, loop.continues = true →
      Total (fun m => h.BalanceInv tokenType (h.top before) loop m ∧ loop.result = none)
        (txHistoryRound h.fetcher fuel tokenType batchSize loop) fun loop' m =>
        (h.BalanceInv tokenType (h.top before) loop' m ∧ loop'.result = none) ∧
          h.balanceVariant loop' < h.balanceVariant loop := by
    intro loop hcont
    refine Triple.of_forall fun m hm => ?_
    refine Triple.bind (fetchTxs_spec hm.1.coherent hgaps hfuel batchSize (some tokenType)
      (some loop.lowestFetchedNonce)) fun batch => Triple.ret ?_
    rintro m' ⟨rfl, hmarked⟩
    simp only [foldl_balance]
    obtain ⟨hinv, hvar⟩ := hm.1.add_batch hg hlen hd hb hmarked.coherent hcont
    exact ⟨⟨hinv, hm.2⟩, hvar⟩
  rw [getPrivateBalanceFromTxHistory]
  refine Triple.bind (Triple.mono (Triple.loop _ h.balanceVariant hround fuel _
    (h.balanceVariant_start_lt hfuel before)) (fun m hm => ?_) (fun _ _ hq => hq) fun _ _ he => he)
    fun loop => Triple.ret fun m hm => ?_
  · subst hm
    exact ⟨History.BalanceInv.start hlen hc tokenType before, rfl⟩
  · have hbal := hm.1.1.balance_eq hm.2
    rw [hm.1.2] at hbal
    exact ⟨hbal, hm.1.1.coherent⟩

/-- **The fast path returns the same, when the metadata is right.** -/
theorem getPrivateBalanceFromMetadata_spec (hg : h.Gapless) (hlen : h.length ≤ MAX_UINT32)
    (hd : h.DistinctHashes) (hs : h.OneSendPerNonce) (hm : h.MetadataBalances)
    (hc : Coherent h m₀) (hb : 0 < batchSize)
    (hfuel : h.length + DEFAULT_FETCH_BATCH_SIZE + 3 ≤ fuel) (before : Option ℤ) :
    Total (fun m => m = m₀)
      (getPrivateBalanceFromMetadata h.fetcher fuel tokenType before batchSize)
      fun balance m => balance = h.balanceBelow tokenType (h.top before) ∧ Coherent h m := by
  have hgaps : h.GapsBelow DEFAULT_FETCH_BATCH_SIZE := hg.gapsBelow (by decide)
  have hround : ∀ loop : BalanceLoop, loop.continues = true →
      Total (h.BalanceInv tokenType (h.top before) loop)
        (metadataRound h.fetcher fuel tokenType batchSize loop) fun loop' m =>
        h.BalanceInv tokenType (h.top before) loop' m ∧
          h.balanceVariant loop' < h.balanceVariant loop := by
    intro loop hcont
    refine Triple.of_forall fun s hinv => ?_
    refine Triple.bind (fetchTxs_spec hinv.coherent hgaps hfuel batchSize (some tokenType)
      (some loop.lowestFetchedNonce)) fun batch => ?_
    rintro s' ⟨rfl, hmarked⟩
    have hcont' := hcont
    simp only [BalanceLoop.continues, Bool.and_eq_true, Option.isNone_iff_eq_none,
      decide_eq_true_eq] at hcont'
    obtain ⟨k, hk, hbatch, -, -⟩ := hg.batch_spec hlen hb tokenType loop.lowestFetchedNonce
    have hok := hm.scanOk hs hd tokenType k (h.top (some loop.lowestFetchedNonce))
    rw [← hbatch] at hok
    rcases scanBatch_spec loop.totalBalance hok with htotal | hdone
    · rw [htotal]
      exact hinv.add_batch hg hlen hd hb hmarked.coherent hcont
    · rw [hdone]
      refine ⟨⟨hmarked.coherent, fun hn => by simp at hn, fun balance hbal => ?_⟩, ?_⟩
      · have hsum := hd.balanceBelow_add tokenType hk
        have htotal := hinv.total hcont'.1
        rw [← hbatch] at hsum
        obtain rfl := Option.some.inj hbal
        linarith
      · simp only [History.balanceVariant, hcont'.1, Option.isNone_none, if_true,
          Option.isNone_some, Bool.false_eq_true, if_false]
        omega
  rw [getPrivateBalanceFromMetadata]
  refine Triple.bind (Triple.mono (Triple.loop _ h.balanceVariant hround fuel _
    (h.balanceVariant_start_lt hfuel before)) (fun m hm => ?_) (fun _ _ hq => hq) fun _ _ he => he)
    fun loop => Triple.ret fun m hm => ⟨hm.1.balance_eq hm.2, hm.1.coherent⟩
  subst hm
  exact History.BalanceInv.start hlen hc tokenType before

end Specs

/-- **Both ways of reading the private balance terminate and agree.**  From every coherent manager, for
every token, bound and batch size, they return what the transactions of the token below the bound add
up to. -/
theorem privateBalance_eq {h : History} (hg : h.Gapless) (hlen : h.length ≤ MAX_UINT32)
    (hd : h.DistinctHashes) (hs : h.OneSendPerNonce) (hm : h.MetadataBalances) {m : TxManager}
    (hc : Coherent h m) (tokenType : TokenType) (before : Option ℤ) {batchSize : ℕ}
    (hb : 1 ≤ batchSize) :
    ∃ enough, ∀ fuel, enough ≤ fuel →
      (exec (getPrivateBalanceFromMetadata h.fetcher fuel tokenType before batchSize) m).1
        = .ok (h.balanceBelow tokenType (h.top before)) ∧
      (exec (getPrivateBalanceFromTxHistory h.fetcher fuel tokenType before batchSize) m).1
        = .ok (h.balanceBelow tokenType (h.top before)) := by
  refine ⟨h.length + DEFAULT_FETCH_BATCH_SIZE + 3, fun fuel hfuel => ?_⟩
  obtain ⟨fast, m₁, hfast, rfl, -⟩ := Total.run
    (getPrivateBalanceFromMetadata_spec tokenType hg hlen hd hs hm hc hb hfuel before) rfl
  obtain ⟨slow, m₂, hslow, rfl, -⟩ := Total.run
    (getPrivateBalanceFromTxHistory_spec tokenType hg hlen hd hc hb hfuel before) rfl
  rw [hfast, hslow]
  exact ⟨rfl, rfl⟩

/-- Two topups, a send with metadata that shares its nonce with a later topup, and a legacy send. -/
def balanceHistory : History :=
  .ofList [.bareTopup 0 .LAMPORTS 100 1, .bareTopup 1 .LAMPORTS 10 2,
    .bareSend 1 .LAMPORTS 30 5 3 (some ⟨1, .LAMPORTS, 0, 65, by decide, by decide, by decide, by decide⟩),
    .bareTopup 2 .USDC 7 4, .bareSend 3 .LAMPORTS 20 2 5 none] (by decide)

theorem privateBalance_eq_balanceHistory :
    ∃ enough, ∀ fuel, enough ≤ fuel →
      (exec (getPrivateBalanceFromMetadata balanceHistory.fetcher fuel .LAMPORTS none 1) .new).1
        = .ok 53 ∧
      (exec (getPrivateBalanceFromTxHistory balanceHistory.fetcher fuel .LAMPORTS none 1) .new).1
        = .ok 53 := by
  have hbal : balanceHistory.balanceBelow .LAMPORTS (balanceHistory.top none) = 53 := by decide
  have h := privateBalance_eq (h := balanceHistory) (by unfold History.Gapless; decide) (by decide)
    (History.forall_nonce_of_lt (by simp) (by decide))
    (fun n tokenType => History.forall_nonce_of_lt
      (P := fun _ txs => (txs.filter fun tx =>
        tx.hasToken (some tokenType) && tx.txType == .SEND).length ≤ 1) (by simp)
      (by cases tokenType <;> decide) n)
    (History.metadataBalances_of_check (by decide))
    (coherent_new balanceHistory) .LAMPORTS none (Nat.le_refl 1)
  rwa [hbal] at h

end ElusivSdk
