import ElusivSdk.ParamManagers.Fee.FeeCalculator
import Mathlib.Algebra.Order.BigOperators.Group.List

/-!
# The fee of a send pays for the send

The amount of a send, fee included, is a public input of its proof, and the rounds that a public input takes
depend on its bytes.  So the fee depends on the transactions that the fee itself causes.  One input never
takes more than one transaction of its own, which is why the search for the fee ends.

* `addInput_spec` — what one more input does to the transactions, whatever its bytes are.
* `txCount_append` — the count with one more input is the count without, and what the extra input takes.
* **`getInputPreparationTxCountNoAmount_incremental`** — the count is incremental, and at no moment does the
  open transaction take more than it may.
* `getSendTotalFeeInner_eq` — the fee in closed form: the extra transactions are those of the amount
  without them.
* **`getSendTotalFeeInner_covers`** — the fee pays for the transactions of the amount with the fee, and
  with one compensation less it would not.
-/

namespace ElusivSdk

open Program

/-! ## The transactions of public inputs -/

namespace InputPreparation

/-- Rounds that fit go to the open transaction. -/
lemma foldl_addRound_of_fits (costs : List ℕ) (s : InputPreparation)
    (hfits : s.computeUnits + costs.sum ≤ MAX_CUS) :
    costs.foldl addRound s
      = { s with rounds := s.rounds + costs.length, computeUnits := s.computeUnits + costs.sum } := by
  induction costs generalizing s with
  | nil => rfl
  | cons cus costs ih =>
      rw [List.sum_cons] at hfits
      have hround : s.addRound cus
          = { s with rounds := s.rounds + 1, computeUnits := s.computeUnits + cus } :=
        if_neg (by omega)
      rw [List.foldl_cons, hround, ih _ (by show s.computeUnits + cus + _ ≤ _; omega),
        List.length_cons, List.sum_cons, Nat.add_assoc, Nat.add_assoc, Nat.add_comm 1]

/-- Rounds that fit into one transaction, but not into the open one, open exactly one more. -/
lemma length_foldl_addRound_of_overflow (costs : List ℕ) (s : InputPreparation)
    (hopen : s.computeUnits ≤ MAX_CUS) (hone : costs.sum ≤ MAX_CUS)
    (hover : MAX_CUS < s.computeUnits + costs.sum) :
    (costs.foldl addRound s).instructions.length = s.instructions.length + 1 := by
  induction costs generalizing s with
  | nil => exact absurd hover (Nat.not_lt_of_le hopen)
  | cons cus costs ih =>
      rw [List.sum_cons] at hone hover
      rw [List.foldl_cons]
      by_cases hfull : s.computeUnits + cus > MAX_CUS
      · -- the new transaction takes all that is left
        have hround : s.addRound cus
            = { instructions := s.instructions ++ [s.rounds], rounds := 1, computeUnits := cus } :=
          if_pos hfull
        rw [hround, foldl_addRound_of_fits costs _ hone]
        exact List.length_append
      · have hround : s.addRound cus
            = { s with rounds := s.rounds + 1, computeUnits := s.computeUnits + cus } :=
          if_neg hfull
        rw [hround]
        refine ih _ (Nat.le_of_not_lt hfull) (by omega) ?_
        show MAX_CUS < s.computeUnits + cus + costs.sum
        omega

/-- The open transaction has a round, and no more than fits. -/
structure Filling (s : InputPreparation) : Prop where
  rounds_pos : 0 < s.rounds
  computeUnits_le : s.computeUnits ≤ MAX_CUS

lemma filling_addRound (s : InputPreparation) {cus : ℕ} (hcus : cus ≤ MAX_CUS) :
    (s.addRound cus).Filling := by
  rw [addRound]
  split_ifs with hfull
  · exact ⟨Nat.one_pos, hcus⟩
  · exact ⟨Nat.succ_pos _, Nat.le_of_not_lt hfull⟩

/-- The last round of an input is the one for the whole. -/
lemma filling_addInput (s : InputPreparation) (publicInput : ℕ) : (s.addInput publicInput).Filling := by
  rw [addInput, roundCosts, List.foldl_append]
  exact filling_addRound _ (by split_ifs <;> decide)

/-- **One input fits into one transaction**, whatever its bytes are. -/
lemma sum_roundCosts_le (publicInput : ℕ) : (roundCosts publicInput).sum ≤ MAX_CUS := by
  have hbyte : ∀ cus ∈ (Format.leBytes 32 publicInput).map
      (fun b => if b = 0 then 0 else ADD_MIXED_COST), cus ≤ ADD_MIXED_COST := by
    intro cus hcus
    obtain ⟨b, -, rfl⟩ := List.mem_map.mp hcus
    split_ifs
    · exact Nat.zero_le _
    · exact le_refl _
  have hbytes := List.sum_le_card_nsmul _ _ hbyte
  rw [List.length_map, Format.length_leBytes] at hbytes
  have hlast : (if publicInput = 0 then 0 else ADD_COST) ≤ ADD_COST := by
    split_ifs
    · exact Nat.zero_le _
    · exact le_refl _
  rw [roundCosts, List.sum_append, List.sum_singleton]
  calc _ ≤ 32 • ADD_MIXED_COST + ADD_COST := Nat.add_le_add hbytes hlast
    _ ≤ MAX_CUS := by decide

lemma txCount_of_filling {s : InputPreparation} (h : s.Filling) :
    s.txCount = s.instructions.length + 1 := if_pos h.rounds_pos

/-- **One more input** goes to the open transaction when all of its rounds fit, else it takes one more. -/
lemma addInput_spec {s : InputPreparation} (hopen : s.computeUnits ≤ MAX_CUS) (publicInput : ℕ) :
    (s.addInput publicInput).txCount = s.instructions.length + 1
        + if (roundCosts publicInput).sum + s.computeUnits > MAX_CUS then 1 else 0 := by
  rw [txCount_of_filling (filling_addInput s publicInput), addInput]
  split_ifs with hover
  · rw [length_foldl_addRound_of_overflow _ s hopen (sum_roundCosts_le publicInput) (by omega)]
  · rw [foldl_addRound_of_fits _ s (by omega)]

end InputPreparation

open InputPreparation

/-- A single input takes one transaction. -/
lemma getInputPreparationTxCountNoAmount_singleton (input : ℕ) :
    getInputPreparationTxCountNoAmount [input] = (1, (roundCosts input).sum) := by
  have hunits : start.computeUnits = 0 := rfl
  have hfits : start.computeUnits + (roundCosts input).sum ≤ MAX_CUS := by
    rw [hunits, Nat.zero_add]
    exact sum_roundCosts_le input
  rw [getInputPreparationTxCountNoAmount, List.foldl_cons, List.foldl_nil,
    txCount_of_filling (filling_addInput start input), addInput, foldl_addRound_of_fits _ _ hfits,
    hunits, Nat.zero_add]
  rfl

/-- An extra input takes a transaction when its rounds do not fit into the last one. -/
lemma getTxCountForExtraInput_eq (input startingCUs : ℕ) :
    getTxCountForExtraInput input startingCUs
      = if (roundCosts input).sum + startingCUs > MAX_CUS then 1 else 0 := by
  rw [getTxCountForExtraInput, getInputPreparationTxCountNoAmount_singleton]
  exact Nat.zero_add _

lemma getTxCountForExtraInput_le_one (input startingCUs : ℕ) :
    getTxCountForExtraInput input startingCUs ≤ 1 := by
  rw [getTxCountForExtraInput_eq]
  split_ifs
  · exact le_refl 1
  · exact Nat.zero_le 1

lemma filling_foldl_addInput {publicInputs : List ℕ} (hne : publicInputs ≠ []) :
    (publicInputs.foldl addInput start).Filling := by
  obtain rfl | ⟨init, last, rfl⟩ := List.eq_nil_or_concat publicInputs
  · exact absurd rfl hne
  · rw [List.concat_eq_append, List.foldl_append, List.foldl_cons, List.foldl_nil]
    exact filling_addInput _ last

/-- The last transaction never takes more than it may. -/
lemma computeUnits_le (publicInputs : List ℕ) :
    (getInputPreparationTxCountNoAmount publicInputs).2 ≤ MAX_CUS := by
  by_cases hne : publicInputs = []
  · rw [hne]
    exact Nat.zero_le _
  · exact (filling_foldl_addInput hne).computeUnits_le

/-- Zero has no bytes to add. -/
lemma getTxCountForExtraInput_zero (publicInputs : List ℕ) :
    getTxCountForExtraInput 0 (getInputPreparationTxCountNoAmount publicInputs).2 = 0 := by
  have hnone : (roundCosts 0).sum = 0 := by decide
  rw [getTxCountForExtraInput_eq, hnone, Nat.zero_add]
  exact if_neg (Nat.not_lt_of_le (computeUnits_le publicInputs))

/-- **The count with one more input** is the count without it, and what the extra input takes. -/
theorem txCount_append {publicInputs : List ℕ} (hne : publicInputs ≠ []) (input : ℕ) :
    (getInputPreparationTxCountNoAmount (publicInputs ++ [input])).1
      = (getInputPreparationTxCountNoAmount publicInputs).1
        + getTxCountForExtraInput input (getInputPreparationTxCountNoAmount publicInputs).2 := by
  have hfilling := filling_foldl_addInput hne
  rw [getTxCountForExtraInput_eq, getInputPreparationTxCountNoAmount,
    getInputPreparationTxCountNoAmount]
  dsimp only
  rw [List.foldl_append, List.foldl_cons, List.foldl_nil, addInput_spec hfilling.computeUnits_le,
    txCount_of_filling hfilling]

namespace InputPreparation

/-- The simulation after so many of its rounds. -/
def afterRounds (publicInputs : List ℕ) (n : ℕ) : InputPreparation :=
  ((publicInputs.flatMap roundCosts).take n).foldl addRound start

lemma length_roundCosts (publicInput : ℕ) : (roundCosts publicInput).length = 33 := by
  rw [roundCosts, List.length_append, List.length_map, Format.length_leBytes, List.length_singleton]

/-- Each input takes 33 rounds. -/
lemma foldl_addInput_eq_afterRounds (publicInputs : List ℕ) :
    publicInputs.foldl addInput start = afterRounds publicInputs (33 * publicInputs.length) := by
  have hlength : (publicInputs.flatMap roundCosts).length = 33 * publicInputs.length := by
    induction publicInputs with
    | nil => rfl
    | cons publicInput publicInputs ih =>
        rw [List.flatMap_cons, List.length_append, ih, length_roundCosts, List.length_cons]
        omega
  rw [afterRounds, ← hlength, List.take_length, List.foldl_flatMap]
  rfl

/-- No round alone takes more than a transaction may. -/
lemma le_of_mem_roundCosts {publicInput cus : ℕ} (h : cus ∈ roundCosts publicInput) : cus ≤ MAX_CUS :=
  le_trans (List.single_le_sum (fun _ _ => Nat.zero_le _) cus h) (sum_roundCosts_le publicInput)

lemma computeUnits_foldl_addRound_le {costs : List ℕ} (hcosts : ∀ cus ∈ costs, cus ≤ MAX_CUS) :
    ∀ {s : InputPreparation}, s.computeUnits ≤ MAX_CUS → (costs.foldl addRound s).computeUnits ≤ MAX_CUS := by
  induction costs with
  | nil => exact id
  | cons cus costs ih =>
      intro s _
      have hround := filling_addRound s (hcosts cus List.mem_cons_self)
      exact ih (fun c hc => hcosts c (List.mem_cons_of_mem _ hc)) hround.computeUnits_le

lemma computeUnits_afterRounds_le (publicInputs : List ℕ) (n : ℕ) :
    (afterRounds publicInputs n).computeUnits ≤ MAX_CUS := by
  refine computeUnits_foldl_addRound_le (fun cus hcus => ?_) (Nat.zero_le _)
  obtain ⟨publicInput, -, hmem⟩ := List.mem_flatMap.mp (List.mem_of_mem_take hcus)
  exact le_of_mem_roundCosts hmem

end InputPreparation

/-- **The count is incremental**, and after no round does the open transaction take more than it may. -/
theorem getInputPreparationTxCountNoAmount_incremental {publicInputs : List ℕ} (hne : publicInputs ≠ []) :
    (∀ input, (getInputPreparationTxCountNoAmount (publicInputs ++ [input])).1
      = (getInputPreparationTxCountNoAmount publicInputs).1
        + getTxCountForExtraInput input (getInputPreparationTxCountNoAmount publicInputs).2) ∧
    publicInputs.foldl addInput start = afterRounds publicInputs (33 * publicInputs.length) ∧
    ∀ n, (afterRounds publicInputs n).computeUnits ≤ MAX_CUS :=
  ⟨txCount_append hne, foldl_addInput_eq_afterRounds publicInputs, computeUnits_afterRounds_le publicInputs⟩

/-- Two inputs without a zero byte do not fit into one transaction. -/
theorem getInputPreparationTxCountNoAmount_incremental_wide :
    (getInputPreparationTxCountNoAmount ([2 ^ 256 - 1] ++ [2 ^ 256 - 1])).1 = 1 + 1 ∧
      (afterRounds [2 ^ 256 - 1] 20).computeUnits ≤ MAX_CUS := by
  obtain ⟨hcount, -, hunits⟩ :=
    getInputPreparationTxCountNoAmount_incremental (List.cons_ne_nil (2 ^ 256 - 1) [])
  have hsum : (roundCosts (2 ^ 256 - 1)).sum = 734000 := by decide +kernel
  refine ⟨?_, hunits 20⟩
  rw [hcount, getInputPreparationTxCountNoAmount_singleton, getTxCountForExtraInput_eq, hsum]
  rfl

/-- An input never takes more than one transaction. -/
lemma txCount_le_length (publicInputs : List ℕ) :
    (getInputPreparationTxCountNoAmount publicInputs).1 ≤ publicInputs.length := by
  induction publicInputs using List.reverseRecOn with
  | nil => exact le_refl 0
  | append_singleton publicInputs input ih =>
      rw [List.length_append, List.length_singleton]
      by_cases hne : publicInputs = []
      · rw [hne, List.nil_append, getInputPreparationTxCountNoAmount_singleton]
        exact le_refl 1
      · rw [txCount_append hne]
        exact Nat.add_le_add ih (getTxCountForExtraInput_le_one _ _)

/-! ## The costs -/

/-- Rounding up stays between zero and what is divided. -/
lemma divCeilBigInt_ok {a b : ℤ} (ha : 0 ≤ a) (hb : 0 < b) :
    ∃ q, divCeilBigInt a b = .ok q ∧ 0 ≤ q ∧ q ≤ a := by
  have hquot : 0 ≤ a / b := Int.ediv_nonneg ha hb.le
  have hmul : a / b ≤ a / b * b := le_mul_of_one_le_right hquot hb
  rw [divCeilBigInt, if_neg hb.ne', Int.tdiv_eq_ediv_of_nonneg ha]
  refine ⟨_, rfl, ?_⟩
  split_ifs with hrest
  · omega
  · exact ⟨hquot, Int.ediv_le_self b ha⟩

namespace FeeCalculator

/-- The fee account holds 64 bit integers. -/
structure HasU64Fields (c : FeeCalculator) : Prop where
  lamports_per_tx : c.feeData.lamports_per_tx < 2 ^ 64
  base_commitment_network_fee : c.feeData.base_commitment_network_fee < 2 ^ 64
  proof_network_fee : c.feeData.proof_network_fee < 2 ^ 64
  base_commitment_subvention : c.feeData.base_commitment_subvention < 2 ^ 64
  proof_subvention : c.feeData.proof_subvention < 2 ^ 64
  warden_hash_tx_reward : c.feeData.warden_hash_tx_reward < 2 ^ 64
  warden_proof_reward : c.feeData.warden_proof_reward < 2 ^ 64
  proof_base_tx_count : c.feeData.proof_base_tx_count < 2 ^ 64

variable {c : FeeCalculator}

lemma hashTxCompensation_nonneg : 0 ≤ c.hashTxCompensation :=
  Int.add_nonneg (Int.natCast_nonneg _) (Int.natCast_nonneg _)

lemma proofTxCompensation_nonneg : 0 ≤ c.proofTxCompensation :=
  Int.add_nonneg (Int.natCast_nonneg _) (Int.natCast_nonneg _)

/-- A batch has at most 37 transactions. -/
lemma commitmentHashFee_ok (hrate : c.minBatchingRate ≤ MAX_BATCHING_RATE) :
    ∃ fee, c.commitmentHashFee = .ok fee ∧ 0 ≤ fee ∧ fee ≤ 37 * c.hashTxCompensation := by
  obtain ⟨txCount, htxCount, hmost⟩ : ∃ n, c.getCommitmentHashTxCount = .ok n ∧ n ≤ 37 := by
    rw [MAX_BATCHING_RATE] at hrate
    rw [getCommitmentHashTxCount]
    interval_cases c.minBatchingRate <;> exact ⟨_, rfl, by decide⟩
  have hbatch : c.getCommitmentsPerBatch = .ok (2 ^ c.minBatchingRate) :=
    if_neg (Nat.not_le_of_lt (lt_of_le_of_lt hrate (by decide)))
  have hcost : 0 ≤ txCount * c.hashTxCompensation :=
    mul_nonneg (Int.natCast_nonneg _) hashTxCompensation_nonneg
  obtain ⟨fee, hfee, hnonneg, hle⟩ := divCeilBigInt_ok hcost
    (b := (2 ^ c.minBatchingRate : ℕ)) (Int.natCast_pos.mpr (Nat.two_pow_pos _))
  refine ⟨fee, bind_eq_ok.mpr ⟨_, htxCount, bind_eq_ok.mpr ⟨_, hbatch, hfee⟩⟩, hnonneg, ?_⟩
  exact hle.trans (mul_le_mul_of_nonneg_right (by exact_mod_cast hmost) hashTxCompensation_nonneg)

lemma getSendFeeFixedCosts_ok (hrate : c.minBatchingRate ≤ MAX_BATCHING_RATE) :
    ∃ fixedCosts, c.getSendFeeFixedCosts = .ok fixedCosts := by
  obtain ⟨fee, hfee, -⟩ := commitmentHashFee_ok hrate
  exact ⟨_, bind_eq_ok.mpr ⟨fee, hfee, rfl⟩⟩

lemma HasU64Fields.proofTxCompensation_le (hu64 : c.HasU64Fields) : c.proofTxCompensation ≤ 2 ^ 65 := by
  have htx := hu64.lamports_per_tx
  have hreward := hu64.warden_proof_reward
  rw [proofTxCompensation]
  omega

lemma HasU64Fields.hashTxCompensation_le (hu64 : c.HasU64Fields) : c.hashTxCompensation ≤ 2 ^ 65 := by
  have htx := hu64.lamports_per_tx
  have hreward := hu64.warden_hash_tx_reward
  rw [hashTxCompensation]
  omega

/-- The network fee of an amount that is not negative is between zero and the product it is a part of. -/
lemma getSendPrivacyFee_bounds (c : FeeCalculator) (amount : ℕ) :
    0 ≤ c.getSendPrivacyFee amount ∧ c.getSendPrivacyFee amount ≤ c.feeData.proof_network_fee * amount := by
  have hprod : (0 : ℤ) ≤ c.feeData.proof_network_fee * amount :=
    mul_nonneg (Int.natCast_nonneg _) (Int.natCast_nonneg _)
  rw [getSendPrivacyFee, proofVerificationNetworkFee, Int.tdiv_eq_ediv_of_nonneg hprod]
  exact ⟨Int.ediv_nonneg hprod (by decide), Int.ediv_le_self _ hprod⟩

variable (c)

/-- What a send costs with this many transactions for its public inputs. -/
def sendCost (fixedCosts amount : ℤ) (txCount : ℕ) : ℤ :=
  fixedCosts + c.getSendPrivacyFee amount + txCount * c.proofTxCompensation

lemma sendCost_add (fixedCosts amount : ℤ) (txCount extra : ℕ) :
    c.sendCost fixedCosts amount (txCount + extra)
      = c.sendCost fixedCosts amount txCount + extra * c.proofTxCompensation := by
  rw [sendCost, sendCost, Nat.cast_add, add_mul, ← add_assoc]

variable {c}

/-- With fields of 64 bits the cost is far below 256 bits. -/
lemma HasU64Fields.sendCost_le (hu64 : c.HasU64Fields)
    (hrate : c.minBatchingRate ≤ MAX_BATCHING_RATE) {fixedCosts : ℤ}
    (hfixed : c.getSendFeeFixedCosts = .ok fixedCosts) {amount txCount : ℕ} (hamount : amount < 2 ^ 64)
    (hcount : txCount ≤ 2 ^ 32) : c.sendCost fixedCosts amount txCount ≤ 2 ^ 131 := by
  obtain ⟨hashFee, hhash, -, hmost⟩ := commitmentHashFee_ok hrate
  have hsum : fixedCosts = c.feeData.warden_proof_reward + hashFee
      + c.feeData.proof_base_tx_count * c.proofTxCompensation := by
    rw [getSendFeeFixedCosts, hhash] at hfixed
    exact (Except.ok.inj hfixed).symm
  have hproof := hu64.proofTxCompensation_le
  have hhashTx := hu64.hashTxCompensation_le
  have hreward : (c.feeData.warden_proof_reward : ℤ) ≤ 2 ^ 64 := by
    exact_mod_cast hu64.warden_proof_reward.le
  have hbase : c.feeData.proof_base_tx_count * c.proofTxCompensation ≤ 2 ^ 64 * 2 ^ 65 :=
    mul_le_mul (by exact_mod_cast hu64.proof_base_tx_count.le) hproof proofTxCompensation_nonneg
      (by positivity)
  have hinputs : txCount * c.proofTxCompensation ≤ 2 ^ 32 * 2 ^ 65 :=
    mul_le_mul (by exact_mod_cast hcount) hproof proofTxCompensation_nonneg (by positivity)
  have hnetwork : (c.feeData.proof_network_fee * amount : ℤ) ≤ 2 ^ 64 * 2 ^ 64 :=
    mul_le_mul (by exact_mod_cast hu64.proof_network_fee.le) (by exact_mod_cast hamount.le)
      (Int.natCast_nonneg _) (by positivity)
  have hprivacy := (c.getSendPrivacyFee_bounds amount).2
  rw [sendCost, hsum]
  norm_num at *
  linarith

end FeeCalculator

/-! ## The search for the extra transactions -/

/-- The search ends at the extra transactions of the amount without any. -/
lemma find?_extraTxs (neededTxs : ℕ → ℕ) (hone : ∀ i, neededTxs i ≤ 1) :
    (List.range (maxExtraTx + 1)).find? (fun i => neededTxs i ≤ i) = some (neededTxs 0) := by
  have hrange : List.range (maxExtraTx + 1) = [0, 1] := by decide
  rw [hrange, List.find?_cons]
  obtain hnone | hextra := Nat.le_one_iff_eq_zero_or_eq_one.mp (hone 0)
  · rw [hnone]
    rfl
  · rw [hextra, List.find?_cons_of_pos (by simpa using hone 1)]
    rfl

namespace FeeCalculator

variable {c : FeeCalculator} {pubInputsNoAmount : List ℕ} {fixedCosts amountToSend : ℤ}

/-- The fee from the base amount and the subvention that the first branch leaves. -/
lemma getSendTotalFeeInner_eq {txCount usedCUsLastTx : ℕ} {baseAmount remainingSubvention : ℤ}
    (hcount : getInputPreparationTxCountNoAmount pubInputsNoAmount = (txCount, usedCUsLastTx))
    (hfixed : c.getSendFeeFixedCosts = .ok fixedCosts)
    (hbranch : (if amountToSend + c.sendCost fixedCosts amountToSend txCount > c.feeData.proof_subvention
        then (amountToSend + c.sendCost fixedCosts amountToSend txCount - c.feeData.proof_subvention, 0)
        else (0, (c.feeData.proof_subvention : ℤ))) = (baseAmount, remainingSubvention)) :
    c.getSendTotalFeeInner pubInputsNoAmount amountToSend
      = .ok (baseAmount + getTxCountForExtraInput baseAmount.toNat usedCUsLastTx * c.proofTxCompensation
          - amountToSend - remainingSubvention) := by
  have hbase : amountToSend + c.sendCost fixedCosts amountToSend txCount
      = amountToSend + fixedCosts + c.getSendPrivacyFee amountToSend
        + txCount * c.proofTxCompensation := by
    rw [sendCost]
    ring
  rw [hbase] at hbranch
  rw [getSendTotalFeeInner, hcount]
  refine bind_eq_ok.mpr ⟨fixedCosts, hfixed, ?_⟩
  dsimp only
  rw [hbranch]
  dsimp only
  rw [find?_extraTxs (fun i => getTxCountForExtraInput
    (baseAmount + i * c.proofTxCompensation).toNat usedCUsLastTx)
    fun i => getTxCountForExtraInput_le_one _ _]
  dsimp only
  rw [Nat.cast_zero, zero_mul, add_zero]
  rfl

variable (c)

/-- The extra transactions that a send is charged for, when the subvention does not pay for all of it. -/
def extraTxs (pubInputsNoAmount : List ℕ) (fixedCosts amountToSend : ℤ) : ℕ :=
  getTxCountForExtraInput
    (amountToSend + c.sendCost fixedCosts amountToSend
        (getInputPreparationTxCountNoAmount pubInputsNoAmount).1 - c.feeData.proof_subvention).toNat
    (getInputPreparationTxCountNoAmount pubInputsNoAmount).2

variable {c}

/-- **The fee of a send, when the subvention does not pay for all of it.** -/
theorem getSendTotalFeeInner_of_gt (hfixed : c.getSendFeeFixedCosts = .ok fixedCosts)
    (hgt : amountToSend + c.sendCost fixedCosts amountToSend
        (getInputPreparationTxCountNoAmount pubInputsNoAmount).1 > c.feeData.proof_subvention) :
    c.getSendTotalFeeInner pubInputsNoAmount amountToSend
      = .ok (c.sendCost fixedCosts amountToSend
          ((getInputPreparationTxCountNoAmount pubInputsNoAmount).1
            + c.extraTxs pubInputsNoAmount fixedCosts amountToSend) - c.feeData.proof_subvention) := by
  rw [getSendTotalFeeInner_eq (Prod.eta _).symm hfixed (if_pos hgt), sendCost_add, extraTxs]
  refine congrArg Except.ok ?_
  linarith

/-- **The fee of a send, when the subvention is as large as amount and cost**: it is negative. -/
theorem getSendTotalFeeInner_of_le (hfixed : c.getSendFeeFixedCosts = .ok fixedCosts)
    (hle : amountToSend + c.sendCost fixedCosts amountToSend
        (getInputPreparationTxCountNoAmount pubInputsNoAmount).1 ≤ c.feeData.proof_subvention) :
    c.getSendTotalFeeInner pubInputsNoAmount amountToSend
      = .ok (-amountToSend - c.feeData.proof_subvention) := by
  rw [getSendTotalFeeInner_eq (Prod.eta _).symm hfixed (if_neg (Int.not_lt.mpr hle)), Int.toNat_zero,
    getTxCountForExtraInput_zero, Nat.cast_zero, zero_mul, zero_add, zero_sub]

/-! ## The fee covers the send -/

/-- The transactions of the public inputs with the amount, fee included. -/
def txCountWithAmount (pubInputsNoAmount : List ℕ) (totalAmount : ℤ) : ℕ :=
  (getInputPreparationTxCountNoAmount (pubInputsNoAmount ++ [totalAmount.toNat])).1

variable (c pubInputsNoAmount fixedCosts amountToSend) in
/-- A fee covers a send when it pays for the transactions that the amount with this fee takes. -/
def Covers (fee : ℤ) : Prop :=
  c.sendCost fixedCosts amountToSend (txCountWithAmount pubInputsNoAmount (amountToSend + fee))
    - c.feeData.proof_subvention ≤ fee

lemma sendCost_mono {txCount txCount' : ℕ} (hle : txCount ≤ txCount') :
    c.sendCost fixedCosts amountToSend txCount ≤ c.sendCost fixedCosts amountToSend txCount' := by
  rw [sendCost, sendCost]
  exact add_le_add_right (mul_le_mul_of_nonneg_right (Nat.cast_le.mpr hle) proofTxCompensation_nonneg) _

/-- The amount with the fee takes no more transactions than the fee pays for. -/
lemma txCountWithAmount_le (hne : pubInputsNoAmount ≠ []) {fee : ℤ}
    (hfee : fee = c.sendCost fixedCosts amountToSend
        ((getInputPreparationTxCountNoAmount pubInputsNoAmount).1
          + c.extraTxs pubInputsNoAmount fixedCosts amountToSend) - c.feeData.proof_subvention) :
    txCountWithAmount pubInputsNoAmount (amountToSend + fee)
      ≤ (getInputPreparationTxCountNoAmount pubInputsNoAmount).1
        + c.extraTxs pubInputsNoAmount fixedCosts amountToSend := by
  rw [txCountWithAmount, txCount_append hne]
  refine Nat.add_le_add_left ?_ _
  obtain hnone | hextra : c.extraTxs pubInputsNoAmount fixedCosts amountToSend = 0 ∨
      c.extraTxs pubInputsNoAmount fixedCosts amountToSend = 1 :=
    Nat.le_one_iff_eq_zero_or_eq_one.mp (getTxCountForExtraInput_le_one _ _)
  · -- without extra transactions the search looked at this very amount
    rw [hnone, Nat.add_zero] at hfee
    rw [hfee, ← add_sub_assoc]
    exact le_refl _
  · rw [hextra]
    exact getTxCountForExtraInput_le_one _ _

/-- Without its extra transaction the amount would take one, so one compensation less is not enough. -/
lemma extraTxs_needed (hne : pubInputsNoAmount ≠ [])
    (hextra : c.extraTxs pubInputsNoAmount fixedCosts amountToSend = 1) {fee : ℤ}
    (hfee : fee = c.sendCost fixedCosts amountToSend
        ((getInputPreparationTxCountNoAmount pubInputsNoAmount).1 + 1) - c.feeData.proof_subvention) :
    (getInputPreparationTxCountNoAmount pubInputsNoAmount).1
        < txCountWithAmount pubInputsNoAmount (amountToSend + (fee - c.proofTxCompensation)) ∧
      (0 < c.proofTxCompensation →
        ¬ c.Covers pubInputsNoAmount fixedCosts amountToSend (fee - c.proofTxCompensation)) := by
  have hless : amountToSend + (fee - c.proofTxCompensation)
      = amountToSend + c.sendCost fixedCosts amountToSend
        (getInputPreparationTxCountNoAmount pubInputsNoAmount).1 - c.feeData.proof_subvention := by
    rw [hfee, sendCost_add, Nat.cast_one, one_mul]
    ring
  have hneeds : (getInputPreparationTxCountNoAmount pubInputsNoAmount).1 + 1
      ≤ txCountWithAmount pubInputsNoAmount (amountToSend + (fee - c.proofTxCompensation)) := by
    rw [hless, txCountWithAmount, txCount_append hne]
    exact Nat.add_le_add_left hextra.ge _
  refine ⟨hneeds, fun hpos hcovers => ?_⟩
  have hmore := @sendCost_mono c fixedCosts amountToSend _ _ hneeds
  rw [Covers] at hcovers
  linarith

end FeeCalculator

section Covers

open FeeCalculator

variable {c : FeeCalculator} {pubInputsNoAmount : List ℕ}

/-- **The fee of a send covers its own cost.**  The search ends, the fee pays for the transactions that the
amount with the fee takes, and where it has an extra transaction it needs it: with one compensation less,
the amount would take more than is paid for. -/
theorem getSendTotalFeeInner_covers (hu64 : c.HasU64Fields)
    (hrate : c.minBatchingRate ≤ MAX_BATCHING_RATE) (hne : pubInputsNoAmount ≠ [])
    {amountToSend : ℕ} (hamount : amountToSend < 2 ^ 64) :
    ∃ fixedCosts, c.getSendFeeFixedCosts = .ok fixedCosts ∧
      (amountToSend + c.sendCost fixedCosts amountToSend
          (getInputPreparationTxCountNoAmount pubInputsNoAmount).1 > c.feeData.proof_subvention →
        ∃ (extra : ℕ) (fee : ℤ), c.getSendTotalFeeInner pubInputsNoAmount amountToSend = .ok fee ∧
          fee = c.sendCost fixedCosts amountToSend
            ((getInputPreparationTxCountNoAmount pubInputsNoAmount).1 + extra)
              - c.feeData.proof_subvention ∧
          0 < amountToSend + fee ∧
          (pubInputsNoAmount.length < 2 ^ 32 → amountToSend + fee < 2 ^ 256) ∧
          c.Covers pubInputsNoAmount fixedCosts amountToSend fee ∧
          (0 < extra →
            (getInputPreparationTxCountNoAmount pubInputsNoAmount).1 + (extra - 1)
              < txCountWithAmount pubInputsNoAmount (amountToSend + (fee - c.proofTxCompensation)) ∧
            (0 < c.proofTxCompensation →
              ¬ c.Covers pubInputsNoAmount fixedCosts amountToSend (fee - c.proofTxCompensation)))) := by
  obtain ⟨fixedCosts, hfixed⟩ := getSendFeeFixedCosts_ok hrate
  refine ⟨fixedCosts, hfixed, fun hgt => ?_⟩
  have hone : c.extraTxs pubInputsNoAmount fixedCosts amountToSend ≤ 1 :=
    getTxCountForExtraInput_le_one _ _
  have hsucc := c.sendCost_add fixedCosts amountToSend
    (getInputPreparationTxCountNoAmount pubInputsNoAmount).1
    (c.extraTxs pubInputsNoAmount fixedCosts amountToSend)
  have hcomp : 0 ≤ c.extraTxs pubInputsNoAmount fixedCosts amountToSend * c.proofTxCompensation :=
    mul_nonneg (Int.natCast_nonneg _) proofTxCompensation_nonneg
  refine ⟨c.extraTxs pubInputsNoAmount fixedCosts amountToSend, _, getSendTotalFeeInner_of_gt hfixed hgt,
    rfl, by linarith, fun hlength => ?_, ?_, fun hextra => ?_⟩
  · -- the amount with the fee is a number that fits into the 32 bytes of a public input
    have hcount := Nat.add_le_add ((txCount_le_length pubInputsNoAmount).trans (Nat.le_sub_one_of_lt hlength))
      hone
    have hcost := hu64.sendCost_le hrate hfixed hamount hcount
    have hsubvention : (0 : ℤ) ≤ c.feeData.proof_subvention := Int.natCast_nonneg _
    have hsmall : (amountToSend : ℤ) < 2 ^ 64 := by exact_mod_cast hamount
    norm_num at hcost hsmall ⊢
    linarith
  · exact sub_le_sub_right (sendCost_mono (txCountWithAmount_le hne rfl)) _
  · have hexact : c.extraTxs pubInputsNoAmount fixedCosts amountToSend = 1 :=
      Nat.le_antisymm hone hextra
    rw [hexact]
    exact extraTxs_needed hne hexact rfl

end Covers

/-! ## A fee with an extra transaction -/

def plainFees : FeeCalculator :=
  { feeData :=
      { lamports_per_tx := 5000, base_commitment_network_fee := 0, proof_network_fee := 50
        base_commitment_subvention := 0, proof_subvention := 10000, warden_hash_tx_reward := 300
        warden_proof_reward := 300, proof_base_tx_count := 28 }
    minBatchingRate := 0 }

lemma hasU64Fields_plainFees : plainFees.HasU64Fields := by
  constructor <;> decide

/-- Inputs that leave no room for the amount in their transaction. -/
def wideInputs : List ℕ := [2 ^ 256 - 1, 2 ^ 192 - 1]

theorem getSendTotalFeeInner_covers_wideInputs :
    plainFees.getSendTotalFeeInner wideInputs 1000000 = .ok 281500 ∧
      plainFees.Covers wideInputs 275900 1000000 281500 ∧
      ¬ plainFees.Covers wideInputs 275900 1000000 (281500 - 5300) := by
  have hfee : plainFees.getSendTotalFeeInner wideInputs 1000000 = .ok 281500 := by decide +kernel
  have hcount : (getInputPreparationTxCountNoAmount wideInputs).1 = 1 := by decide +kernel
  obtain ⟨fixedCosts, hfixed, hcovers⟩ :=
    @getSendTotalFeeInner_covers plainFees wideInputs hasU64Fields_plainFees (by decide)
      (List.cons_ne_nil _ _) 1000000 (by decide)
  have hvalue : plainFees.getSendFeeFixedCosts = .ok 275900 := by decide
  obtain rfl := Except.ok.inj (hvalue.symm.trans hfixed)
  obtain ⟨extra, fee, hok, hsum, -, -, hcover, hneeded⟩ := hcovers (by rw [hcount]; decide)
  obtain rfl := Except.ok.inj (hfee.symm.trans hok)
  have hextra : 0 < extra := by
    refine Nat.pos_of_ne_zero fun hzero => ?_
    rw [hcount, hzero] at hsum
    exact absurd hsum (by decide)
  exact ⟨hok, hcover, (hneeded hextra).2 (by decide)⟩

end ElusivSdk
