import ElusivSdk.ParamManagers.Fee.SendFee

/-!
# Subventions

A subvention is taken off the fee.  The fee of a topup does not compare it with what the topup costs.  The
fee of a send does, but the branch of a large subvention sets the base amount to zero before it takes it
off the subvention, so that amount and subvention are taken off a fee that is zero already.

* `storeCost`, `StoreFeeSound`, `SendFeeSound` — what topups cost, and what the fees should satisfy.
* `SubventionFits` — the subvention of a send is below its cost, and below the amount with the cost.
* **`fees_sound_iff`** — the fees are not negative and cover the cost exactly when the subventions fit.
-/

namespace ElusivSdk

open Program

namespace FeeCalculator

variable (c : FeeCalculator)

/-! ## What the fees should satisfy -/

/-- What a topup costs without the subvention. -/
def storeCost (commitmentHashFee amount : ℤ) : ℤ :=
  BASE_TX_PER_HASH * c.hashTxCompensation + c.baseCommNetworkFee amount + commitmentHashFee
    + c.feeData.lamports_per_tx

structure StoreFeeSound (fee : Fee) : Prop where
  txFee_nonneg : 0 ≤ fee.txFee
  total_nonneg : 0 ≤ fee.txFee + fee.privacyFee

/-- The transactions that a send is charged for. -/
def chargedTxs (pubInputsNoAmount : List ℕ) (fixedCosts amountToSend : ℤ) : ℕ :=
  (getInputPreparationTxCountNoAmount pubInputsNoAmount).1
    + c.extraTxs pubInputsNoAmount fixedCosts amountToSend

structure SendFeeSound (pubInputsNoAmount : List ℕ) (fixedCosts amountToSend : ℤ) (fee : Fee) :
    Prop where
  txFee_nonneg : 0 ≤ fee.txFee
  total_nonneg : 0 ≤ fee.txFee + fee.privacyFee
  covers : ((c.sendCost fixedCosts amountToSend (c.chargedTxs pubInputsNoAmount fixedCosts amountToSend)
    - c.feeData.proof_subvention : ℤ) : ℚ) ≤ fee.txFee + fee.privacyFee

/-- The subvention pays for no more than the computation, and for less than amount and cost together. -/
structure SubventionFits (pubInputsNoAmount : List ℕ) (fixedCosts amountToSend : ℤ) : Prop where
  le_computation : c.feeData.proof_subvention ≤ fixedCosts
    + c.chargedTxs pubInputsNoAmount fixedCosts amountToSend * c.proofTxCompensation
  lt_total : c.feeData.proof_subvention < amountToSend + c.sendCost fixedCosts amountToSend
      (getInputPreparationTxCountNoAmount pubInputsNoAmount).1 ∨
    amountToSend = 0 ∧ c.feeData.proof_subvention = 0

/-! ## The fees from the total -/

variable {c} {serialization : Serialization} {fee : Fee}

lemma getStoreFee_spec {amount : ℤ} (h : c.getStoreFee serialization amount = .ok fee) :
    ∃ hashFee, c.commitmentHashFee = .ok hashFee ∧
      fee.txFee = (c.storeCost hashFee amount - c.feeData.base_commitment_subvention : ℤ) ∧
      fee.privacyFee = 0 := by
  obtain ⟨totalFee, htotal, h⟩ := bind_eq_ok.mp h
  obtain ⟨txFee, htx, h⟩ := bind_eq_ok.mp h
  obtain ⟨privacyFee, hprivacy, h⟩ := bind_eq_ok.mp h
  obtain rfl := Except.ok.inj h
  obtain ⟨hashFee, hhash, htotal⟩ := bind_eq_ok.mp htotal
  obtain rfl := Except.ok.inj htotal
  obtain rfl := serialization.bigIntToNumber_exact htx
  obtain rfl := serialization.bigIntToNumber_exact hprivacy
  exact ⟨hashFee, hhash, rfl, Int.cast_zero⟩

lemma getSendFee_spec {inputs : IncompleteSendQuadraProofInputs} {amountToSend : ℤ}
    {recentCommIndex : ℕ} {tokenAccRentLamports : ℚ} {recipientExists : Bool}
    (h : c.getSendFee serialization inputs amountToSend recentCommIndex tokenAccRentLamports
      recipientExists = .ok fee) :
    ∃ totalFee, c.getSendTotalFee inputs amountToSend recentCommIndex = .ok totalFee ∧
      fee.txFee = (totalFee - c.getSendPrivacyFee amountToSend : ℤ) ∧
      fee.privacyFee = c.getSendPrivacyFee amountToSend := by
  obtain ⟨totalFee, htotal, h⟩ := bind_eq_ok.mp h
  obtain ⟨txFee, htx, h⟩ := bind_eq_ok.mp h
  obtain ⟨privacyFee, hprivacy, h⟩ := bind_eq_ok.mp h
  obtain ⟨extraFee, -, h⟩ := bind_eq_ok.mp h
  obtain rfl := Except.ok.inj h
  obtain rfl := serialization.bigIntToNumber_exact htx
  obtain rfl := serialization.bigIntToNumber_exact hprivacy
  exact ⟨totalFee, htotal, rfl, rfl⟩

/-- The hash of a commitment has a price only for the rates of the table. -/
lemma minBatchingRate_le {hashFee : ℤ} (h : c.commitmentHashFee = .ok hashFee) :
    c.minBatchingRate ≤ MAX_BATCHING_RATE := by
  obtain ⟨txCount, hcount, -⟩ := bind_eq_ok.mp h
  rw [getCommitmentHashTxCount] at hcount
  by_contra hlarge
  have hnone : [24, 24, 25, 29, 37][c.minBatchingRate]? = none :=
    List.getElem?_eq_none (Nat.lt_of_not_le hlarge)
  rw [hnone] at hcount
  cases hcount

lemma fixedCosts_nonneg {fixedCosts : ℤ} (h : c.getSendFeeFixedCosts = .ok fixedCosts) :
    0 ≤ fixedCosts := by
  obtain ⟨hashFee, hhash, h⟩ := bind_eq_ok.mp h
  obtain rfl := Except.ok.inj h
  obtain ⟨hashFee', hhash', hnonneg, -⟩ := commitmentHashFee_ok (minBatchingRate_le hhash)
  obtain rfl := Except.ok.inj (hhash.symm.trans hhash')
  have hbase : 0 ≤ c.feeData.proof_base_tx_count * c.proofTxCompensation :=
    mul_nonneg (Int.natCast_nonneg _) proofTxCompensation_nonneg
  have hreward : (0 : ℤ) ≤ c.feeData.warden_proof_reward := Int.natCast_nonneg _
  linarith

/-! ## When the fees are sound -/

lemma storeFeeSound_iff {hashFee amount : ℤ}
    (htx : fee.txFee = (c.storeCost hashFee amount - c.feeData.base_commitment_subvention : ℤ))
    (hprivacy : fee.privacyFee = 0) :
    StoreFeeSound fee ↔ c.feeData.base_commitment_subvention ≤ c.storeCost hashFee amount := by
  have hsign : 0 ≤ fee.txFee ↔ c.feeData.base_commitment_subvention ≤ c.storeCost hashFee amount := by
    rw [htx, Int.cast_nonneg_iff, sub_nonneg]
  constructor
  · intro hsound
    exact hsign.mp hsound.txFee_nonneg
  · intro hfits
    refine ⟨hsign.mpr hfits, ?_⟩
    rw [hprivacy, add_zero]
    exact hsign.mpr hfits

/-- A send is charged for its transactions only when amount and cost are above the subvention. -/
lemma chargedTxs_of_le {pubInputsNoAmount : List ℕ} {fixedCosts amountToSend : ℤ}
    (hle : amountToSend + c.sendCost fixedCosts amountToSend
        (getInputPreparationTxCountNoAmount pubInputsNoAmount).1 ≤ c.feeData.proof_subvention) :
    c.chargedTxs pubInputsNoAmount fixedCosts amountToSend
      = (getInputPreparationTxCountNoAmount pubInputsNoAmount).1 := by
  have hzero : (amountToSend + c.sendCost fixedCosts amountToSend
      (getInputPreparationTxCountNoAmount pubInputsNoAmount).1 - c.feeData.proof_subvention).toNat = 0 :=
    Int.toNat_of_nonpos (by linarith)
  rw [chargedTxs, extraTxs, hzero, getTxCountForExtraInput_zero, Nat.add_zero]

/-- **The fee of a send is sound exactly when the subvention fits.** -/
theorem sendFeeSound_iff {pubInputsNoAmount : List ℕ} {fixedCosts totalFee : ℤ} {amountToSend : ℕ}
    (hfixed : c.getSendFeeFixedCosts = .ok fixedCosts)
    (htotal : c.getSendTotalFeeInner pubInputsNoAmount amountToSend = .ok totalFee)
    (htx : fee.txFee = (totalFee - c.getSendPrivacyFee amountToSend : ℤ))
    (hprivacy : fee.privacyFee = c.getSendPrivacyFee amountToSend) :
    c.SendFeeSound pubInputsNoAmount fixedCosts amountToSend fee ↔
      c.SubventionFits pubInputsNoAmount fixedCosts amountToSend := by
  obtain ⟨hnetwork, hmost⟩ := c.getSendPrivacyFee_bounds amountToSend
  have hsum : fee.txFee + fee.privacyFee = totalFee := by
    rw [htx, hprivacy, ← Int.cast_add, sub_add_cancel]
  by_cases hgt : amountToSend + c.sendCost fixedCosts amountToSend
      (getInputPreparationTxCountNoAmount pubInputsNoAmount).1 > c.feeData.proof_subvention
  · rw [getSendTotalFeeInner_of_gt hfixed hgt, ← chargedTxs] at htotal
    obtain rfl := Except.ok.inj htotal
    have hsign : 0 ≤ fee.txFee ↔ c.feeData.proof_subvention ≤ fixedCosts
        + c.chargedTxs pubInputsNoAmount fixedCosts amountToSend * c.proofTxCompensation := by
      rw [htx, Int.cast_nonneg_iff, sendCost]
      constructor <;> intro h <;> linarith
    constructor
    · intro hsound
      exact ⟨hsign.mp hsound.txFee_nonneg, .inl hgt⟩
    · intro hfits
      have htx_nonneg := hsign.mpr hfits.le_computation
      refine ⟨htx_nonneg, ?_, hsum.ge⟩
      rw [hprivacy]
      exact add_nonneg htx_nonneg (Int.cast_nonneg_iff.mpr hnetwork)
  · have hle := Int.not_lt.mp hgt
    rw [getSendTotalFeeInner_of_le hfixed hle] at htotal
    obtain rfl := Except.ok.inj htotal
    constructor
    · intro hsound
      -- a fee that is not negative has nothing that could be taken off
      have hsign := hsound.txFee_nonneg
      rw [htx, Int.cast_nonneg_iff] at hsign
      have hnothing : (amountToSend : ℤ) = 0 ∧ c.feeData.proof_subvention = 0 := by omega
      refine ⟨?_, .inr hnothing⟩
      rw [hnothing.2]
      exact add_nonneg (fixedCosts_nonneg hfixed)
        (mul_nonneg (Int.natCast_nonneg _) proofTxCompensation_nonneg)
    · intro hfits
      obtain habove | ⟨hamount, hsubvention⟩ := hfits.lt_total
      · exact absurd habove hgt
      · -- nothing is sent, nothing is taken off and nothing is paid for
        have htotal_zero : -(amountToSend : ℤ) - c.feeData.proof_subvention = 0 := by omega
        have hfree : c.getSendPrivacyFee amountToSend = 0 :=
          le_antisymm (hmost.trans_eq (by rw [hamount, mul_zero])) hnetwork
        rw [htotal_zero] at hsum htx
        rw [hfree, sub_zero, Int.cast_zero] at htx
        refine ⟨htx.ge, ?_, ?_⟩
        · rw [hsum, Int.cast_zero]
        · rw [hsum, chargedTxs_of_le hle]
          exact Int.cast_le.mpr (by linarith)

end FeeCalculator

open FeeCalculator

/-- **The fees of topups and sends are not negative and cover the cost — exactly when** the subvention of a
topup is at most its cost, and the subvention of a send fits. -/
theorem fees_sound_iff (c : FeeCalculator) (serialization : Serialization)
    (inputs : IncompleteSendQuadraProofInputs) (amount recentCommIndex : ℕ) (tokenAccRentLamports : ℚ)
    (recipientExists : Bool) :
    (∀ fee, c.getStoreFee serialization amount = .ok fee →
      ∃ hashFee, c.commitmentHashFee = .ok hashFee ∧
        (StoreFeeSound fee ↔ c.feeData.base_commitment_subvention ≤ c.storeCost hashFee amount)) ∧
    (∀ fee, c.getSendFee serialization inputs amount recentCommIndex tokenAccRentLamports recipientExists
        = .ok fee →
      ∃ fixedCosts, c.getSendFeeFixedCosts = .ok fixedCosts ∧
        (c.SendFeeSound (getPublicInputsFromSendQuadraInputsForFeeCalc inputs recentCommIndex) fixedCosts
            amount fee ↔
          c.SubventionFits (getPublicInputsFromSendQuadraInputsForFeeCalc inputs recentCommIndex)
            fixedCosts amount)) := by
  constructor
  · intro fee hfee
    obtain ⟨hashFee, hhash, htx, hprivacy⟩ := getStoreFee_spec hfee
    exact ⟨hashFee, hhash, storeFeeSound_iff htx hprivacy⟩
  · intro fee hfee
    obtain ⟨totalFee, htotal, htx, hprivacy⟩ := getSendFee_spec hfee
    obtain ⟨fixedCosts, hfixed, -⟩ := bind_eq_ok.mp htotal
    exact ⟨fixedCosts, hfixed, sendFeeSound_iff hfixed htotal htx hprivacy⟩

/-- Subventions above the costs. -/
def subsidizedFees : FeeCalculator :=
  { plainFees with
    feeData := { plainFees.feeData with
      base_commitment_subvention := 200000, proof_subvention := 1000000 } }

/-- **A send of 1000 lamports has a fee of minus 1001000, and a topup one of minus 57200.** -/
theorem subsidizedFees_negative :
    subsidizedFees.HasU64Fields ∧
    (∃ fee, subsidizedFees.getStoreFee plainSerialization 1000 = .ok fee ∧ fee.txFee = -57200 ∧
      ¬ StoreFeeSound fee) ∧
    ∃ fee, subsidizedFees.getSendFee plainSerialization getDummyIncompleteSendQuadraInputs 1000 0 0 true
        = .ok fee ∧ fee.txFee + fee.privacyFee = -1001000 ∧
      ∀ fixedCosts, ¬ subsidizedFees.SendFeeSound (getPublicInputsFromSendQuadraInputsForFeeCalc
        getDummyIncompleteSendQuadraInputs 0) fixedCosts 1000 fee := by
  have hstore : subsidizedFees.getStoreFee plainSerialization 1000 = .ok
      { tokenType := .LAMPORTS, txFee := -57200, privacyFee := 0, extraFee := 0, tokenAccRent := 0
        lamportsPerToken := some 1 } := by decide +kernel
  have hsend : subsidizedFees.getSendFee plainSerialization getDummyIncompleteSendQuadraInputs 1000 0 0
      true = .ok
      { tokenType := .LAMPORTS, txFee := -1001005, privacyFee := 5, extraFee := 0, tokenAccRent := 0
        lamportsPerToken := some 1 } := by decide +kernel
  refine ⟨by constructor <;> decide, ⟨_, hstore, rfl, fun hsound => ?_⟩, _, hsend, ?_,
    fun fixedCosts hsound => ?_⟩
  · exact absurd hsound.txFee_nonneg (by norm_num)
  · norm_num
  · exact absurd hsound.txFee_nonneg (by norm_num)

end ElusivSdk
