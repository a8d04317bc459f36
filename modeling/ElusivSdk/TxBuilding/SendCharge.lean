import ElusivSdk.TxBuilding.TransactionBuilding

/-!
# What a send costs

The fee of a send says what is taken from the private balance besides the amount.  The fee for the
computation and the extra fee are taken as they are said.  The rent of a missing token account is not: the
fee says it with the buffer for price changes, and it is taken without.

* `chargedRent` — the rent that is taken; `sendFee` — the fee, from the request alone.
* **`buildSend_fees`** — the amount that is sent and the fee that is said, part by part.
* **`buildSendTxData_charge_iff`** — the fee says what is taken exactly when rent and rent with buffer are
  the same, rounded up.
-/

namespace ElusivSdk

open InstructionBuilding Program TransactionBuilding

namespace TransactionBuilding

/-- The rent in the token. -/
def rentInToken (params : FetchedParams) : ℚ :=
  lamportsToToken params.tokenAccRent params.lamportsPerToken

/-- The rent that is taken with a send. -/
def chargedRent (request : SendRequest) (params : FetchedParams) : ℤ :=
  if isAssociatedTokenAcc request then ⌈rentInToken params⌉ else 0

lemma realAmount_eq (request : SendRequest) (amount : ℤ) (params : FetchedParams) :
    realAmount request amount (rentInToken params)
      = amount + chargedRent request params + request.extraFee.amount := by
  rw [realAmount, chargedRent, isAssociatedTokenAcc]
  cases request.recipient.doesExist <;> cases request.tokenType <;> simp

/-- Rent is taken without the buffer. -/
lemma chargedRent_eq_disclosedRent_iff (request : SendRequest) (params : FetchedParams) :
    chargedRent request params
        = disclosedRent request.tokenType params (!isAssociatedTokenAcc request) ↔
      (isAssociatedTokenAcc request = true →
        ⌈rentInToken params⌉ = ⌈rentInToken params * (102 / 100)⌉) := by
  rw [chargedRent, disclosedRent]
  cases hassoc : isAssociatedTokenAcc request with
  | false =>
      rw [if_neg Bool.false_ne_true, Bool.not_false, if_pos rfl]
      exact iff_of_true rfl fun h => absurd h Bool.false_ne_true
  | true =>
      have htoken : request.tokenType ≠ .LAMPORTS := by
        rw [isAssociatedTokenAcc, Bool.and_eq_true, bne_iff_ne] at hassoc
        exact hassoc.2
      rw [if_pos rfl, Bool.not_true, if_neg Bool.false_ne_true, bufferMultiplier, if_neg htoken]
      exact ⟨fun heq _ => heq, fun heq => heq rfl⟩

/-- The buffer only adds. -/
lemma chargedRent_le_disclosedRent (request : SendRequest) {params : FetchedParams}
    (hrent : 0 ≤ params.tokenAccRent) (hprice : 0 ≤ params.lamportsPerToken) :
    chargedRent request params
      ≤ disclosedRent request.tokenType params (!isAssociatedTokenAcc request) := by
  have hnonneg : 0 ≤ rentInToken params :=
    lamportsToToken_nonneg (Int.cast_nonneg hrent) hprice
  rw [chargedRent, disclosedRent]
  cases isAssociatedTokenAcc request with
  | false => exact le_refl 0
  | true =>
      refine Int.ceil_mono ?_
      show rentInToken params ≤ rentInToken params * bufferMultiplier request.tokenType
      have hbuffer : 1 ≤ bufferMultiplier request.tokenType := by
        rw [bufferMultiplier]
        split_ifs <;> norm_num
      exact le_mul_of_one_le_right hnonneg hbuffer

/-- From fifty on the buffer always shows. -/
lemma ceil_lt_ceil_buffer {rent : ℚ} (hrent : 50 ≤ rent) : ⌈rent⌉ < ⌈rent * (102 / 100)⌉ := by
  refine Int.lt_ceil.mpr ?_
  have hceil : (⌈rent⌉ : ℚ) < rent + 1 := Int.ceil_lt_add_one rent
  linarith

end TransactionBuilding

/-- The fee of a send, from its proof inputs and the amount with rent and extra fee. -/
def TransactionBuilding.sendFee {poseidon : Poseidon} (circuits : Circuits poseidon)
    (serialization : Serialization) (seedWrapper : SeedWrapper) (request : SendRequest) (amount : ℤ)
    (params : FetchedParams) : Except Failure Fee :=
  let nonce := (params.lastNonce + 1).toNat
  let encryptedOwner :=
    seedWrapper.getRootViewingKeyWrapper.encryptSeededSaltedAES256 request.owner.bytes nonce
  generateSendFee serialization
    (generateProofInputs circuits seedWrapper request params nonce encryptedOwner) request.tokenType
    (realAmount request amount (rentInToken params)) params (!isAssociatedTokenAcc request)

section Charge

variable {poseidon : Poseidon} {circuits : Circuits poseidon} {serialization : Serialization}
  {seedWrapper : SeedWrapper} {params : FetchedParams} {request : SendRequest}

/-- **The amount of a send has rent and extra fee in it, and so does the fee, with the buffer.** -/
theorem buildSend_fees {sendTx : SendTx} {fee : Fee}
    (h : buildSend circuits serialization seedWrapper request params = .ok (sendTx, fee)) :
    ∃ amount : ℤ, request.amount = amount ∧
      sendFee circuits serialization seedWrapper request amount params = .ok fee ∧
      sendTx.amount = amount + chargedRent request params + request.extraFee.amount ∧
      getTotalFeeAmount fee = getComputationFeeTotal fee.toBasicFee
        + disclosedRent request.tokenType params (!isAssociatedTokenAcc request)
        + request.extraFee.amount := by
  obtain ⟨amount, hamount, hreal, hfee⟩ := buildSend_payment h
  refine ⟨amount, hamount, ?_, hreal.trans (realAmount_eq request amount params),
    getTotalFeeAmount_generateSendFee hfee⟩
  rw [hreal] at hfee
  exact hfee

/-- **What is taken from the private balance**, by what the fee says. -/
theorem buildSend_charge {sendTx : SendTx} {fee : Fee}
    (h : buildSend circuits serialization seedWrapper request params = .ok (sendTx, fee)) :
    ((sumBalance params.activeCommitments - sendTx.commitment.balance : ℤ) : ℚ)
      = request.amount + getTotalFeeAmount fee + chargedRent request params
        - disclosedRent request.tokenType params (!isAssociatedTokenAcc request) := by
  obtain ⟨amount, hamount, -, hreal, htotal⟩ := buildSend_fees h
  have hnext : sendTx.commitment.balance = sumBalance params.activeCommitments - sendTx.amount
      - getComputationFeeTotal fee.toBasicFee := by
    rw [(buildSend_spec h).commitment_eq]
    rfl
  rw [hnext, hreal, htotal, hamount]
  push_cast
  ring

/-- **The decrease of the private balance is the amount with the fee that is said — exactly when** the
recipient has a token account, or the token needs none, or the buffer is lost in the rounding. -/
theorem buildSendTxData_charge_iff {txData : SendTxData}
    (h : buildSendTxData circuits serialization seedWrapper request params = .ok txData) :
    ∃ sendTx fee, buildSend circuits serialization seedWrapper request params = .ok (sendTx, fee) ∧
      txData = @sendTxToSendTxData poseidon sendTx fee params.merkleStartIndex ∧
      (((sumBalance params.activeCommitments - sendTx.commitment.balance : ℤ) : ℚ)
          = request.amount + txData.getTotalFeeAmount ↔
        (isAssociatedTokenAcc request = true →
          ⌈rentInToken params⌉ = ⌈rentInToken params * (102 / 100)⌉)) := by
  obtain ⟨⟨sendTx, fee⟩, hsend, h⟩ := bind_eq_ok.mp h
  obtain rfl := Except.ok.inj h
  refine ⟨sendTx, fee, hsend, rfl, ?_⟩
  rw [← chargedRent_eq_disclosedRent_iff, buildSend_charge hsend]
  show _ = request.amount + (getTotalFeeAmount fee : ℚ) ↔ _
  constructor
  · intro heq
    exact_mod_cast (by linarith : (chargedRent request params : ℚ)
      = disclosedRent request.tokenType params (!isAssociatedTokenAcc request))
  · intro heq
    rw [heq]
    ring

/-- A send to a missing token account takes less than its fee says, from a rent of fifty on. -/
theorem buildSend_charge_lt {sendTx : SendTx} {fee : Fee}
    (h : buildSend circuits serialization seedWrapper request params = .ok (sendTx, fee))
    (hassoc : isAssociatedTokenAcc request = true) (hrent : 50 ≤ rentInToken params) :
    ((sumBalance params.activeCommitments - sendTx.commitment.balance : ℤ) : ℚ)
      < request.amount + getTotalFeeAmount fee := by
  have htoken : request.tokenType ≠ .LAMPORTS := by
    rw [isAssociatedTokenAcc, Bool.and_eq_true, bne_iff_ne] at hassoc
    exact hassoc.2
  have hlt : chargedRent request params
      < disclosedRent request.tokenType params (!isAssociatedTokenAcc request) := by
    rw [chargedRent, disclosedRent, hassoc, if_pos rfl, Bool.not_true, if_neg Bool.false_ne_true,
      bufferMultiplier, if_neg htoken]
    exact ceil_lt_ceil_buffer hrent
  have hlt' : (chargedRent request params : ℚ)
      < disclosedRent request.tokenType params (!isAssociatedTokenAcc request) := by
    exact_mod_cast hlt
  rw [buildSend_charge h]
  linarith

end Charge

/-! ### A send to a missing token account -/

/-- The rent is 40785.6 of the token. -/
def rentParams : FetchedParams :=
  { plainParams 0 [buildTopupCommitment 0 1000000000 .USDC 7 plainSeed] with
    lamportsPerToken := 50
    tokenAccRent := 2039280 }

def missingAccRequest : SendRequest :=
  { plainSendRequest 5000000 with
    tokenType := .USDC
    recipient := ⟨ElusivTransaction.bareKey 13, ElusivTransaction.bareKey 14, false⟩ }

def missingAccSend : Except Failure (SendTx × Fee) :=
  buildSend plainCircuits plainSerialization plainSeed missingAccRequest rentParams

def missingAccSendData : Except Failure SendTxData :=
  buildSendTxData plainCircuits plainSerialization plainSeed missingAccRequest rentParams

lemma missingAccSendData_isOk : missingAccSendData.isOk = true := by decide +kernel

theorem buildSendTxData_charge_iff_missingAcc :
    ∃ sendTx fee, missingAccSend = .ok (sendTx, fee) ∧
      ((sumBalance rentParams.activeCommitments - sendTx.commitment.balance : ℤ) : ℚ)
        ≠ missingAccRequest.amount + getTotalFeeAmount fee := by
  have hok : buildSendTxData plainCircuits plainSerialization plainSeed missingAccRequest rentParams
      = .ok (value missingAccSendData missingAccSendData_isOk) := eq_ok_value missingAccSendData_isOk
  obtain ⟨sendTx, fee, hsend, hdata, hiff⟩ := buildSendTxData_charge_iff hok
  refine ⟨sendTx, fee, hsend, fun heq => ?_⟩
  rw [hdata] at hiff
  exact absurd (hiff.mp heq (by decide +kernel)) (by decide +kernel)

/-- **For the rent of 40786 the fee says 41602**, so less is taken than the amount with the fee. -/
theorem buildSendTxData_overstates_rent :
    missingAccSendData.isOk = true ∧
      (missingAccSend.map fun send =>
        sumBalance rentParams.activeCommitments - send.1.commitment.balance) = .ok 5046090 ∧
      (missingAccSendData.map fun txData =>
        missingAccRequest.amount + txData.getTotalFeeAmount) = .ok 5046906 :=
  ⟨missingAccSendData_isOk, by decide +kernel, by decide +kernel⟩

end ElusivSdk
