import ElusivSdk.TxBuilding.SendCharge

/-!
# Withdrawing everything

`buildWithdrawTx` estimates what the send of the whole balance costs, puts five percent on top, and sends
what is left.  The extra fee is given to the send and not to the estimate, so it has to fit in the five
percent, together with what the real proof inputs cost more than the dummies of the estimate.

* `Elusiv.estimateSendFee`, `Elusiv.buildSendTx`, `Elusiv.buildWithdrawTx` — the translated methods.
* `WithdrawalKept` — what a withdrawal is for: it uses up the balance, and is refused only for want of funds.
* `WithdrawalFits` — extra fee and real inputs fit in the buffer, or the funds do not suffice anyway.
* **`buildWithdrawTx_iff`** — the two are the same.
* `buildWithdrawTx_rejects` — an extra fee that does not fit, with funds in plenty.

Fee account, price and rent are those of the build: they do not change during the call, and the copies
that are kept between calls are taken to be up to date.
-/

namespace ElusivSdk

open InstructionBuilding Program TransactionBuilding

def cleanUserInput (n : ℚ) : ℤ := ⌊n⌋

/-- The token account of the recipient is looked up already. -/
structure SendFeeCalcInfo where
  amount : ℚ
  tokenType : TokenType
  recipient : TokenAcc
  extraFee : Option OptionalFee
deriving DecidableEq

/-- What a withdrawal is asked for; the owner receives. -/
structure WithdrawRequest where
  tokenType : TokenType
  owner : TokenAcc
  extraFee : OptionalFee
  warden : PublicKey
deriving DecidableEq

/-- The errors of a withdrawal, and those of what it calls. -/
inductive WithdrawError
  | insufficientFunds
  | insufficientFee
  | other (failure : Failure)
deriving DecidableEq

def WithdrawError.toFailure : WithdrawError → Failure
  | insufficientFunds => .error "Insufficient funds to pay for withdraw fee"
  | insufficientFee => .error "Insufficient fee for withdraw tx, please try again."
  | other failure => failure

namespace Elusiv

section Methods

variable {poseidon : Poseidon} (circuits : Circuits poseidon) (serialization : Serialization)
  (seedWrapper : SeedWrapper)

/-- There is no token account for lamports, so it counts as there. -/
def existsTA (tokenType : TokenType) (recipient : TokenAcc) : Bool :=
  tokenType == .LAMPORTS || recipient.doesExist

def extraFeeNumber : Option OptionalFee → Except Failure ℤ
  | some extraFee => serialization.bigIntToNumber extraFee.amount
  | none => .ok 0

def estimateSendFee (feeCalcInfo : SendFeeCalcInfo) (params : FetchedParams) : Except Failure Fee := do
  if params.lamportsPerToken = -1 then
    .error (.error ("Invalid Token price for token " ++ feeCalcInfo.tokenType.toString))
  else
    let lamportFee ← params.feeCalculator.estimateSendFee serialization
      (cleanUserInput feeCalcInfo.amount) (existsTA feeCalcInfo.tokenType feeCalcInfo.recipient)
      params.tokenAccRent
    let extraFee ← extraFeeNumber serialization feeCalcInfo.extraFee
    lamportFeeToTokenFee lamportFee.toBasicFee feeCalcInfo.tokenType params.lamportsPerToken extraFee

/-- What is asked of the builder; here a token account for lamports counts as missing. -/
def sendRequest (request : SendRequest) : SendRequest :=
  { request with
    amount := cleanUserInput request.amount
    recipient :=
      { request.recipient with
        doesExist := request.tokenType != .LAMPORTS && request.recipient.doesExist } }

def buildSendTx (request : SendRequest) (params : FetchedParams) : Except Failure SendTxData :=
  buildSendTxData circuits serialization seedWrapper (sendRequest request) params

def withdrawCalcInfo (request : WithdrawRequest) (tokenBalance : ℤ) (extraFee : Option OptionalFee) :
    SendFeeCalcInfo :=
  { amount := tokenBalance
    tokenType := request.tokenType
    recipient := request.owner
    extraFee := extraFee }

/-- The send of a withdrawal. -/
def withdrawSend (request : WithdrawRequest) (amount : ℚ) : SendRequest :=
  { amount := amount
    tokenType := request.tokenType
    recipient := request.owner
    owner := request.owner.owner
    warden := request.warden
    refKey := none
    memo := none
    extraFee := request.extraFee
    isSolanaPayTransfer := false
    isMerge := false }

/-- Five percent for price changes while building. -/
def withdrawFee (estimate : Fee) : ℚ := getTotalFeeAmount estimate * (105 / 100)

def buildWithdrawTx (request : WithdrawRequest) (latestPrivateBalance : ℤ) (params : FetchedParams) :
    Except WithdrawError SendTxData := do
  let tokenBalance ← (serialization.bigIntToNumber latestPrivateBalance).mapError .other
  -- without the extra fee
  let estimate ← (estimateSendFee serialization (withdrawCalcInfo request tokenBalance none)
    params).mapError .other
  if tokenBalance ≤ withdrawFee estimate then .error .insufficientFunds
  else
    let withdrawTx ← (buildSendTx circuits serialization seedWrapper
      (withdrawSend request (tokenBalance - withdrawFee estimate)) params).mapError .other
    if withdrawTx.getTotalFeeAmount > withdrawFee estimate then .error .insufficientFee
    else pure withdrawTx

end Methods

/-! ## The estimate and the send -/

section Withdrawal

variable {poseidon : Poseidon} {circuits : Circuits poseidon} {serialization : Serialization}
  {seedWrapper : SeedWrapper} {request : WithdrawRequest} {params : FetchedParams}

lemma extraFeeNumber_eq {extraFee : Option OptionalFee} {n : ℤ}
    (h : extraFeeNumber serialization extraFee = .ok n) :
    n = (extraFee.map OptionalFee.amount).getD 0 := by
  cases extraFee with
  | none => exact (Except.ok.inj h).symm
  | some fee => exact serialization.bigIntToNumber_exact h

/-- The sum of an estimate. -/
lemma getTotalFeeAmount_estimateSendFee {feeCalcInfo : SendFeeCalcInfo} {estimate : Fee}
    (h : estimateSendFee serialization feeCalcInfo params = .ok estimate) :
    getTotalFeeAmount estimate = getComputationFeeTotal estimate.toBasicFee
      + disclosedRent feeCalcInfo.tokenType params (existsTA feeCalcInfo.tokenType feeCalcInfo.recipient)
      + (feeCalcInfo.extraFee.map OptionalFee.amount).getD 0 := by
  rw [estimateSendFee] at h
  split at h
  · nomatch h
  obtain ⟨lamportFee, hlamports, h⟩ := bind_eq_ok.mp h
  obtain ⟨extraFee, hextra, h⟩ := bind_eq_ok.mp h
  rw [getTotalFeeAmount_lamportFeeToTokenFee h, extraFeeNumber_eq hextra,
    FeeCalculator.tokenAccRent_getSendFee hlamports, disclosedRent_eq]

/-- An estimate with an extra fee is that without, and the extra fee. -/
lemma estimateSendFee_extraFee {feeCalcInfo : SendFeeCalcInfo} {estimate : Fee} {n : ℤ}
    (h : estimateSendFee serialization { feeCalcInfo with extraFee := none } params = .ok estimate)
    {extraFee : OptionalFee} (hnumber : serialization.bigIntToNumber extraFee.amount = .ok n) :
    estimateSendFee serialization { feeCalcInfo with extraFee := some extraFee } params
      = .ok { estimate with extraFee := n } := by
  rw [estimateSendFee] at h ⊢
  split at h
  · nomatch h
  rename_i hprice
  obtain ⟨lamportFee, hlamports, h⟩ := bind_eq_ok.mp h
  obtain ⟨extra, -, h⟩ := bind_eq_ok.mp h
  rw [if_neg hprice]
  exact bind_eq_ok.mpr ⟨lamportFee, hlamports, bind_eq_ok.mpr ⟨n, hnumber,
    lamportFeeToTokenFee_extraFee h n⟩⟩

/-- An extra fee that is estimated is a number. -/
lemma exists_bigIntToNumber {feeCalcInfo : SendFeeCalcInfo} {withExtra : Fee} {extraFee : OptionalFee}
    (h : estimateSendFee serialization { feeCalcInfo with extraFee := some extraFee } params
      = .ok withExtra) : ∃ n, serialization.bigIntToNumber extraFee.amount = .ok n := by
  rw [estimateSendFee] at h
  split at h
  · nomatch h
  obtain ⟨lamportFee, -, h⟩ := bind_eq_ok.mp h
  obtain ⟨n, hnumber, h⟩ := bind_eq_ok.mp h
  exact ⟨n, hnumber⟩

/-! ## What a withdrawal is for, and when it is that -/

section Definitions

variable (circuits serialization seedWrapper request params)

/-- The estimate for the whole balance. -/
def withdrawEstimate (extraFee : Option OptionalFee) : Except Failure Fee := do
  let tokenBalance ← serialization.bigIntToNumber (sumBalance params.activeCommitments)
  estimateSendFee serialization (withdrawCalcInfo request tokenBalance extraFee) params

/-- The send of what the buffered estimate leaves. -/
def withdrawRest (estimate : Fee) : SendRequest :=
  sendRequest (withdrawSend request (sumBalance params.activeCommitments - withdrawFee estimate))

/-- A withdrawal that returns uses up the balance, but for the buffer; one that is refused for want of
funds would cost more than there is, extra fee included. -/
structure WithdrawalKept : Prop where
  returned : ∀ txData, buildWithdrawTx circuits serialization seedWrapper request
      (sumBalance params.activeCommitments) params = .ok txData →
    ∃ estimate sendTx fee, withdrawEstimate serialization request params none = .ok estimate ∧
      buildSend circuits serialization seedWrapper (withdrawRest request params estimate) params
        = .ok (sendTx, fee) ∧
      txData = @sendTxToSendTxData poseidon sendTx fee params.merkleStartIndex ∧
      (withdrawRest request params estimate).amount + txData.getTotalFeeAmount
        ≤ sumBalance params.activeCommitments ∧
      sumBalance params.activeCommitments - 105 / 100 * (getTotalFeeAmount estimate : ℚ)
        ≤ (withdrawRest request params estimate).amount + txData.getTotalFeeAmount ∧
      0 ≤ sendTx.commitment.balance
  rejected : ∀ failure, failure = .insufficientFunds ∨ failure = .insufficientFee →
    buildWithdrawTx circuits serialization seedWrapper request (sumBalance params.activeCommitments)
      params = .error failure →
    ∀ withExtra, withdrawEstimate serialization request params (some request.extraFee) = .ok withExtra →
      (sumBalance params.activeCommitments : ℚ) ≤ 105 / 100 * getTotalFeeAmount withExtra

/-- What the real proof inputs cost more than those of the estimate, with the extra fee. -/
def beyondEstimate (estimate fee : Fee) : ℤ :=
  request.extraFee.amount
    + (getComputationFeeTotal fee.toBasicFee - getComputationFeeTotal estimate.toBasicFee)

/-- The funds do not suffice, extra fee included, whenever a withdrawal is refused; and its fee makes up
for what is lost when the amount is rounded down. -/
structure WithdrawalFits : Prop where
  funds : ∀ estimate withExtra, withdrawEstimate serialization request params none = .ok estimate →
    withdrawEstimate serialization request params (some request.extraFee) = .ok withExtra →
    sumBalance params.activeCommitments ≤ withdrawFee estimate →
    sumBalance params.activeCommitments ≤ withdrawFee estimate + 105 / 100 * request.extraFee.amount
  buffer : ∀ estimate fee, withdrawEstimate serialization request params none = .ok estimate →
    withdrawFee estimate < sumBalance params.activeCommitments →
    sendFee circuits serialization seedWrapper (withdrawRest request params estimate)
      ⌊sumBalance params.activeCommitments - withdrawFee estimate⌋ params = .ok fee →
    (buildSend circuits serialization seedWrapper (withdrawRest request params estimate) params).isOk
      = true →
    if beyondEstimate request estimate fee ≤ 5 / 100 * (getTotalFeeAmount estimate : ℚ) then
      Int.fract (sumBalance params.activeCommitments - withdrawFee estimate)
        ≤ (getTotalFeeAmount estimate + beyondEstimate request estimate fee : ℤ)
    else
      sumBalance params.activeCommitments ≤ withdrawFee estimate + 105 / 100 * request.extraFee.amount

end Definitions

/-- The extra fee is in one of the estimates, when it is a number. -/
lemma withdrawEstimate_extraFee {estimate : Fee} {n : ℤ}
    (h : withdrawEstimate serialization request params none = .ok estimate)
    (hnumber : serialization.bigIntToNumber request.extraFee.amount = .ok n) :
    ∃ withExtra, withdrawEstimate serialization request params (some request.extraFee) = .ok withExtra ∧
      105 / 100 * (getTotalFeeAmount withExtra : ℚ)
        = withdrawFee estimate + 105 / 100 * request.extraFee.amount := by
  obtain ⟨tokenBalance, hbalance, h⟩ := bind_eq_ok.mp h
  have hextra := @estimateSendFee_extraFee serialization params
    (withdrawCalcInfo request tokenBalance none) estimate n h request.extraFee hnumber
  refine ⟨{ estimate with extraFee := n }, bind_eq_ok.mpr ⟨tokenBalance, hbalance, hextra⟩, ?_⟩
  rw [getTotalFeeAmount_estimateSendFee hextra, withdrawFee, getTotalFeeAmount_estimateSendFee h]
  show 105 / 100 * ((_ + request.extraFee.amount : ℤ) : ℚ) = ((_ + 0 : ℤ) : ℚ) * (105 / 100) + _
  push_cast
  ring

/-- The fee of the send, by its estimate. -/
lemma getTotalFeeAmount_sendFee {estimate fee : Fee} {amount : ℤ}
    (h : withdrawEstimate serialization request params none = .ok estimate)
    (hfee : sendFee circuits serialization seedWrapper (withdrawRest request params estimate) amount
      params = .ok fee) :
    getTotalFeeAmount fee = getTotalFeeAmount estimate + beyondEstimate request estimate fee := by
  obtain ⟨tokenBalance, -, h⟩ := bind_eq_ok.mp h
  have hexists : existsTA request.tokenType request.owner
      = !isAssociatedTokenAcc (withdrawRest request params estimate) := by
    show (request.tokenType == .LAMPORTS || request.owner.doesExist)
      = !(!(request.tokenType != .LAMPORTS && request.owner.doesExist) && request.tokenType != .LAMPORTS)
    cases request.tokenType <;> cases request.owner.doesExist <;> rfl
  rw [getTotalFeeAmount_estimateSendFee h, getTotalFeeAmount_generateSendFee hfee, ← hexists,
    beyondEstimate]
  show _ + disclosedRent request.tokenType params (existsTA request.tokenType request.owner)
      + request.extraFee.amount
    = _ + disclosedRent request.tokenType params (existsTA request.tokenType request.owner) + 0 + _
  ring

/-- The extra fee of a send is a number. -/
lemma exists_bigIntToNumber_of_sendFee {sendRequest : SendRequest} {fee : Fee} {amount : ℤ}
    (h : sendFee circuits serialization seedWrapper sendRequest amount params = .ok fee) :
    ∃ n, serialization.bigIntToNumber sendRequest.extraFee.amount = .ok n := by
  obtain ⟨lamportFee, -, h⟩ := bind_eq_ok.mp h
  obtain ⟨n, hnumber, -⟩ := bind_eq_ok.mp h
  exact ⟨n, hnumber⟩

/-- What `buildWithdrawTx` does once the estimate is there. -/
lemma buildWithdrawTx_eq {estimate : Fee}
    (h : withdrawEstimate serialization request params none = .ok estimate) :
    buildWithdrawTx circuits serialization seedWrapper request (sumBalance params.activeCommitments)
        params
      = if sumBalance params.activeCommitments ≤ withdrawFee estimate then .error .insufficientFunds
        else match buildSend circuits serialization seedWrapper (withdrawRest request params estimate)
            params with
          | .error failure => .error (.other failure)
          | .ok (sendTx, fee) =>
              if getTotalFeeAmount fee > withdrawFee estimate then .error .insufficientFee
              else .ok (@sendTxToSendTxData poseidon sendTx fee params.merkleStartIndex) := by
  obtain ⟨tokenBalance, hnumber, h⟩ := bind_eq_ok.mp h
  obtain rfl := serialization.bigIntToNumber_exact hnumber
  rw [buildWithdrawTx, hnumber]
  show (Except.mapError _ (estimateSendFee serialization _ params) >>= _) = _
  rw [h]
  show (if _ then _ else _) = _
  split_ifs with hfunds
  · rfl
  · show (Except.mapError _ (buildSend circuits serialization seedWrapper
      (withdrawRest request params estimate) params >>= _) >>= _) = _
    cases buildSend circuits serialization seedWrapper (withdrawRest request params estimate)
      params with
    | error failure => rfl
    | ok send => rfl

/-- Without an estimate there is no refusal for want of funds. -/
lemma buildWithdrawTx_of_error {failure : Failure}
    (h : withdrawEstimate serialization request params none = .error failure) :
    buildWithdrawTx circuits serialization seedWrapper request (sumBalance params.activeCommitments)
      params = .error (.other failure) := by
  rw [withdrawEstimate] at h
  rw [buildWithdrawTx]
  cases hnumber : serialization.bigIntToNumber (sumBalance params.activeCommitments) with
  | error failure' =>
      rw [hnumber] at h
      obtain rfl := Except.error.inj h
      rfl
  | ok tokenBalance =>
      rw [hnumber] at h
      show (Except.mapError _ (estimateSendFee serialization _ params) >>= _) = _
      have hest : estimateSendFee serialization (withdrawCalcInfo request tokenBalance none) params
          = .error failure := h
      rw [hest]
      rfl

/-- The extra fee of the estimate that has one. -/
lemma withdrawFee_extraFee {estimate withExtra : Fee}
    (h : withdrawEstimate serialization request params none = .ok estimate)
    (hextra : withdrawEstimate serialization request params (some request.extraFee) = .ok withExtra) :
    105 / 100 * (getTotalFeeAmount withExtra : ℚ)
      = withdrawFee estimate + 105 / 100 * request.extraFee.amount := by
  obtain ⟨tokenBalance, -, hcalc⟩ := bind_eq_ok.mp hextra
  obtain ⟨n, hnumber⟩ := @exists_bigIntToNumber serialization params
    (withdrawCalcInfo request tokenBalance none) withExtra request.extraFee hcalc
  obtain ⟨withExtra', hextra', htotal⟩ := withdrawEstimate_extraFee h hnumber
  obtain rfl := Except.ok.inj (hextra.symm.trans hextra')
  exact htotal

/-- The send that is built has the fee of `sendFee`. -/
lemma sendFee_of_buildSend {estimate fee : Fee} {sendTx : SendTx}
    (h : buildSend circuits serialization seedWrapper (withdrawRest request params estimate) params
      = .ok (sendTx, fee)) :
    sendFee circuits serialization seedWrapper (withdrawRest request params estimate)
      ⌊sumBalance params.activeCommitments - withdrawFee estimate⌋ params = .ok fee := by
  obtain ⟨amount, hamount, hfee, -⟩ := buildSend_fees h
  have hfloor : ((⌊sumBalance params.activeCommitments - withdrawFee estimate⌋ : ℤ) : ℚ) = amount :=
    hamount
  rw [Int.cast_inj.mp hfloor]
  exact hfee

/-- What goes into the proof has a balance that is not negative. -/
lemma commitment_nonneg {sendRequest : SendRequest} {sendTx : SendTx} {fee : Fee}
    (h : buildSend circuits serialization seedWrapper sendRequest params = .ok (sendTx, fee)) :
    0 ≤ sendTx.commitment.balance := by
  obtain ⟨metadata, -, -, -, hbalance, -⟩ := (buildSend_spec h).metadata
  rw [← hbalance]
  exact metadata.balance_nonneg

/-- The send passes exactly when what is beyond the estimate is within the buffer. -/
lemma buildWithdrawTx_of_send {estimate fee : Fee} {sendTx : SendTx}
    (h : withdrawEstimate serialization request params none = .ok estimate)
    (hfunds : withdrawFee estimate < sumBalance params.activeCommitments)
    (hsend : buildSend circuits serialization seedWrapper (withdrawRest request params estimate) params
      = .ok (sendTx, fee)) :
    buildWithdrawTx circuits serialization seedWrapper request (sumBalance params.activeCommitments)
        params
      = if beyondEstimate request estimate fee ≤ 5 / 100 * (getTotalFeeAmount estimate : ℚ) then
          .ok (@sendTxToSendTxData poseidon sendTx fee params.merkleStartIndex)
        else .error .insufficientFee := by
  have htotal : (getTotalFeeAmount fee : ℚ)
      = getTotalFeeAmount estimate + beyondEstimate request estimate fee := by
    rw [getTotalFeeAmount_sendFee h (sendFee_of_buildSend hsend)]
    push_cast
    rfl
  rw [buildWithdrawTx_eq h, if_neg (not_le.mpr hfunds), hsend]
  dsimp only
  rw [htotal]
  split_ifs with hgt hbuffer hbuffer
  · rw [withdrawFee] at hgt
    linarith
  · rfl
  · rfl
  · rw [withdrawFee] at hgt
    linarith

/-- How a withdrawal can end. -/
lemma buildWithdrawTx_cases (circuits : Circuits poseidon) (serialization : Serialization)
    (seedWrapper : SeedWrapper) (request : WithdrawRequest) (params : FetchedParams) :
    (∃ failure, buildWithdrawTx circuits serialization seedWrapper request
        (sumBalance params.activeCommitments) params = .error (.other failure)) ∨
      ∃ estimate, withdrawEstimate serialization request params none = .ok estimate ∧
        ((sumBalance params.activeCommitments ≤ withdrawFee estimate ∧
            buildWithdrawTx circuits serialization seedWrapper request
              (sumBalance params.activeCommitments) params = .error .insufficientFunds) ∨
          withdrawFee estimate < sumBalance params.activeCommitments ∧
            ∃ sendTx fee, buildSend circuits serialization seedWrapper
              (withdrawRest request params estimate) params = .ok (sendTx, fee)) := by
  cases hest : withdrawEstimate serialization request params none with
  | error failure => exact .inl ⟨failure, buildWithdrawTx_of_error hest⟩
  | ok estimate =>
      by_cases hfunds : sumBalance params.activeCommitments ≤ withdrawFee estimate
      · exact .inr ⟨estimate, rfl, .inl ⟨hfunds, (buildWithdrawTx_eq hest).trans (if_pos hfunds)⟩⟩
      cases hsend : buildSend circuits serialization seedWrapper (withdrawRest request params estimate)
          params with
      | error failure =>
          refine .inl ⟨failure, ?_⟩
          rw [buildWithdrawTx_eq hest, if_neg hfunds, hsend]
      | ok send => exact .inr ⟨estimate, rfl, .inr ⟨not_le.mp hfunds, send.1, send.2, hsend⟩⟩

/-- Rounding the amount down loses less than one unit. -/
lemma amount_withdrawRest (estimate : Fee) :
    (withdrawRest request params estimate).amount
      = sumBalance params.activeCommitments - withdrawFee estimate
        - Int.fract (sumBalance params.activeCommitments - withdrawFee estimate) := by
  rw [Int.fract, sub_sub_cancel]
  rfl

lemma WithdrawalKept.fits (h : WithdrawalKept circuits serialization seedWrapper request params) :
    WithdrawalFits circuits serialization seedWrapper request params := by
  refine ⟨?_, ?_⟩
  · intro estimate withExtra hest hextra hfunds
    rw [← withdrawFee_extraFee hest hextra]
    exact h.rejected _ (.inl rfl) ((buildWithdrawTx_eq hest).trans (if_pos hfunds)) withExtra hextra
  · intro estimate fee hest hfunds hfee hbuild
    obtain ⟨sendTx, fee', hsend⟩ : ∃ sendTx fee', buildSend circuits serialization seedWrapper
        (withdrawRest request params estimate) params = .ok (sendTx, fee') := ⟨_, _, eq_ok_value hbuild⟩
    obtain rfl := Except.ok.inj (hfee.symm.trans (sendFee_of_buildSend hsend))
    have heq := buildWithdrawTx_of_send hest hfunds hsend
    split_ifs at heq ⊢ with hbuffer
    · obtain ⟨estimate', _, _, hest', -, -, -, hlower, -⟩ := h.returned _ heq
      obtain rfl := Except.ok.inj (hest.symm.trans hest')
      have htotal : (@sendTxToSendTxData poseidon sendTx fee params.merkleStartIndex).getTotalFeeAmount
          = getTotalFeeAmount estimate + beyondEstimate request estimate fee :=
        getTotalFeeAmount_sendFee hest hfee
      rw [amount_withdrawRest, htotal, withdrawFee] at hlower
      rw [withdrawFee]
      linarith
    · obtain ⟨n, hnumber⟩ := exists_bigIntToNumber_of_sendFee hfee
      obtain ⟨withExtra, hextra, hvalue⟩ := withdrawEstimate_extraFee hest hnumber
      rw [← hvalue]
      exact h.rejected _ (.inr rfl) heq withExtra hextra

lemma WithdrawalFits.kept (h : WithdrawalFits circuits serialization seedWrapper request params) :
    WithdrawalKept circuits serialization seedWrapper request params := by
  refine ⟨?_, ?_⟩
  · intro txData hreturn
    rcases buildWithdrawTx_cases circuits serialization seedWrapper request params with
      ⟨failure, heq⟩ | ⟨estimate, hest, ⟨-, heq⟩ | ⟨hfunds, sendTx, fee, hsend⟩⟩
    · nomatch heq.symm.trans hreturn
    · nomatch heq.symm.trans hreturn
    have hfee := sendFee_of_buildSend hsend
    have hfits := h.buffer estimate fee hest hfunds hfee (by rw [hsend]; rfl)
    rw [buildWithdrawTx_of_send hest hfunds hsend] at hreturn
    split_ifs at hreturn hfits with hbuffer
    obtain rfl := Except.ok.inj hreturn
    have htotal : (@sendTxToSendTxData poseidon sendTx fee params.merkleStartIndex).getTotalFeeAmount
        = getTotalFeeAmount estimate + beyondEstimate request estimate fee :=
      getTotalFeeAmount_sendFee hest hfee
    have hfract := Int.fract_nonneg (sumBalance params.activeCommitments - withdrawFee estimate)
    refine ⟨estimate, sendTx, fee, hest, hsend, rfl, ?_, ?_, commitment_nonneg hsend⟩
    · rw [amount_withdrawRest, htotal]
      push_cast
      have hdef : withdrawFee estimate = getTotalFeeAmount estimate * (105 / 100) := rfl
      linarith
    · rw [amount_withdrawRest, htotal]
      have hdef : withdrawFee estimate = getTotalFeeAmount estimate * (105 / 100) := rfl
      linarith
  · intro failure hfailure hreject withExtra hextra
    rcases buildWithdrawTx_cases circuits serialization seedWrapper request params with
      ⟨failure', heq⟩ | ⟨estimate, hest, ⟨hfunds, -⟩ | ⟨hfunds, sendTx, fee, hsend⟩⟩
    · rw [heq] at hreject
      obtain rfl := Except.error.inj hreject
      rcases hfailure with hfailure | hfailure <;> nomatch hfailure
    · rw [withdrawFee_extraFee hest hextra]
      exact h.funds estimate withExtra hest hextra hfunds
    · have hfits := h.buffer estimate fee hest hfunds (sendFee_of_buildSend hsend) (by rw [hsend]; rfl)
      rw [buildWithdrawTx_of_send hest hfunds hsend] at hreject
      split_ifs at hreject hfits with hbuffer
      rw [withdrawFee_extraFee hest hextra]
      exact hfits

/-- **A withdrawal uses up the balance, and is refused only for want of funds — exactly when** extra fee
and real proof inputs fit in the buffer of the estimate, or the funds do not suffice anyway. -/
theorem buildWithdrawTx_iff :
    WithdrawalKept circuits serialization seedWrapper request params ↔
      WithdrawalFits circuits serialization seedWrapper request params :=
  ⟨WithdrawalKept.fits, WithdrawalFits.kept⟩

end Withdrawal

/-! ### An extra fee that does not fit -/

/-- A billion is withdrawn to a token account that is missing. -/
def extraFeeRequest : WithdrawRequest :=
  { tokenType := .USDC
    owner := ⟨ElusivTransaction.bareKey 12, ElusivTransaction.bareKey 14, false⟩
    extraFee := ⟨ElusivTransaction.bareKey 9, 3000⟩
    warden := ElusivTransaction.bareKey 11 }

def extraFeeWithdrawal : Except WithdrawError SendTxData :=
  buildWithdrawTx plainCircuits plainSerialization plainSeed extraFeeRequest
    (sumBalance rentParams.activeCommitments) rentParams

def extraFeeEstimate : Except Failure Fee :=
  withdrawEstimate plainSerialization extraFeeRequest rentParams (some extraFeeRequest.extraFee)

/-- **With a billion the extra fee of 3000 is too much**, at an estimate of 50110 that includes it. -/
theorem buildWithdrawTx_rejects :
    extraFeeWithdrawal = .error .insufficientFee ∧
      extraFeeEstimate.map getTotalFeeAmount = .ok 50110 ∧
      sumBalance rentParams.activeCommitments = 1000000000 ∧
      ¬ WithdrawalKept plainCircuits plainSerialization plainSeed extraFeeRequest rentParams := by
  have hreject : extraFeeWithdrawal = .error .insufficientFee :=
    (map_eq_error (f := fun _ => ())).mp (by decide +kernel)
  have hestimate : extraFeeEstimate.map getTotalFeeAmount = .ok 50110 := by decide +kernel
  have hsum : sumBalance rentParams.activeCommitments = 1000000000 := by decide +kernel
  refine ⟨hreject, hestimate, hsum, fun h => ?_⟩
  obtain ⟨withExtra, hextra, htotal⟩ := map_eq_ok.mp hestimate
  have hle := h.rejected _ (.inr rfl) hreject withExtra hextra
  rw [hsum, htotal] at hle
  norm_num at hle

end Elusiv

end ElusivSdk
