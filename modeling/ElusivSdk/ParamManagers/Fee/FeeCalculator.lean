import ElusivSdk.ParamManagers.Fee.FeeUtils
import ElusivSdk.TxBuilding.Circuits

/-!
# The fee calculator

What topups and sends cost in lamports, from the fee account of the program and the batching rate.  A send
pays for the transactions in which its public inputs are prepared, and the amount, fee included, is one of
them.

* `getInputPreparationTxCountNoAmount` — the inputs are added byte by byte, until a transaction is full.
* `getSendTotalFeeInner` — the fee of a send; extra transactions are tried one after the other.
* `FeeCalculator.getStoreFee`, `FeeCalculator.getSendFee` — the two fees.
* `FeeCalculator.estimateSendFee` — the fee of a send before it is built, from dummy inputs.
-/

namespace ElusivSdk

open Format Program

def BASE_TX_PER_HASH : ℕ := 2
def MAX_BATCHING_RATE : ℕ := 4
def ADD_MIXED_COST : ℕ := 22000
def ADD_COST : ℕ := 30000
def MAX_COMPUTE_UNIT_LIMIT : ℕ := 1400000
def COMPUTE_UNIT_PADDING : ℕ := 70000
def MAX_CUS : ℕ := MAX_COMPUTE_UNIT_LIMIT - COMPUTE_UNIT_PADDING

/-- `ProgramFeeBorsh`; the fees in basis points are for the network. -/
structure ProgramFee where
  lamports_per_tx : ℕ
  base_commitment_network_fee : ℕ
  proof_network_fee : ℕ
  base_commitment_subvention : ℕ
  proof_subvention : ℕ
  warden_hash_tx_reward : ℕ
  warden_proof_reward : ℕ
  proof_base_tx_count : ℕ
deriving DecidableEq

structure FeeCalculator where
  feeData : ProgramFee
  minBatchingRate : ℕ
deriving DecidableEq

/-! ## The preparation of public inputs -/

/-- The transactions that are full, and the one that is filled. -/
structure InputPreparation where
  instructions : List ℕ
  rounds : ℕ
  computeUnits : ℕ
deriving DecidableEq

namespace InputPreparation

def start : InputPreparation := { instructions := [], rounds := 0, computeUnits := 0 }

/-- One round; it goes to a new transaction when the open one has no room for it. -/
def addRound (s : InputPreparation) (cus : ℕ) : InputPreparation :=
  if s.computeUnits + cus > MAX_CUS then
    { instructions := s.instructions ++ [s.rounds], rounds := 1, computeUnits := cus }
  else { s with rounds := s.rounds + 1, computeUnits := s.computeUnits + cus }

/-- What the 33 rounds of a public input cost: one for each byte, and one for the whole. -/
def roundCosts (publicInput : ℕ) : List ℕ :=
  (leBytes 32 publicInput).map (fun b => if b = 0 then 0 else ADD_MIXED_COST) ++
    [if publicInput = 0 then 0 else ADD_COST]

def addInput (s : InputPreparation) (publicInput : ℕ) : InputPreparation :=
  (roundCosts publicInput).foldl addRound s

/-- The open transaction is counted when it has any round. -/
def txCount (s : InputPreparation) : ℕ :=
  if s.rounds > 0 then s.instructions.length + 1 else s.instructions.length

end InputPreparation

/-- The transaction count and the units that the last one uses. -/
def getInputPreparationTxCountNoAmount (publicInputs : List ℕ) : ℕ × ℕ :=
  let s := publicInputs.foldl InputPreparation.addInput .start
  (s.txCount, s.computeUnits)

def getTxCountForExtraInput (input startingCUs : ℕ) : ℕ :=
  let (txCount, usedCUsLastTx) := getInputPreparationTxCountNoAmount [input]
  txCount - 1 + if usedCUsLastTx + startingCUs > MAX_CUS then 1 else 0

/-- The amount takes at most this many transactions more. -/
def maxExtraTx : ℕ := (31 * ADD_MIXED_COST + ADD_COST + MAX_CUS - 1) / MAX_CUS

/-- Hash of the inputs and next commitment are taken to be 253 one bits each. -/
def getPublicInputsFromSendQuadraInputsForFeeCalc (inputs : IncompleteSendQuadraProofInputs)
    (recentCommIndex : ℕ) : List ℕ :=
  inputs.nHashes ++ inputs.roots ++
    [inputs.feeVersion, inputs.tokenId, 2 ^ 253 - 1, 2 ^ 253 - 1, recentCommIndex]

def divCeilBigInt (a b : ℤ) : Except Failure ℤ :=
  if b = 0 then .error (.error "Division by zero")
  else .ok (if a.tdiv b * b < a then a.tdiv b + 1 else a.tdiv b)

/-! ## The fees -/

namespace FeeCalculator

variable (c : FeeCalculator)

def hashTxCompensation : ℤ := c.feeData.lamports_per_tx + c.feeData.warden_hash_tx_reward

def proofTxCompensation : ℤ := c.feeData.lamports_per_tx + c.feeData.warden_proof_reward

/-- The transactions of a batch, by batching rate. -/
def getCommitmentHashTxCount : Except Failure ℕ :=
  match [24, 24, 25, 29, 37][c.minBatchingRate]? with
  | some txCount => .ok txCount
  | none => .error (.error (TOO_LARGE_SIZE "Batching rate" c.minBatchingRate MAX_BATCHING_RATE))

def getCommitmentsPerBatch : Except Failure ℕ :=
  if c.minBatchingRate ≥ 53 then
    .error (.error (TOO_LARGE_SIZE "Minimum batching rate" c.minBatchingRate 53))
  else .ok (2 ^ c.minBatchingRate)

def commitmentHashFee : Except Failure ℤ := do
  let txCount ← c.getCommitmentHashTxCount
  let commsPerBatch ← c.getCommitmentsPerBatch
  divCeilBigInt (txCount * c.hashTxCompensation) commsPerBatch

def proofVerificationNetworkFee (amount : ℤ) : ℤ := (c.feeData.proof_network_fee * amount).tdiv 10000

def baseCommNetworkFee (amount : ℤ) : ℤ := (c.feeData.base_commitment_network_fee * amount).tdiv 10000

def getStoreTotalFee (amount : ℤ) : Except Failure ℤ := do
  let commitmentHashFee ← c.commitmentHashFee
  pure (BASE_TX_PER_HASH * c.hashTxCompensation + c.baseCommNetworkFee amount + commitmentHashFee +
    c.feeData.lamports_per_tx - c.feeData.base_commitment_subvention)

def getStorePrivacyFee : ℤ := 0

def getSendPrivacyFee (amount : ℤ) : ℤ := c.proofVerificationNetworkFee amount

def getSendFeeFixedCosts : Except Failure ℤ := do
  let commitmentHashFee ← c.commitmentHashFee
  pure (c.feeData.warden_proof_reward + commitmentHashFee +
    c.feeData.proof_base_tx_count * c.proofTxCompensation)

/-- The first number of extra transactions that is enough for itself. -/
def getSendTotalFeeInner (pubInputsNoAmount : List ℕ) (amountToSend : ℤ) : Except Failure ℤ := do
  let (txCount, usedCUsLastTx) := getInputPreparationTxCountNoAmount pubInputsNoAmount
  let fixedCosts ← c.getSendFeeFixedCosts
  let baseAmount := amountToSend + fixedCosts + c.getSendPrivacyFee amountToSend +
    txCount * c.proofTxCompensation
  let subvention : ℤ := c.feeData.proof_subvention
  -- the second branch sets the amount to 0 before it takes it off the subvention
  let (baseAmount, remainingSubvention) :=
    if baseAmount > subvention then (baseAmount - subvention, 0) else (0, subvention)
  let totalAmount (i : ℕ) : ℤ := baseAmount + i * c.proofTxCompensation
  match (List.range (maxExtraTx + 1)).find? fun i =>
      getTxCountForExtraInput (totalAmount i).toNat usedCUsLastTx ≤ i with
  | some i => pure (totalAmount i - amountToSend - remainingSubvention)
  | none => .error (.error (TOO_LARGE_SIZE "transaction count" (maxExtraTx + 1) maxExtraTx))

def getSendTotalFee (inputs : IncompleteSendQuadraProofInputs) (amountToSend : ℤ)
    (recentCommIndex : ℕ) : Except Failure ℤ :=
  c.getSendTotalFeeInner (getPublicInputsFromSendQuadraInputsForFeeCalc inputs recentCommIndex)
    amountToSend

variable (serialization : Serialization)

def getStoreFee (amount : ℤ) : Except Failure Fee := do
  let totalFee ← c.getStoreTotalFee amount
  let txFee ← serialization.bigIntToNumber totalFee
  let privacyFee ← serialization.bigIntToNumber getStorePrivacyFee
  pure
    { tokenType := .LAMPORTS
      txFee := txFee
      privacyFee := privacyFee
      extraFee := 0
      tokenAccRent := 0
      lamportsPerToken := some 1 }

def getSendFee (inputs : IncompleteSendQuadraProofInputs) (amountToSend : ℤ) (recentCommIndex : ℕ)
    (tokenAccRentLamports : ℚ) (recipientExists : Bool) : Except Failure Fee := do
  let totalFee ← c.getSendTotalFee inputs amountToSend recentCommIndex
  let privacyFee := c.getSendPrivacyFee amountToSend
  let txFee ← serialization.bigIntToNumber (totalFee - privacyFee)
  let privacyFee ← serialization.bigIntToNumber privacyFee
  let extraFee ← serialization.bigIntToNumber inputs.hashedData.optionalFeeAmount
  pure
    { tokenType := .LAMPORTS
      txFee := txFee
      privacyFee := privacyFee
      extraFee := extraFee
      tokenAccRent := if recipientExists then 0 else tokenAccRentLamports
      lamportsPerToken := some 1 }

/-- Half of the bits are ones.  What the fee does not depend on is left out. -/
def getDummyIncompleteSendQuadraInputs : IncompleteSendQuadraProofInputs :=
  let alternating16 := 255
  let a256Arr4 := List.replicate 4 340282366920938463463374607431768211455
  { inputCommitments := []
    nHashes := a256Arr4
    roots := a256Arr4
    feeVersion := alternating16
    tokenId := alternating16
    hashedData :=
      { recipient := 0, identifier := 0, iv := 0, encryptedOwner := 0, solanaPayId := 0
        optionalFeeCollector := 0, optionalFeeAmount := 0, isAssociatedTokenAccount := true
        memo := none } }

/-- The fee before the build: the largest index is taken for the recent one. -/
def estimateSendFee (amount : ℤ) (recipientExists : Bool) (tokenAccRentLamports : ℚ) :
    Except Failure Fee :=
  c.getSendFee serialization getDummyIncompleteSendQuadraInputs amount (2 ^ MERKLE_TREE_HEIGHT - 1)
    tokenAccRentLamports recipientExists

/-- Only a missing account costs rent. -/
lemma tokenAccRent_getSendFee {c : FeeCalculator} {serialization : Serialization}
    {inputs : IncompleteSendQuadraProofInputs} {amountToSend : ℤ} {recentCommIndex : ℕ}
    {tokenAccRentLamports : ℚ} {recipientExists : Bool} {fee : Fee}
    (h : c.getSendFee serialization inputs amountToSend recentCommIndex tokenAccRentLamports
      recipientExists = .ok fee) :
    fee.tokenAccRent = if recipientExists then 0 else tokenAccRentLamports := by
  obtain ⟨totalFee, -, h⟩ := bind_eq_ok.mp h
  obtain ⟨txFee, -, h⟩ := bind_eq_ok.mp h
  obtain ⟨privacyFee, -, h⟩ := bind_eq_ok.mp h
  obtain ⟨extraFee, -, h⟩ := bind_eq_ok.mp h
  obtain rfl := Except.ok.inj h
  rfl

end FeeCalculator

end ElusivSdk
