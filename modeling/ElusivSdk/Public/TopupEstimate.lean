import ElusivSdk.Public.Withdraw
import ElusivSdk.TxBuilding.TopupSequence
import ElusivSdk.TxBuilding.ValueConservation
import ElusivSdk.Utils.PubKeyUtils

/-!
# Estimating topups

`estimateTopupFeesBatch` estimates what consecutive topups cost.  It counts the topups of each token and adds
the fee of a merge whenever its counter is full; the counters start at zero, whatever the wallet holds.

* `addFees`, `Elusiv.estimateSendFeeInternal`, `Elusiv.estimateTopupFeeInternal` — the translated functions.
* `TopupEstimate`, `Elusiv.topupEstimates`, `Elusiv.estimateTopupFeesBatch` — the loop, and its fees.
* **`Elusiv.estimateTopupFeesBatch_merges_iff`** — merges are estimated where they are made exactly when no
  token that the wallet holds comes to a merge.
-/

namespace ElusivSdk

open BoundedCounter InstructionBuilding Program TransactionBuilding Transition

def INVALID_TOKEN_TYPE : Failure := .error "Invalid token type"

def INVALID_CONVERSION_RATE : Failure := .error "Invalid converstion rate"

/-- The first price that is not zero. -/
def addFees (f1 f2 : Fee) : Except Failure Fee :=
  if f1.tokenType ≠ f2.tokenType then .error INVALID_TOKEN_TYPE
  else if f1.lamportsPerToken.isSome ∧ f2.lamportsPerToken.isSome ∧
      f1.lamportsPerToken ≠ f2.lamportsPerToken then .error INVALID_CONVERSION_RATE
  else .ok
    { tokenType := f1.tokenType
      txFee := f1.txFee + f2.txFee
      privacyFee := f1.privacyFee + f2.privacyFee
      tokenAccRent := f1.tokenAccRent + f2.tokenAccRent
      extraFee := f1.extraFee + f2.extraFee
      lamportsPerToken := (f1.lamportsPerToken.filter (· ≠ 0)).or f2.lamportsPerToken }

structure TopupFeeCalcInfo where
  amount : ℚ
  tokenType : TokenType
deriving DecidableEq

/-- The token account of the recipient is not looked up yet. -/
structure SendFeeInfo where
  amount : ℚ
  tokenType : TokenType
  recipient : PublicKey
  extraFee : Option OptionalFee
  customRecipientTA : Option PublicKey
deriving DecidableEq

/-- One fee of a batch, before it is awaited. -/
inductive TopupEstimate
  | topup (feeCalcInfo : TopupFeeCalcInfo) (tokenPrice : ℚ)
  | mergeAndTopup (feeCalcInfo : TopupFeeCalcInfo) (tokenPrice : ℚ)
deriving DecidableEq

def TopupEstimate.hasMerge : TopupEstimate → Bool
  | topup _ _ => false
  | mergeAndTopup _ _ => true

def TopupCall.feeCalcInfo (call : TopupCall) : TopupFeeCalcInfo :=
  { amount := call.request.amount
    tokenType := call.request.tokenType }

namespace Elusiv

section Estimates

variable (serialization : Serialization) (accs : ProgramAccounts) (conn : TokenConnection)
  (params : FetchedParams)

def estimateSendFeeInternal (feeCalcInfo : SendFeeInfo) (allowOwnerOffCurve : Bool) (lamportsPerToken : ℚ) :
    Except Failure Fee :=
  if lamportsPerToken = -1 then
    .error (.error ("Invalid Token price for token " ++ feeCalcInfo.tokenType.toString))
  else do
    let recipientTA ← match feeCalcInfo.customRecipientTA with
      | none => getAssociatedTokenAcc accs conn feeCalcInfo.recipient feeCalcInfo.tokenType allowOwnerOffCurve
      | some customRecipientTA => pure customRecipientTA
    let existsTA ← if feeCalcInfo.tokenType = .LAMPORTS then pure true else tokenAccExists conn recipientTA
    estimateSendFee serialization
      { amount := feeCalcInfo.amount
        tokenType := feeCalcInfo.tokenType
        recipient := ⟨feeCalcInfo.recipient, recipientTA, existsTA⟩
        extraFee := feeCalcInfo.extraFee } { params with lamportsPerToken := lamportsPerToken }

def estimateTopupFeeInternal (feeCalcInfo : TopupFeeCalcInfo) (lamportsPerToken : ℚ) :
    Except Failure Fee := do
  let lamportFee ← params.feeCalculator.getStoreFee serialization (cleanUserInput feeCalcInfo.amount)
  lamportFeeToTokenFee lamportFee.toBasicFee feeCalcInfo.tokenType lamportsPerToken 0

/-- A merge goes to the system program. -/
def awaitTopupEstimate : TopupEstimate → Except Failure Fee
  | .topup feeCalcInfo tokenPrice => estimateTopupFeeInternal serialization params feeCalcInfo tokenPrice
  | .mergeAndTopup feeCalcInfo tokenPrice => do
      let sendFee ← estimateSendFeeInternal serialization accs conn params
        { amount := feeCalcInfo.amount
          tokenType := feeCalcInfo.tokenType
          recipient := accs.systemProgramId
          extraFee := none
          customRecipientTA := none } false tokenPrice
      let topupFee ← estimateTopupFeeInternal serialization params feeCalcInfo tokenPrice
      addFees sendFee topupFee

/-- The price of each token that occurs. -/
def getTokenPriceMap (getLamportsPerToken : TokenType → Except Failure ℚ) (tokenTypes : List TokenType) :
    Except Failure (TokenType → Option ℚ) :=
  tokenTypes.eraseDups.foldlM (fun tokenPriceMap tokenType => do
    let price ← getLamportsPerToken tokenType
    pure (Function.update tokenPriceMap tokenType (some price))) fun _ => none

/-- The loop over the topups; after a merge and its topup there are two commitments. -/
def topupEstimates (tokenPriceMap : TokenType → Option ℚ) :
    (TokenType → Option ℕ) → List TopupFeeCalcInfo → List TopupEstimate
  | _, [] => []
  | tokenTxCountMap, feeCalcInfo :: feeCalcInfos =>
      let seenCount := (tokenTxCountMap feeCalcInfo.tokenType).getD 0
      let tokenPrice := (tokenPriceMap feeCalcInfo.tokenType).getD (-1)
      if seenCount = SEND_ARITY then
        .mergeAndTopup feeCalcInfo tokenPrice :: topupEstimates tokenPriceMap
          (Function.update tokenTxCountMap feeCalcInfo.tokenType (some 2)) feeCalcInfos
      else
        .topup feeCalcInfo tokenPrice :: topupEstimates tokenPriceMap
          (Function.update tokenTxCountMap feeCalcInfo.tokenType (some (seenCount + 1))) feeCalcInfos

def estimateTopupFeesBatch (getLamportsPerToken : TokenType → Except Failure ℚ)
    (feeCalcInfos : List TopupFeeCalcInfo) : Except Failure (List Fee) := do
  let tokenPriceMap ← getTokenPriceMap getLamportsPerToken (feeCalcInfos.map TopupFeeCalcInfo.tokenType)
  (topupEstimates tokenPriceMap (fun _ => none) feeCalcInfos).mapM
    (awaitTopupEstimate serialization accs conn params)

end Estimates

/-! ## Where merges are estimated -/

/-- The counters of the estimate. -/
lemma hasMerge_topupEstimates (tokenPriceMap : TokenType → Option ℚ) :
    ∀ (tokenTxCountMap : TokenType → Option ℕ) (feeCalcInfos : List TopupFeeCalcInfo),
      (topupEstimates tokenPriceMap tokenTxCountMap feeCalcInfos).map TopupEstimate.hasMerge
        = overflows SEND_ARITY 1 (fun tokenType => (tokenTxCountMap tokenType).getD 0)
          (feeCalcInfos.map TopupFeeCalcInfo.tokenType)
  | _, [] => rfl
  | tokenTxCountMap, feeCalcInfo :: feeCalcInfos => by
      have hupdate : ∀ count : ℕ,
          (fun tokenType => ((Function.update tokenTxCountMap feeCalcInfo.tokenType (some count))
            tokenType).getD 0)
          = Function.update (fun tokenType => (tokenTxCountMap tokenType).getD 0) feeCalcInfo.tokenType count :=
        fun count => funext fun tokenType => Function.apply_update (fun _ (o : Option ℕ) => o.getD 0) _ _ _ _
      rw [topupEstimates, List.map_cons, overflows, add]
      split_ifs with hfull
      · rw [List.map_cons, hasMerge_topupEstimates tokenPriceMap, hupdate, decide_eq_true hfull]
        rfl
      · rw [List.map_cons, hasMerge_topupEstimates tokenPriceMap, hupdate, decide_eq_false hfull]
        rfl

/-- **A batch estimates merges exactly where `buildTopUpTx` makes them**, when its topups are built and landed
in turn, **if and only if** every token that the wallet holds active commitments of has room for all of its
topups.  The fees of the batch are those of the estimates. -/
theorem estimateTopupFeesBatch_merges_iff {poseidon : Poseidon} {circuits : Circuits poseidon}
    {serialization : Serialization} {seedWrapper : SeedWrapper} {accs : ProgramAccounts} {owner : PublicKey}
    {hasCommitment : Bytes → ℕ → Bool}
    (hsep : (seedWrapper.commitmentScheme poseidon hasCommitment).Separates) {events : List ClientEvent}
    {s s' : Client}
    (hrun : run (Client.step circuits serialization seedWrapper accs owner) Client.start events = some s)
    {calls : List TopupCall} {merges : List Bool}
    (hland : s.landTopups circuits serialization seedWrapper accs owner calls = some (s', merges))
    (hlen : s'.chain.length ≤ MAX_UINT32) (conn : TokenConnection) (params : FetchedParams)
    (tokenPriceMap : TokenType → Option ℚ) :
    (∀ getLamportsPerToken,
      getTokenPriceMap getLamportsPerToken (calls.map fun call => call.request.tokenType)
        = .ok tokenPriceMap →
      estimateTopupFeesBatch serialization accs conn params getLamportsPerToken
          (calls.map TopupCall.feeCalcInfo)
        = (topupEstimates tokenPriceMap (fun _ => none) (calls.map TopupCall.feeCalcInfo)).mapM
          (awaitTopupEstimate serialization accs conn params)) ∧
    ((topupEstimates tokenPriceMap (fun _ => none) (calls.map TopupCall.feeCalcInfo)).map
        TopupEstimate.hasMerge = merges ↔
      ∀ tokenType, s.activeCount tokenType = 0 ∨
        s.activeCount tokenType + (calls.map fun call => call.request.tokenType).count tokenType
          ≤ SEND_ARITY) := by
  have hlen₀ : s.chain.length ≤ MAX_UINT32 := Nat.le_trans (Client.length_le_landTopups hland) hlen
  have hs := Client.kept_of_run hsep hrun hlen₀
  have htokens : (calls.map TopupCall.feeCalcInfo).map TopupFeeCalcInfo.tokenType
      = calls.map fun call => call.request.tokenType := by
    rw [List.map_map]
    rfl
  refine ⟨fun getLamportsPerToken hprices => ?_, ?_⟩
  · rw [estimateTopupFeesBatch, htokens, bind_of_ok hprices]
  rw [hasMerge_topupEstimates, htokens, hs.landTopups_merges hsep hland hlen]
  refine (overflows_eq_iff (by decide) (fun _ => Nat.zero_le _) (hs.activeCount_le hlen₀)).trans ?_
  refine forall_congr' fun tokenType => ?_
  show 0 = s.activeCount tokenType ∨ _ + max 0 (s.activeCount tokenType) ≤ SEND_ARITY ↔ _
  rw [Nat.zero_max, eq_comm, Nat.add_comm]

end Elusiv

/-! ### Five topups, with and without one before -/

def plainTopupCall (amount : ℚ) : TopupCall :=
  { request := plainTopupRequest amount
    answers := ⟨plainParams 0 [], fun _ _ => true⟩
    fee := 0
    signature := ⟨"store", none, none⟩
    data :=
      { recipient := ElusivTransaction.bareKey 14, refKey := ElusivTransaction.bareKey 0
        owner := ElusivTransaction.bareKey 12
        encryptedOwner := { cipherText := [], iv := [] }, signature := ⟨"finalize", none, none⟩ } }

def openTopups (s : Client) (calls : List TopupCall) : Option (Client × List Bool) :=
  s.landTopups Client.openCircuits plainSerialization plainSeed plainAccounts (ElusivTransaction.bareKey 12)
    calls

def fiveCalls : List TopupCall := [1000000, 2000000, 3000000, 4000000, 5000000].map plainTopupCall

def noTokenAccounts : TokenConnection where
  getAccount _ := .error .tokenAccountNotFound
  isOnCurve _ := true

def lamportPrice : TokenType → Option ℚ := Function.update (fun _ => none) .LAMPORTS (some 1)

/-- In an empty wallet the fifth topup needs a merge, and the estimate has it. -/
theorem estimateTopupFeesBatch_merges_iff_fiveCalls : ∃ s merges,
    openTopups Client.start fiveCalls = some (s, merges) ∧
    merges = [false, false, false, false, true] ∧
    (Elusiv.topupEstimates lamportPrice (fun _ => none) (fiveCalls.map TopupCall.feeCalcInfo)).map
      TopupEstimate.hasMerge = merges := by
  have hsome : (openTopups Client.start fiveCalls).map (fun landed => (landed.1.chain.length, landed.2))
      = some (6, [false, false, false, false, true]) := by
    decide +kernel
  obtain ⟨⟨s, merges⟩, hland, hs⟩ := Option.map_eq_some_iff.mp hsome
  obtain ⟨hlength, hmerges⟩ := Prod.mk.inj hs
  have hrun : Transition.run Client.openStep Client.start [] = some Client.start := rfl
  have hlen : s.chain.length ≤ MAX_UINT32 := by
    rw [hlength]
    decide
  obtain ⟨-, hmerge⟩ := Elusiv.estimateTopupFeesBatch_merges_iff Client.separates_openScheme hrun hland hlen
    noTokenAccounts (plainParams 0 []) lamportPrice
  exact ⟨s, merges, hland, hmerges, hmerge.mpr fun tokenType => .inl rfl⟩

/-- The call as the first part of a run. -/
def TopupCall.event (call : TopupCall) : ClientEvent :=
  .topup false call.request call.answers call.fee call.signature call.data

/-- After one topup the fourth of the batch needs the merge, and the estimate has none. -/
theorem estimateTopupFeesBatch_misses_merge : ∃ s s',
    Transition.run Client.openStep Client.start [(plainTopupCall 1000000).event] = some s ∧
    openTopups s (fiveCalls.take 4) = some (s', [false, false, false, true]) ∧
    (Elusiv.topupEstimates lamportPrice (fun _ => none) ((fiveCalls.take 4).map TopupCall.feeCalcInfo)).map
      TopupEstimate.hasMerge = [false, false, false, false] := by
  have hsome : ((Transition.run Client.openStep Client.start [(plainTopupCall 1000000).event]).bind fun s =>
      (openTopups s (fiveCalls.take 4)).map Prod.snd) = some [false, false, false, true] := by
    decide +kernel
  obtain ⟨s, hrun, hland⟩ := Option.bind_eq_some_iff.mp hsome
  obtain ⟨⟨s', merges⟩, hland, rfl⟩ := Option.map_eq_some_iff.mp hland
  exact ⟨s, s', hrun, hland, rfl⟩

end ElusivSdk
