import ElusivSdk.Public.Withdraw
import ElusivSdk.Utils.PubKeyUtils

/-!
# The checks before a send

`Elusiv.buildSendTx` refuses a send to a custom token account that does not exist, and one whose extra
fee goes to a token account that does not exist, before it fetches anything.  Whether the accounts exist is
asked of the chain, and the answers come as promises.  The checks take the promises for the answers.

* `Condition` — a boolean or the promise of one, as it stands in an `if`.
* `SendOptions`, `checkAccounts`, `Elusiv.buildSendTxWithChecks` — the translated method up to the build,
  which is `Elusiv.buildSendTx`.
* `RejectsMissing` — what the checks are for.
* `checkAccounts_token` — for tokens they let everything through.
* **`Elusiv.buildSendTxWithChecks_rejectsMissing_iff`** — so they do what they are for exactly when no
  account they ask about is missing, or the recipient is refused anyway.
* `checkAccounts_lamports` — for lamports a custom account is always refused.
* `checkSettled_eq_error_iff` — the same checks on the awaited answers would do.
* `Elusiv.buildSendTxWithChecks_sends_to_missing` — a send to a custom account that is missing.
-/

namespace ElusivSdk

open Program TransactionBuilding

/-! ## Promises as conditions -/

/-- What stands in a condition: a boolean, or the promise of one. -/
inductive Condition
  | settled (b : Bool)
  | promise (result : Except Failure Bool)
deriving DecidableEq

namespace Condition

/-- Every object is truthy, and a promise is an object. -/
def isTruthy : Condition → Bool
  | settled b => b
  | promise _ => true

def await : Condition → Except Failure Bool
  | settled b => .ok b
  | promise result => result

/-- `b && c`: of the second nothing is asked when the first is `false`. -/
def onlyIf (b : Bool) (c : Condition) : Condition :=
  if b then c else settled false

@[simp] lemma onlyIf_true (c : Condition) : onlyIf true c = c := rfl

end Condition

/-! ## The arguments of a send -/

/-- The arguments of `buildSendTx`; what has a default is there, but for the extra fee. -/
structure SendOptions where
  amount : ℚ
  recipient : PublicKey
  tokenType : TokenType
  refKey : Option PublicKey
  memo : Option String
  extraFee : Option OptionalFee
  isSolanaPayTransfer : Bool
  allowOwnerOffCurve : Bool
  customRecipientTA : Option PublicKey
  customFeeCollectorTA : Option PublicKey
  warden : PublicKey
deriving DecidableEq

section

variable (accs : ProgramAccounts) (conn : TokenConnection)

def defaultExtraFee : OptionalFee where
  collector := accs.systemProgramId
  amount := 0

namespace SendOptions

variable (options : SendOptions)

def getExtraFee : OptionalFee :=
  options.extraFee.getD (defaultExtraFee accs)

def recipientTA : Except Failure PublicKey :=
  match options.customRecipientTA with
  | none => getAssociatedTokenAcc accs conn options.recipient options.tokenType options.allowOwnerOffCurve
  | some customRecipientTA => .ok customRecipientTA

def extraFeeCollectorTA : Except Failure PublicKey :=
  match options.customFeeCollectorTA with
  | some customFeeCollectorTA => .ok customFeeCollectorTA
  | none => getAssociatedTokenAcc accs conn (options.getExtraFee accs).collector options.tokenType true

end SendOptions

/-! ## The checks -/

/-- There is no token account for lamports, so it counts as missing. -/
def existsRecipientTA (tokenType : TokenType) (recipientTA : PublicKey) : Condition :=
  .onlyIf (tokenType != .LAMPORTS) (.promise (tokenAccExists conn recipientTA))

def existsExtraFeeTA (tokenType : TokenType) : Option PublicKey → Condition
  | none => .settled true
  | some extraFeeCollectorTA =>
      .onlyIf (tokenType != .LAMPORTS) (.promise (tokenAccExists conn extraFeeCollectorTA))

def FEE_COLLECTOR_MISSING : Failure := .error "Fee collector token account must exist prior to sending"

def CUSTOM_RECIPIENT_MISSING : Failure := .error "Custom recipient TA must exist prior to sending"

/-- The two conditions of the method, on whatever counts as an answer. -/
def checkSettled (options : SendOptions) (recipientThere extraFeeThere : Bool) : Except Failure Unit :=
  -- the collector's account is not created with the send
  if options.tokenType != .LAMPORTS && !extraFeeThere then .error FEE_COLLECTOR_MISSING
  else if !recipientThere && options.customRecipientTA.isSome then .error CUSTOM_RECIPIENT_MISSING
  else .ok ()

/-- What the checks hand on. -/
structure CheckedAccounts where
  recipientTA : PublicKey
  extraFeeCollectorTA : PublicKey
  existsRecipientTA : Condition
deriving DecidableEq

/-- An extra fee is always there, so there is always an account that collects it. -/
def checkAccounts (options : SendOptions) : Except Failure CheckedAccounts := do
  let recipientTA ← options.recipientTA accs conn
  let extraFeeCollectorTA ← options.extraFeeCollectorTA accs conn
  let existsRecipientTA := existsRecipientTA conn options.tokenType recipientTA
  let existsExtraFeeTA := existsExtraFeeTA conn options.tokenType (some extraFeeCollectorTA)
  -- neither is awaited here
  checkSettled options existsRecipientTA.isTruthy existsExtraFeeTA.isTruthy
  pure { recipientTA, extraFeeCollectorTA, existsRecipientTA }

end

/-- What `buildSendTx` calls once its checks are passed. -/
inductive SendCall
  | fetchSendRemoteParams
  | buildSendTxData
deriving DecidableEq

/-- The calls a send has made, and how it ends. -/
structure SendOutcome where
  calls : List SendCall
  result : Except Failure SendTxData

/-- Nothing is fetched and nothing is proved. -/
def SendOutcome.RejectsEarly (outcome : SendOutcome) : Prop :=
  outcome.calls = [] ∧ ∃ failure, outcome.result = .error failure

/-- The request of a send, once it is known whether the recipient has an account. -/
def CheckedAccounts.request (accs : ProgramAccounts) (ownerKey : PublicKey) (options : SendOptions)
    (checked : CheckedAccounts) (doesExist : Bool) : SendRequest where
  amount := options.amount
  tokenType := options.tokenType
  recipient := ⟨options.recipient, checked.recipientTA, doesExist⟩
  owner := ownerKey
  warden := options.warden
  refKey := options.refKey
  memo := options.memo
  extraFee := ⟨checked.extraFeeCollectorTA, (options.getExtraFee accs).amount⟩
  isSolanaPayTransfer := options.isSolanaPayTransfer
  isMerge := false

namespace Elusiv

section Method

variable {poseidon : Poseidon} (circuits : Circuits poseidon) (serialization : Serialization)
  (seedWrapper : SeedWrapper) (accs : ProgramAccounts) (conn : TokenConnection) (ownerKey : PublicKey)

/-- After the checks; here the promise is awaited. -/
def buildSendTxChecked (options : SendOptions) (checked : CheckedAccounts)
    (fetched : Except Failure FetchedParams) : SendOutcome :=
  match fetched with
  | .error failure => ⟨[.fetchSendRemoteParams], .error failure⟩
  | .ok res =>
      match checked.existsRecipientTA.await with
      | .error failure => ⟨[.fetchSendRemoteParams], .error failure⟩
      | .ok doesExist =>
          ⟨[.fetchSendRemoteParams, .buildSendTxData],
            buildSendTx circuits serialization seedWrapper
              (checked.request accs ownerKey options doesExist) res⟩

/-- `fetched` is what `fetchSendRemoteParams` gives. -/
def buildSendTxWithChecks (options : SendOptions) (fetched : Except Failure FetchedParams) :
    SendOutcome :=
  match checkAccounts accs conn options with
  | .error failure => ⟨[], .error failure⟩
  | .ok checked => buildSendTxChecked circuits serialization seedWrapper accs ownerKey options checked
      fetched

end Method

end Elusiv

/-! ## What the checks do -/

section Checks

variable {accs : ProgramAccounts} {conn : TokenConnection} {options : SendOptions}

/-- **On the awaited answers the checks would do**: a send of a token is refused exactly when an account
that has to be there is missing. -/
theorem checkSettled_eq_error_iff (htoken : options.tokenType ≠ .LAMPORTS)
    (recipientThere extraFeeThere : Bool) :
    (∃ failure, checkSettled options recipientThere extraFeeThere = .error failure) ↔
      extraFeeThere = false ∨ recipientThere = false ∧ options.customRecipientTA ≠ none := by
  have hbne : (options.tokenType != .LAMPORTS) = true := bne_iff_ne.mpr htoken
  rw [checkSettled, hbne, ← Option.isSome_iff_ne_none]
  cases extraFeeThere <;> cases recipientThere <;> cases options.customRecipientTA.isSome <;> simp

/-- What the token package says of an owner that is not on the curve. -/
def ownerOffCurve : Failure :=
  .error ("TokenOwnerOffCurveError: Please pass the owner account instead of the ATA account "
    ++ "or set allowOwnerOffCurve to true if this was intended")

namespace SendOptions

variable (accs conn options)

/-- The account that collects the extra fee of a token. -/
def feeCollectorTA : PublicKey :=
  options.customFeeCollectorTA.getD
    (accs.getAssociatedTokenAcc (options.getExtraFee accs).collector options.tokenType)

/-- An owner that cannot have an associated token account. -/
def recipientRefused : Bool :=
  options.customRecipientTA.isNone && (!options.allowOwnerOffCurve && !conn.isOnCurve options.recipient)

variable {accs conn options}

lemma extraFeeCollectorTA_token (htoken : options.tokenType ≠ .LAMPORTS) :
    options.extraFeeCollectorTA accs conn = .ok (options.feeCollectorTA accs) := by
  rw [extraFeeCollectorTA, feeCollectorTA]
  cases options.customFeeCollectorTA with
  | none =>
      show getAssociatedTokenAcc accs conn _ options.tokenType true = _
      rw [getAssociatedTokenAcc, if_neg htoken]
      rfl
  | some customFeeCollectorTA => rfl

lemma recipientTA_of_refused (htoken : options.tokenType ≠ .LAMPORTS)
    (hrefused : options.recipientRefused conn = true) :
    options.recipientTA accs conn = .error ownerOffCurve := by
  rw [recipientRefused, Bool.and_eq_true, Option.isNone_iff_eq_none] at hrefused
  rw [recipientTA, hrefused.1]
  show getAssociatedTokenAcc accs conn _ _ _ = _
  rw [getAssociatedTokenAcc, if_neg htoken, if_pos hrefused.2]
  rfl

lemma recipientTA_of_not_refused (htoken : options.tokenType ≠ .LAMPORTS)
    (hrefused : options.recipientRefused conn = false) :
    ∃ ta, options.recipientTA accs conn = .ok ta := by
  rw [recipientRefused] at hrefused
  rw [recipientTA]
  cases hcustom : options.customRecipientTA with
  | some customRecipientTA => exact ⟨customRecipientTA, rfl⟩
  | none =>
      rw [hcustom, Option.isNone_none, Bool.true_and] at hrefused
      show ∃ ta, getAssociatedTokenAcc accs conn _ _ _ = _
      rw [getAssociatedTokenAcc, if_neg htoken, hrefused]
      exact ⟨_, rfl⟩

/-- A custom account is taken as it is. -/
lemma recipientRefused_of_custom {ta : PublicKey} (hcustom : options.customRecipientTA = some ta) :
    options.recipientRefused conn = false := by
  rw [recipientRefused, hcustom]
  rfl

end SendOptions

/-- **For a token the checks let everything through**: a promise is never `false`. -/
lemma checkAccounts_token (htoken : options.tokenType ≠ .LAMPORTS) :
    checkAccounts accs conn options
      = (options.recipientTA accs conn).map fun recipientTA =>
          { recipientTA := recipientTA
            extraFeeCollectorTA := options.feeCollectorTA accs
            existsRecipientTA := .promise (tokenAccExists conn recipientTA) } := by
  have hbne : (options.tokenType != .LAMPORTS) = true := bne_iff_ne.mpr htoken
  rw [checkAccounts]
  cases options.recipientTA accs conn with
  | error failure => rfl
  | ok recipientTA =>
      show (options.extraFeeCollectorTA accs conn >>= _) = _
      rw [SendOptions.extraFeeCollectorTA_token htoken]
      show (checkSettled options (existsRecipientTA conn _ _).isTruthy
        (existsExtraFeeTA conn _ _).isTruthy >>= _) = _
      simp only [existsRecipientTA, existsExtraFeeTA, checkSettled, hbne, Condition.onlyIf_true,
        Condition.isTruthy, Bool.not_true, Bool.and_false, Bool.false_and, Bool.false_eq_true,
        if_false]
      rfl

/-- For lamports it is the other way round: no answer is asked for, and a custom account is refused. -/
theorem checkAccounts_lamports (htoken : options.tokenType = .LAMPORTS)
    (hcustom : options.customRecipientTA ≠ none) :
    checkAccounts accs conn options = .error CUSTOM_RECIPIENT_MISSING := by
  obtain ⟨ta, hta⟩ := Option.ne_none_iff_exists'.mp hcustom
  have hcollector : ∃ collectorTA, options.extraFeeCollectorTA accs conn = .ok collectorTA := by
    rw [SendOptions.extraFeeCollectorTA, htoken]
    cases options.customFeeCollectorTA with
    | none => exact ⟨_, rfl⟩
    | some customFeeCollectorTA => exact ⟨_, rfl⟩
  obtain ⟨collectorTA, hcollector⟩ := hcollector
  have hrecipient : options.recipientTA accs conn = .ok ta := by
    rw [SendOptions.recipientTA, hta]
  have hcheck : ∀ extraFeeThere, checkSettled options false extraFeeThere
      = .error CUSTOM_RECIPIENT_MISSING := by
    intro extraFeeThere
    rw [checkSettled, htoken, hta]
    rfl
  rw [checkAccounts, bind_of_ok hrecipient, bind_of_ok hcollector, htoken]
  show (checkSettled options false _ >>= _) = _
  rw [hcheck]
  rfl

end Checks

namespace Elusiv

section Reject

variable {poseidon : Poseidon} {circuits : Circuits poseidon} {serialization : Serialization}
  {seedWrapper : SeedWrapper} {accs : ProgramAccounts} {conn : TokenConnection} {ownerKey : PublicKey}
  {options : SendOptions} {fetched : Except Failure FetchedParams}

/-- After the checks something is fetched. -/
lemma calls_buildSendTxChecked (checked : CheckedAccounts) :
    (buildSendTxChecked circuits serialization seedWrapper accs ownerKey options checked fetched).calls
      ≠ [] := by
  cases fetched with
  | error failure => exact List.cons_ne_nil _ _
  | ok res =>
      simp only [buildSendTxChecked]
      cases checked.existsRecipientTA.await with
      | error failure => exact List.cons_ne_nil _ _
      | ok doesExist => exact List.cons_ne_nil _ _

/-- A send of a token is refused early only for its recipient's key. -/
lemma calls_buildSendTxWithChecks_eq_nil_iff (htoken : options.tokenType ≠ .LAMPORTS) :
    (buildSendTxWithChecks circuits serialization seedWrapper accs conn ownerKey options fetched).calls
      = [] ↔ options.recipientRefused conn = true := by
  rw [buildSendTxWithChecks, checkAccounts_token htoken]
  cases hrefused : options.recipientRefused conn with
  | true =>
      rw [SendOptions.recipientTA_of_refused htoken hrefused]
      exact iff_of_true rfl rfl
  | false =>
      obtain ⟨ta, hta⟩ := @SendOptions.recipientTA_of_not_refused accs _ _ htoken hrefused
      rw [hta]
      exact iff_of_false (calls_buildSendTxChecked _) Bool.false_ne_true

lemma rejectsEarly_iff (htoken : options.tokenType ≠ .LAMPORTS) :
    (buildSendTxWithChecks circuits serialization seedWrapper accs conn ownerKey options
      fetched).RejectsEarly ↔ options.recipientRefused conn = true := by
  refine ⟨fun h => (calls_buildSendTxWithChecks_eq_nil_iff htoken).mp h.1, fun hrefused => ?_⟩
  refine ⟨(calls_buildSendTxWithChecks_eq_nil_iff htoken).mpr hrefused, ?_⟩
  rw [buildSendTxWithChecks, checkAccounts_token htoken,
    SendOptions.recipientTA_of_refused htoken hrefused]
  exact ⟨_, rfl⟩

/-! ### What the checks are for, and when they are -/

section Definitions

variable (circuits serialization seedWrapper accs conn ownerKey options fetched)

/-- A missing custom account and a missing account for the extra fee refuse the send early; an account
that is there does not. -/
structure RejectsMissing : Prop where
  recipient : ∀ ta, options.customRecipientTA = some ta → tokenAccExists conn ta = .ok false →
    (buildSendTxWithChecks circuits serialization seedWrapper accs conn ownerKey options
      fetched).RejectsEarly
  collector : options.getExtraFee accs ≠ defaultExtraFee accs →
    ∀ ta, options.extraFeeCollectorTA accs conn = .ok ta → tokenAccExists conn ta = .ok false →
    (buildSendTxWithChecks circuits serialization seedWrapper accs conn ownerKey options
      fetched).RejectsEarly
  recipientThere : ∀ ta, options.customRecipientTA = some ta → tokenAccExists conn ta = .ok true →
    buildSendTxWithChecks circuits serialization seedWrapper accs conn ownerKey options fetched
      ≠ ⟨[], .error CUSTOM_RECIPIENT_MISSING⟩
  collectorThere : ∀ ta, options.extraFeeCollectorTA accs conn = .ok ta →
    tokenAccExists conn ta = .ok true →
    buildSendTxWithChecks circuits serialization seedWrapper accs conn ownerKey options fetched
      ≠ ⟨[], .error FEE_COLLECTOR_MISSING⟩

/-- No custom account is missing, and none that collects an extra fee; the latter may be when the
recipient is refused. -/
structure AccountsThere : Prop where
  recipient : ∀ ta, options.customRecipientTA = some ta → tokenAccExists conn ta ≠ .ok false
  collector : options.getExtraFee accs ≠ defaultExtraFee accs → options.recipientRefused conn = false →
    tokenAccExists conn (options.feeCollectorTA accs) ≠ .ok false

end Definitions

/-- A token is never refused with a message of the checks. -/
lemma buildSendTxWithChecks_ne (htoken : options.tokenType ≠ .LAMPORTS) {failure : Failure}
    (hfailure : failure = CUSTOM_RECIPIENT_MISSING ∨ failure = FEE_COLLECTOR_MISSING) :
    buildSendTxWithChecks circuits serialization seedWrapper accs conn ownerKey options fetched
      ≠ ⟨[], .error failure⟩ := by
  intro heq
  have hrefused : options.recipientRefused conn = true :=
    (calls_buildSendTxWithChecks_eq_nil_iff htoken).mp (congrArg SendOutcome.calls heq)
  rw [buildSendTxWithChecks, checkAccounts_token htoken,
    SendOptions.recipientTA_of_refused htoken hrefused] at heq
  obtain rfl : ownerOffCurve = failure := Except.error.inj (congrArg SendOutcome.result heq)
  rcases hfailure with hfailure | hfailure
  · exact absurd hfailure (by decide +kernel)
  · exact absurd hfailure (by decide +kernel)

lemma RejectsMissing.accountsThere (htoken : options.tokenType ≠ .LAMPORTS)
    (h : RejectsMissing circuits serialization seedWrapper accs conn ownerKey options fetched) :
    AccountsThere accs conn options := by
  refine ⟨fun ta hcustom hmissing => ?_, fun hextra hrefused hmissing => ?_⟩
  · have hearly := (rejectsEarly_iff htoken).mp (h.recipient ta hcustom hmissing)
    rw [SendOptions.recipientRefused_of_custom hcustom] at hearly
    exact Bool.false_ne_true hearly
  · have hearly := (rejectsEarly_iff htoken).mp (h.collector hextra _
      (SendOptions.extraFeeCollectorTA_token htoken) hmissing)
    rw [hrefused] at hearly
    exact Bool.false_ne_true hearly

lemma AccountsThere.rejectsMissing (htoken : options.tokenType ≠ .LAMPORTS)
    (h : AccountsThere accs conn options) :
    RejectsMissing circuits serialization seedWrapper accs conn ownerKey options fetched := by
  constructor
  case recipient =>
    intro ta hcustom hmissing
    exact absurd hmissing (h.recipient ta hcustom)
  case collector =>
    intro hextra ta hcollector hmissing
    obtain rfl := Except.ok.inj
      ((SendOptions.extraFeeCollectorTA_token htoken).symm.trans hcollector)
    refine (rejectsEarly_iff htoken).mpr ?_
    by_contra hrefused
    exact h.collector hextra (Bool.eq_false_of_not_eq_true hrefused) hmissing
  case recipientThere =>
    intro ta _ _
    exact buildSendTxWithChecks_ne htoken (.inl rfl)
  case collectorThere =>
    intro ta _ _
    exact buildSendTxWithChecks_ne htoken (.inr rfl)

/-- **A send of a token is refused for its missing accounts — exactly when** it has none, or its recipient
is refused for another reason. -/
theorem buildSendTxWithChecks_rejectsMissing_iff (htoken : options.tokenType ≠ .LAMPORTS) :
    RejectsMissing circuits serialization seedWrapper accs conn ownerKey options fetched ↔
      AccountsThere accs conn options :=
  ⟨RejectsMissing.accountsThere htoken, AccountsThere.rejectsMissing htoken⟩

end Reject

/-! ### A custom account that is missing -/

/-- Every token account is there but one. -/
def allButOne (missing : PublicKey) : TokenConnection where
  getAccount := fun pk => if pk = missing then .error .tokenAccountNotFound else .ok pk
  isOnCurve := fun _ => true

/-- The send of `missingAccRequest`, with its account given by hand. -/
def customOptions : SendOptions where
  amount := 5000000
  recipient := ElusivTransaction.bareKey 13
  tokenType := .USDC
  refKey := none
  memo := none
  extraFee := none
  isSolanaPayTransfer := false
  allowOwnerOffCurve := false
  customRecipientTA := some (ElusivTransaction.bareKey 14)
  customFeeCollectorTA := none
  warden := ElusivTransaction.bareKey 11

def customSend (conn : TokenConnection) : SendOutcome :=
  buildSendTxWithChecks plainCircuits plainSerialization plainSeed plainAccounts conn
    (ElusivTransaction.bareKey 12) customOptions (.ok rentParams)

theorem buildSendTxWithChecks_rejectsMissing_iff_there :
    RejectsMissing plainCircuits plainSerialization plainSeed plainAccounts
      (allButOne (ElusivTransaction.bareKey 15)) (ElusivTransaction.bareKey 12) customOptions
      (.ok rentParams) := by
  refine (buildSendTxWithChecks_rejectsMissing_iff (by decide)).mpr ⟨?_, ?_⟩
  · intro ta hcustom
    obtain rfl := Option.some.inj hcustom
    decide
  · intro hextra
    exact absurd rfl hextra

/-- **The custom account is missing, and the send is built.** -/
theorem buildSendTxWithChecks_sends_to_missing :
    tokenAccExists (allButOne (ElusivTransaction.bareKey 14)) (ElusivTransaction.bareKey 14) = .ok false ∧
      (customSend (allButOne (ElusivTransaction.bareKey 14))).calls
        = [.fetchSendRemoteParams, .buildSendTxData] ∧
      (customSend (allButOne (ElusivTransaction.bareKey 14))).result.isOk = true ∧
      ¬ RejectsMissing plainCircuits plainSerialization plainSeed plainAccounts
        (allButOne (ElusivTransaction.bareKey 14)) (ElusivTransaction.bareKey 12) customOptions
        (.ok rentParams) := by
  have hmissing : tokenAccExists (allButOne (ElusivTransaction.bareKey 14))
      (ElusivTransaction.bareKey 14) = .ok false := by decide
  have hcalls : (customSend (allButOne (ElusivTransaction.bareKey 14))).calls
      = [.fetchSendRemoteParams, .buildSendTxData] := by decide
  refine ⟨hmissing, hcalls, by decide +kernel, fun h => ?_⟩
  exact absurd (hcalls.symm.trans (h.recipient _ rfl hmissing).1) (List.cons_ne_nil _ _)

end Elusiv

end ElusivSdk
