import ElusivSdk.Library.Json
import ElusivSdk.Public.SendTracking
import ElusivSdk.TxBuilding.StoreRequest
import ElusivSdk.TxSending.WardenCommunication

/-!
# Sending to a warden

A transaction is written as a request and posted to the warden.  What comes back is JSON that nobody has
checked: a signature, an error, or anything else.

* `WardenCommunicator.postWardenSigRequest` — the reply, if it is one with a signature.
* `TransactionSender.sendElusivTx` — the signature of a transaction that was sent.
* `SignatureReply` — what counts as a signature.
* **`TransactionSender.sendElusivTx_eq_ok_iff`** — there is a signature exactly when the reply has one.
* **`TransactionSender.sendElusivTx_eq_fetch_failed_iff`** — no reply makes the sender say `fetch failed`.
* **`elusivTxSig_replied`** — where a signature comes from; no reply makes the client look at the chain.
-/

namespace ElusivSdk

open Json Program WardenCommunicator

def INVALID_WARDEN_RESPONSE : String := "Invalid warden response"

/-- What a platform does with numbers. -/
structure PlatformNumbers (N : Type) extends NumberFormat N where
  /-- An entry of a `Uint8Array`. -/
  toUint8 : N → UInt8

/-- The answer to a request; its body may not be JSON. -/
structure Response (N : Type) where
  ok : Bool
  json : Except SendError (Json N)

inductive WardenMessage
  | store (request : WardenRequest TransactionSerialized)
  | send (request : WardenRequest SendProofSerialized)

/-- What is sent: the signed transaction of a topup, or the proof of a send. -/
inductive SignedTxData
  | topup (tx : Transaction)
  | send (proof : ProvenSend) (fee : Fee) (isSolanaPayTransfer : Bool)

/-- Reading throws a `TypeError`. -/
def orTypeError {α : Type} (x : Except String α) : Except SendError α := x.mapError .typeError

def orFailure {α : Type} (x : Except Failure α) : Except SendError α := x.mapError .other

lemma orTypeError_eq_ok_iff {α : Type} {x : Except String α} {a : α} :
    orTypeError x = .ok a ↔ x = .ok a := by
  cases x with
  | ok b =>
      rw [orTypeError, Except.mapError, Except.ok.injEq, Except.ok.injEq]
  | error message => exact iff_of_false nofun nofun

/-! ## Type guards -/

section Guards

variable {N : Type}

def isNumberArr (arg : Option (Json N)) (length : Option ℕ) : Bool :=
  match arg with
  | some (.array items) =>
      length.all (fun n => items.length == n) && items.all fun item => isNumber (some item)
  | _ => false

def isSignatureSerialized (arg : Option (Json N)) : Bool := isNumberArr arg (some 64)

def isJSONRPCResponse (arg : Json N) : Except String Bool := do
  let jsonrpc ← get (some arg) "jsonrpc"
  if !isString jsonrpc then pure false
  else do
    let id ← get (some arg) "id"
    pure (isString id)

def isWardenSignatureResponse (arg : Json N) : Except String Bool := do
  let result ← get (some arg) "result"
  if result.isNone || !isSignatureSerialized result then pure false
  else isJSONRPCResponse arg

def isWardenErrorResponse (arg : Json N) : Except String Bool := do
  let response ← isJSONRPCResponse arg
  if !response then pure false
  else do
    let error ← get (some arg) "error"
    if error.isNone then pure false
    else do
      let code ← get error "code"
      if !isNumber code then pure false
      else do
        let message ← get error "message"
        pure (isString message)

end Guards

/-! ## The reply of a warden -/

section Sending

variable {N : Type} (numbers : PlatformNumbers N)

namespace WardenCommunicator

/-- `response` is what the fetch gave. -/
def postWardenRequestJSON (response : Except SendError (Response N)) : Except SendError (Json N) := do
  let response ← response
  let json ← response.json
  if response.ok then pure json
  else do
    let error ← orTypeError (get (some json) "error")
    let message ← orTypeError (get error "message")
    let written := message.elim (.ok "") (text numbers.toNumberFormat)
    let messageText ← orTypeError written
    .error (.other (.error messageText))

/-- The error that an error response is about. -/
def errorOf (json : Json N) : Except String WardenError := do
  let error ← get (some json) "error"
  let message ← get error "message"
  match message with
  | some (.string s) => pure { message := s }
  | _ => pure { message := "" }

def SIMULATION_FAILED : SendError :=
  .other (.error "Failed to submit transaction due to Pyth Error, please try again.")

def FAILED_ON_CHAIN : SendError :=
  .other (.error "Transaction failed on-chain due to Pyth Error, please try again.")

/-- What an error of the warden is reported as, if it is about Pyth: 105 is its code. -/
def pythError (err : WardenError) : Option SendError :=
  let errCode := getErrorCode err
  if errCode = .int 105 ∧ isSimulationError err = true then some SIMULATION_FAILED
  else if errCode = .int 105 ∧ isTransactionError err = true then some FAILED_ON_CHAIN
  else none

def postWardenSigRequest (response : Except SendError (Response N)) : Except SendError (Json N) := do
  let json ← postWardenRequestJSON numbers response
  let isSignature ← orTypeError (isWardenSignatureResponse json)
  if isSignature then pure json
  else do
    let invalid : SendError :=
      .other (.error (INVALID_WARDEN_RESPONSE ++ ": " ++ stringify numbers.toNumberFormat json))
    let isError ← orTypeError (isWardenErrorResponse json)
    if isError then do
      let err ← orTypeError (errorOf json)
      .error ((pythError err).getD invalid)
    else .error invalid

end WardenCommunicator

/-- The entries are taken modulo 256. -/
def deserializeSerializedSignature (serialized : Option (Json N)) : ConfirmedSignatureInfo :=
  let entries := match serialized with
    | some (.array items) => items.filterMap number?
    | _ => []
  { signature := (bytesToBs58 (entries.map numbers.toUint8)).text, err := none, memo := none }

namespace TransactionSender

/-- The request that is posted. -/
def serialize (compileMessage : Transaction → Except Failure Message) (serialization : Serialization)
    (utf8ByteCodesToString : Bytes → String) : SignedTxData → Except Failure WardenMessage
  | .topup tx => .store <$> serializePartiallySignedStore compileMessage tx
  | .send proof fee isSolanaPayTransfer =>
      .send <$> serialization.serializeSend utf8ByteCodesToString proof fee isSolanaPayTransfer

/-- `sendTopupTx` and `sendSendTx` differ in what they serialize. -/
def sendElusivTx (fetch : WardenMessage → Except SendError (Response N))
    (serialized : Except Failure WardenMessage) : Except SendError ConfirmedSignatureInfo := do
  let request ← orFailure serialized
  let res ← postWardenSigRequest numbers (fetch request)
  let result ← orTypeError (get (some res) "result")
  pure (deserializeSerializedSignature numbers result)

end TransactionSender

end Sending

/-! ## Replies with a signature -/

section Replies

variable {N : Type} {numbers : PlatformNumbers N}

/-- 64 numbers as the result, and the two texts of a reply. -/
def SignatureReply (body : Json N) (entries : List N) : Prop :=
  ∃ fields jsonrpc id, body = .object fields ∧
    field fields "result" = some (.array (entries.map .number)) ∧ entries.length = 64 ∧
    field fields "jsonrpc" = some (.string jsonrpc) ∧ field fields "id" = some (.string id)

lemma isString_eq_true_iff {value : Option (Json N)} :
    isString value = true ↔ ∃ s, value = some (.string s) := by
  cases value with
  | none => simp [isString]
  | some value => cases value <;> simp [isString]

/-- An array of numbers is the numbers in it. -/
lemma map_number_filterMap {items : List (Json N)} (h : ∀ item ∈ items, isNumber (some item) = true) :
    (items.filterMap number?).map .number = items := by
  induction items with
  | nil => rfl
  | cons item items ih =>
      have hitem := h item List.mem_cons_self
      have hrest := ih fun x hx => h x (List.mem_cons_of_mem item hx)
      cases item with
      | number n => simp [number?, hrest]
      | _ => cases hitem

@[simp]
lemma filterMap_map_number (entries : List N) :
    (entries.map Json.number).filterMap number? = entries := by
  induction entries with
  | nil => rfl
  | cons n entries ih => rw [List.map_cons, List.filterMap_cons_some (by rfl), ih]

lemma isSignatureSerialized_eq_true_iff {arg : Option (Json N)} :
    isSignatureSerialized arg = true ↔
      ∃ entries : List N, arg = some (.array (entries.map .number)) ∧ entries.length = 64 := by
  constructor
  · intro h
    cases arg with
    | none => cases h
    | some arg =>
        cases arg with
        | array items =>
            obtain ⟨hlength, hall⟩ := Bool.and_eq_true_iff.mp h
            have hitems := map_number_filterMap (List.all_eq_true.mp hall)
            refine ⟨items.filterMap number?, by rw [hitems], ?_⟩
            rw [← List.length_map (f := Json.number), hitems]
            exact eq_of_beq hlength
        | _ => cases h
  · rintro ⟨entries, rfl, hlength⟩
    simp [isSignatureSerialized, isNumberArr, hlength, isNumber]

/-- The two texts of a reply. -/
lemma isJSONRPCResponse_object (fields : List (String × Json N)) :
    isJSONRPCResponse (.object fields)
      = .ok (isString (field fields "jsonrpc") && isString (field fields "id")) := by
  show (if !isString (field fields "jsonrpc") then Except.ok false
    else .ok (isString (field fields "id"))) = _
  cases isString (field fields "jsonrpc") <;> rfl

lemma isWardenSignatureResponse_iff {body : Json N} :
    isWardenSignatureResponse body = .ok true ↔ ∃ entries, SignatureReply body entries := by
  constructor
  · intro h
    cases body with
    | object fields =>
        have h' : (if (field fields "result").isNone || !isSignatureSerialized (field fields "result")
            then Except.ok false else isJSONRPCResponse (.object fields)) = .ok true := h
        split_ifs at h' with hresult
        · cases h'
        · rw [isJSONRPCResponse_object] at h'
          obtain ⟨hjsonrpc, hid⟩ := Bool.and_eq_true_iff.mp (Except.ok.inj h')
          obtain ⟨jsonrpc, hjsonrpc⟩ := isString_eq_true_iff.mp hjsonrpc
          obtain ⟨id, hid⟩ := isString_eq_true_iff.mp hid
          rw [Bool.not_eq_true, Bool.or_eq_false_iff, Bool.not_eq_false'] at hresult
          obtain ⟨entries, hentries, hlength⟩ := isSignatureSerialized_eq_true_iff.mp hresult.2
          exact ⟨entries, fields, jsonrpc, id, rfl, hentries, hlength, hjsonrpc, hid⟩
    | _ => cases h
  · rintro ⟨entries, fields, jsonrpc, id, rfl, hresult, hlength, hjsonrpc, hid⟩
    show (if (field fields "result").isNone || !isSignatureSerialized (field fields "result")
      then Except.ok false else isJSONRPCResponse (.object fields)) = .ok true
    have hsignature : isSignatureSerialized (field fields "result") = true :=
      isSignatureSerialized_eq_true_iff.mpr ⟨entries, hresult, hlength⟩
    rw [hsignature, hresult, isJSONRPCResponse_object, hjsonrpc, hid]
    rfl

/-! ## What comes of a reply -/

/-- The warden answers with some JSON. -/
def Answered (response : Except SendError (Response N)) (body : Json N) : Prop :=
  ∃ r : Response N, response = .ok r ∧ r.json = .ok body

/-- No answer comes, or none that can be read: then this is what fails. -/
def Unanswered (response : Except SendError (Response N)) (err : SendError) : Prop :=
  response = .error err ∨ ∃ r : Response N, response = .ok r ∧ r.json = .error err

/-- An error other than the one for which the chain is asked. -/
def NotFetchFailed (err : SendError) : Prop := err ≠ FETCH_FAILED

lemma throws_orTypeError {α : Type} {x : Except String α} (h : Throws Cannot x) :
    Throws NotFetchFailed (orTypeError x) := by
  cases x with
  | ok a => exact Throws.ok a
  | error message =>
      obtain ⟨rest, rfl⟩ := h message rfl
      refine Throws.error fun hfailed => ?_
      have htext := congrArg String.toList (SendError.typeError.inj hfailed)
      rw [String.toList_append] at htext
      cases htext

lemma throws_isJSONRPCResponse (body : Json N) : Throws Cannot (isJSONRPCResponse body) :=
  (throws_get _ _).bind fun jsonrpc _ => by
    split_ifs
    · exact Throws.ok _
    · exact (throws_get _ _).bind fun _ _ => Throws.ok _

lemma throws_isWardenSignatureResponse (body : Json N) : Throws Cannot (isWardenSignatureResponse body) :=
  (throws_get _ _).bind fun result _ => by
    split_ifs
    · exact Throws.ok _
    · exact throws_isJSONRPCResponse body

lemma throws_isWardenErrorResponse (body : Json N) : Throws Cannot (isWardenErrorResponse body) :=
  (throws_isJSONRPCResponse body).bind fun response _ => by
    split_ifs
    · exact Throws.ok _
    · refine (throws_get _ _).bind fun error _ => ?_
      split_ifs
      · exact Throws.ok _
      · refine (throws_get _ _).bind fun code _ => ?_
        split_ifs
        · exact Throws.ok _
        · exact (throws_get _ _).bind fun _ _ => Throws.ok _

lemma throws_errorOf (body : Json N) : Throws Cannot (errorOf body) :=
  (throws_get _ _).bind fun error _ => (throws_get _ _).bind fun message _ => by
    cases message with
    | none => exact Throws.ok _
    | some message => cases message <;> exact Throws.ok _

lemma notFetchFailed_pythError (err : WardenError) (message : String) :
    NotFetchFailed ((pythError err).getD (.other (.error message))) := by
  rw [pythError]
  split_ifs <;> exact SendError.noConfusion

/-- **Whatever a warden answers**, it is not told as a failed fetch. -/
lemma throws_postWardenSigRequest {response : Except SendError (Response N)} {body : Json N}
    (h : Answered response body) : Throws NotFetchFailed (postWardenSigRequest numbers response) := by
  obtain ⟨r, rfl, hbody⟩ := h
  have hjson : Throws NotFetchFailed (postWardenRequestJSON numbers (.ok r)) := by
    rw [postWardenRequestJSON, bind_of_ok rfl, bind_of_ok hbody]
    split_ifs
    · exact Throws.ok _
    · refine (throws_orTypeError (throws_get _ _)).bind fun error _ =>
        (throws_orTypeError (throws_get _ _)).bind fun message _ => ?_
      have hwritten : Throws Cannot (message.elim (.ok "") (text numbers.toNumberFormat)) := by
        cases message with
        | none => exact Throws.ok _
        | some message => exact throws_text numbers.toNumberFormat message
      exact (throws_orTypeError hwritten).bind fun _ _ => Throws.error SendError.noConfusion
  refine hjson.bind fun json _ =>
    (throws_orTypeError (throws_isWardenSignatureResponse json)).bind fun isSignature _ => ?_
  split_ifs
  · exact Throws.ok _
  · refine (throws_orTypeError (throws_isWardenErrorResponse json)).bind fun isError _ => ?_
    split_ifs
    · exact (throws_orTypeError (throws_errorOf json)).bind fun err _ =>
        Throws.error (notFetchFailed_pythError err _)
    · exact Throws.error SendError.noConfusion

/-- Without an answer nothing is looked at. -/
lemma postWardenSigRequest_of_unanswered {response : Except SendError (Response N)} {err : SendError}
    (h : Unanswered response err) : postWardenSigRequest numbers response = .error err := by
  rcases h with rfl | ⟨r, rfl, hjson⟩
  · rfl
  · rw [postWardenSigRequest, postWardenRequestJSON, bind_of_ok rfl, hjson]
    rfl

/-- There is an answer, or there is none for one reason. -/
lemma Unanswered.eq {response : Except SendError (Response N)} {err err' : SendError}
    (h : Unanswered response err) (h' : Unanswered response err') : err = err' := by
  rcases h with rfl | ⟨r, rfl, hjson⟩
  · rcases h' with h' | ⟨r, h', -⟩
    · exact Except.error.inj h'
    · cases h'
  · rcases h' with h' | ⟨r', h', hjson'⟩
    · cases h'
    · obtain rfl := Except.ok.inj h'
      exact Except.error.inj (hjson.symm.trans hjson')

lemma Answered.not_unanswered {response : Except SendError (Response N)} {body : Json N} {err : SendError}
    (h : Answered response body) : ¬ Unanswered response err := by
  obtain ⟨r, rfl, hbody⟩ := h
  rintro (h' | ⟨r', h', hjson⟩)
  · cases h'
  · obtain rfl := Except.ok.inj h'
    cases hbody.symm.trans hjson

lemma answered_or_unanswered (response : Except SendError (Response N)) :
    (∃ body, Answered response body) ∨ ∃ err, Unanswered response err := by
  cases response with
  | error err => exact .inr ⟨err, .inl rfl⟩
  | ok r =>
      cases hjson : r.json with
      | error err => exact .inr ⟨err, .inr ⟨r, rfl, hjson⟩⟩
      | ok body => exact .inl ⟨body, r, rfl, hjson⟩

/-- **A reply with a signature is passed on**, if its status is one of success. -/
lemma postWardenSigRequest_eq_ok_iff {response : Except SendError (Response N)} {body : Json N} :
    postWardenSigRequest numbers response = .ok body ↔
      (∃ r : Response N, response = .ok r ∧ r.ok = true ∧ r.json = .ok body) ∧
        ∃ entries, SignatureReply body entries := by
  constructor
  · intro h
    obtain ⟨json, hjson, h⟩ := bind_eq_ok.mp h
    obtain ⟨isSignature, hsignature, h⟩ := bind_eq_ok.mp h
    have hbody : isSignature = true ∧ json = body := by
      cases isSignature with
      | true => exact ⟨rfl, Except.ok.inj h⟩
      | false =>
          obtain ⟨isError, -, h⟩ := bind_eq_ok.mp h
          cases isError with
          | true =>
              obtain ⟨err, -, h⟩ := bind_eq_ok.mp h
              cases h
          | false => cases h
    obtain ⟨rfl, rfl⟩ := hbody
    refine ⟨?_, isWardenSignatureResponse_iff.mp (orTypeError_eq_ok_iff.mp hsignature)⟩
    obtain ⟨r, rfl, hr⟩ := bind_eq_ok.mp hjson
    obtain ⟨json', hjson', hr⟩ := bind_eq_ok.mp hr
    split_ifs at hr with hok
    · obtain rfl := Except.ok.inj hr
      exact ⟨r, rfl, hok, hjson'⟩
    · obtain ⟨error, -, hr⟩ := bind_eq_ok.mp hr
      obtain ⟨message, -, hr⟩ := bind_eq_ok.mp hr
      obtain ⟨messageText, -, hr⟩ := bind_eq_ok.mp hr
      cases hr
  · rintro ⟨⟨r, rfl, hok, hjson⟩, hreply⟩
    have hsignature : orTypeError (isWardenSignatureResponse body) = .ok true :=
      orTypeError_eq_ok_iff.mpr (isWardenSignatureResponse_iff.mpr hreply)
    rw [postWardenSigRequest, postWardenRequestJSON, bind_of_ok rfl, bind_of_ok hjson, if_pos hok, pure_bind,
      bind_of_ok hsignature]
    rfl

namespace TransactionSender

variable {fetch : WardenMessage → Except SendError (Response N)}
  {serialized : Except Failure WardenMessage}

/-- Once the request is written. -/
lemma sendElusivTx_ok (request : WardenMessage) : sendElusivTx numbers fetch (.ok request)
    = postWardenSigRequest numbers (fetch request) >>= fun res =>
      orTypeError (get (some res) "result") >>= fun result =>
        .ok (deserializeSerializedSignature numbers result) := rfl

/-- **A signature is returned exactly when the request is written and the reply has one.** -/
theorem sendElusivTx_eq_ok_iff {sig : ConfirmedSignatureInfo} :
    sendElusivTx numbers fetch serialized = .ok sig ↔
      ∃ request, serialized = .ok request ∧ ∃ (r : Response N) (body : Json N) (entries : List N),
        fetch request = .ok r ∧ r.ok = true ∧ r.json = .ok body ∧ SignatureReply body entries ∧
        sig = ⟨(bytesToBs58 (entries.map numbers.toUint8)).text, none, none⟩ := by
  have hread {body : Json N} {entries : List N} (h : SignatureReply body entries) :
      ∃ result, get (some body) "result" = .ok result ∧ deserializeSerializedSignature numbers result
        = ⟨(bytesToBs58 (entries.map numbers.toUint8)).text, none, none⟩ := by
    obtain ⟨fields, jsonrpc, id, rfl, hresult, -⟩ := h
    refine ⟨_, congrArg Except.ok hresult, ?_⟩
    rw [deserializeSerializedSignature, filterMap_map_number]
  constructor
  · intro h
    obtain ⟨request, hrequest, h⟩ := bind_eq_ok.mp h
    obtain ⟨res, hres, h⟩ := bind_eq_ok.mp h
    obtain ⟨result, hresult, h⟩ := bind_eq_ok.mp h
    obtain rfl := Except.ok.inj h
    obtain ⟨⟨r, hr, hok, hbody⟩, entries, hreply⟩ := postWardenSigRequest_eq_ok_iff.mp hres
    obtain ⟨result', hresult', hsig⟩ := hread hreply
    obtain rfl := Except.ok.inj (hresult'.symm.trans (orTypeError_eq_ok_iff.mp hresult))
    cases serialized with
    | error failure => cases hrequest
    | ok request' =>
        obtain rfl := Except.ok.inj hrequest
        exact ⟨request', rfl, r, res, entries, hr, hok, hbody, hreply, hsig⟩
  · rintro ⟨request, rfl, r, body, entries, hr, hok, hbody, hreply, rfl⟩
    obtain ⟨result, hresult, hsig⟩ := hread hreply
    have hpost : postWardenSigRequest numbers (fetch request) = .ok body :=
      postWardenSigRequest_eq_ok_iff.mpr ⟨⟨r, hr, hok, hbody⟩, entries, hreply⟩
    rw [sendElusivTx_ok, bind_of_ok hpost, bind_of_ok (orTypeError_eq_ok_iff.mpr hresult), hsig]

lemma throws_sendElusivTx {request : WardenMessage} {body : Json N} (h : Answered (fetch request) body) :
    Throws NotFetchFailed (sendElusivTx numbers fetch (.ok request)) := by
  rw [sendElusivTx_ok]
  exact (throws_postWardenSigRequest h).bind fun res _ =>
    (throws_orTypeError (throws_get (some res) "result")).bind fun result _ => Throws.ok _

/-- **`fetch failed` is thrown exactly when there is no answer for this reason.** -/
theorem sendElusivTx_eq_fetch_failed_iff : sendElusivTx numbers fetch serialized = .error FETCH_FAILED ↔
    ∃ request, serialized = .ok request ∧ Unanswered (fetch request) FETCH_FAILED := by
  cases serialized with
  | error failure => exact iff_of_false (fun h => SendError.noConfusion (Except.error.inj h)) (by simp)
  | ok request =>
      simp only [Except.ok.injEq, exists_eq_left']
      rcases answered_or_unanswered (fetch request) with ⟨body, hbody⟩ | ⟨err, herr⟩
      · exact iff_of_false (fun h => throws_sendElusivTx hbody _ h rfl) hbody.not_unanswered
      · have hsent : sendElusivTx numbers fetch (.ok request) = .error err := by
          rw [sendElusivTx_ok, postWardenSigRequest_of_unanswered herr]
          rfl
        rw [hsent]
        constructor
        · intro h
          rwa [← Except.error.inj h]
        · intro h
          rw [h.eq herr]

end TransactionSender

open TransactionSender

/-- With an answer the chain is not looked at. -/
lemma elusivTxSig_of_throws {sent : Except SendError ConfirmedSignatureInfo} (h : Throws NotFetchFailed sent)
    (getTxsFromNonces : List (ℕ × Bool) → Except Failure (List ElusivTransaction)) (fuel : ℕ)
    (txData : ElusivTxData) (m : TxManager) :
    exec (elusivTxSig getTxsFromNonces fuel txData sent) m = (.ok (sent.map some), m) := by
  cases sent with
  | ok sig => rfl
  | error err =>
      rw [elusivTxSig, if_neg (h err rfl)]
      rfl

/-- **What `sendElusivTxWithTracking` returns of a request that was written.**  A signature comes from the
reply, or from the chain when there is no reply because the fetch failed.  A reply that says `fetch failed`
is none: whatever a warden answers, the chain is not looked at, and nothing else can be returned although the
transaction may have landed. -/
theorem elusivTxSig_replied (numbers : PlatformNumbers N)
    (fetch : WardenMessage → Except SendError (Response N))
    {compileMessage : Transaction → Except Failure Message} {serialization : Serialization}
    {utf8ByteCodesToString : Bytes → String} {data : SignedTxData} {request : WardenMessage}
    (hrequest : serialize compileMessage serialization utf8ByteCodesToString data = .ok request)
    (txData : ElusivTxData) {h : History} {m : TxManager} (hc : Coherent h m)
    (hgaps : h.GapsBelow DEFAULT_FETCH_BATCH_SIZE) (hlen : h.length ≤ MAX_UINT32) {fuel : ℕ}
    (hfuel : h.length + DEFAULT_FETCH_BATCH_SIZE + 3 ≤ fuel) :
    ∃ res m', exec (elusivTxSig h.fetcher fuel txData (sendElusivTx numbers fetch
        (serialize compileMessage serialization utf8ByteCodesToString data))) m = (.ok res, m') ∧
      (∀ sig, res = .ok (some sig) ↔
        (∃ (r : Response N) (body : Json N) (entries : List N), fetch request = .ok r ∧ r.ok = true ∧
          r.json = .ok body ∧ SignatureReply body entries ∧
          sig = ⟨(bytesToBs58 (entries.map numbers.toUint8)).text, none, none⟩) ∨
        Unanswered (fetch request) FETCH_FAILED ∧ ∃ tx, h.mostRecent = some tx ∧
          (tx.nonce : ℤ) = txData.lastNonce + 1 ∧ tx.signature = some sig) ∧
      ∀ body, Answered (fetch request) body →
        m' = m ∧ res = (sendElusivTx numbers fetch (.ok request)).map some := by
  rw [hrequest]
  have hreply (sig : ConfirmedSignatureInfo) :
      sendElusivTx numbers fetch (.ok request) = .ok sig ↔
        ∃ (r : Response N) (body : Json N) (entries : List N), fetch request = .ok r ∧ r.ok = true ∧
          r.json = .ok body ∧ SignatureReply body entries ∧
          sig = ⟨(bytesToBs58 (entries.map numbers.toUint8)).text, none, none⟩ := by
    rw [sendElusivTx_eq_ok_iff]
    simp only [Except.ok.injEq, exists_eq_left']
  by_cases hfailed : Unanswered (fetch request) FETCH_FAILED
  · have hsent : sendElusivTx numbers fetch (.ok request) = .error FETCH_FAILED :=
      sendElusivTx_eq_fetch_failed_iff.mpr ⟨request, rfl, hfailed⟩
    obtain ⟨res, m', hexec, hres⟩ := elusivTxSig_fetchFailed hc hgaps hlen hfuel txData
    rw [hsent]
    refine ⟨res, m', hexec, fun sig => ?_, fun body hbody => absurd hfailed hbody.not_unanswered⟩
    rw [hres, ← hreply, hsent]
    simp [hfailed]
  · have hthrows : Throws NotFetchFailed (sendElusivTx numbers fetch (.ok request)) := by
      rintro err herr rfl
      obtain ⟨request', hrequest, hnone⟩ := sendElusivTx_eq_fetch_failed_iff.mp herr
      obtain rfl := Except.ok.inj hrequest
      exact hfailed hnone
    refine ⟨_, m, elusivTxSig_of_throws hthrows _ _ _ _, fun sig => ?_, fun body _ => ⟨rfl, rfl⟩⟩
    rw [← hreply, map_eq_ok]
    simp [hfailed]

end Replies

/-! ### Replies to a topup -/

/-- Numbers are the natural ones. -/
def plainNumbers : PlatformNumbers ℕ where
  text := toString
  json := toString
  toUint8 := UInt8.ofNat

/-- A reply with a signature of sevens. -/
def plainReply : Response ℕ where
  ok := true
  json := .ok <| .object [("jsonrpc", .string "2.0"), ("id", .string "1"),
    ("result", .array ((List.replicate 64 7).map .number))]

/-- A warden that says itself that a fetch failed. -/
def failedReply : Response ℕ where
  ok := false
  json := .ok (.object [("error", .object [("code", .number 1), ("message", .string "fetch failed")])])

/-- It is told as another error than the one for which the chain is looked at. -/
example (serialized : WardenMessage) : TransactionSender.sendElusivTx plainNumbers (fun _ => .ok failedReply)
    (.ok serialized) = .error (.other (.error "fetch failed")) := rfl

lemma plainRequest_isOk :
    (TransactionSender.serialize plainCompileMessage plainSerialization (fun _ => "")
      (.topup PlainTopup.tx)).toOption.isSome = true := by decide +kernel

theorem elusivTxSig_replied_signature : ∃ m',
    exec (elusivTxSig mergedChain.fetcher 18 (.topup mergedTopupData)
      (TransactionSender.sendElusivTx plainNumbers (fun _ => .ok plainReply)
        (TransactionSender.serialize plainCompileMessage plainSerialization (fun _ => "")
          (.topup PlainTopup.tx)))) .new
      = (.ok (.ok (some ⟨(bytesToBs58 (List.replicate 64 7)).text, none, none⟩)), m') ∧ m' = .new := by
  obtain ⟨request, hrequest⟩ := Option.isSome_iff_exists.mp plainRequest_isOk
  obtain ⟨res, m', hexec, hres, hsame⟩ := elusivTxSig_replied plainNumbers (fun _ => .ok plainReply)
    (toOption_eq_some.mp hrequest) (.topup mergedTopupData) (coherent_new mergedChain)
    gapsBelow_mergedChain (by decide) (Nat.le_refl 18)
  have hreply : SignatureReply (.object [("jsonrpc", .string "2.0"), ("id", .string "1"),
      ("result", .array ((List.replicate 64 7).map .number))]) (List.replicate 64 7) :=
    ⟨_, "2.0", "1", rfl, rfl, List.length_replicate, rfl, rfl⟩
  obtain rfl := (hres _).mpr (.inl ⟨plainReply, _, _, rfl, rfl, rfl, hreply, rfl⟩)
  exact ⟨m', hexec, (hsame _ ⟨plainReply, rfl, rfl⟩).1⟩

end ElusivSdk
