import ElusivSdk.Library.Program
import ElusivSdk.Library.Transition
import ElusivSdk.Types
import Mathlib.Logic.Function.Basic

/-!
# The signed transaction of a topup

The caller signs the transaction that is attached to a `TopupTxData`, and gives it back with `setSignedTx`.
Transactions are objects: the one that is given back can be the attached object, signed in place, or another
one.  `setSignedTx` verifies the object that is attached and then attaches the other.

* `TopupSigning` — the transaction objects of the caller, which of them is attached, and the flag.
* `step` — a call of `setSignedTx`, or the caller changes an object in place.
* `Checked` — the steps that leave what counts as signed verified.
* **`verified_of_isSigned_iff`** — whenever the flag is set, the attached transaction passes, in a run
  exactly when its steps are `Checked`; a call that is rejected changes nothing.
* `signed_in_place` — the flow with one object; `sendTopupTx_verified` — what the warden then gets.
-/

namespace ElusivSdk

open Program Transition

def TxTypes.name : TxTypes → String
  | .TOPUP => "TOPUP"
  | .SEND => "SEND"

def INVALID_TX_DATA (txType : TxTypes) : String :=
  "Invalid data for transaction type: " ++ txType.name

/-- The transaction objects of the caller, and what signing changes of a `TopupTxData`. -/
structure TopupSigning (Ref Tx : Type) where
  objects : Ref → Tx
  /-- The attached transaction. -/
  tx : Ref
  signed : Bool

/-- What happens to a `TopupTxData` and to the objects. -/
inductive SigningEvent (Ref Tx : Type)
  | setSignedTx (tx : Ref)
  | alter (object : Ref) (content : Tx)

/-! ### A transaction of a sender and a warden -/

/-- What `verifySignatures` reads of a transaction: the signature of every signer, if there is one. -/
structure PartiallySigned where
  message : Bytes
  signatures : List (PublicKey × Option Bytes)
deriving DecidableEq

namespace PartiallySigned

/-- A missing signature fails only if all are required.  A signature is right when it is the key and the
message. -/
def verifySignatures (requireAllSignatures : Bool) (tx : PartiallySigned) : Bool :=
  tx.signatures.all fun (key, signature) =>
    match signature with
    | none => !requireAllSignatures
    | some signature => signature == key.bytes ++ tx.message

/-- The sender's signature; the warden has not signed. -/
def ofSender (signature : Option Bytes) : PartiallySigned :=
  { message := [1]
    signatures := [(ElusivTransaction.bareKey 1, signature), (ElusivTransaction.bareKey 2, none)] }

/-- The transaction as it was built, signed, and with a signature that is wrong. -/
def ofRef : ℕ → PartiallySigned
  | 0 => ofSender none
  | 1 => ofSender (some ((ElusivTransaction.bareKey 1).bytes ++ [1]))
  | _ => ofSender (some [0])

end PartiallySigned

namespace TopupSigning

section Code

variable {Ref Tx : Type}

/-- The constructor, with the transaction as it was built. -/
def new (objects : Ref → Tx) (tx : Ref) : TopupSigning Ref Tx :=
  { objects := objects, tx := tx, signed := false }

/-- What `this.tx` is at the moment. -/
def attached (s : TopupSigning Ref Tx) : Tx := s.objects s.tx

/-- `verifySignatures` is the one of web3.js with `requireAllSignatures` false: the warden signs later. -/
def setSignedTx (verifySignatures : Tx → Bool) (tx : Ref) : Prog Failure (TopupSigning Ref Tx) Unit := do
  let s ← get
  -- of the attached transaction, not of the one that is given
  if !verifySignatures s.attached then
    throw (.error (INVALID_TX_DATA .TOPUP))
  else
    modify fun s => { s with tx := tx }
    modify fun s => { s with signed := true }

def isSigned (s : TopupSigning Ref Tx) : Bool := s.signed

/-- The attached transaction goes to the warden, whatever the flag is. -/
def sendTopupTx {StoreJSON WardenSignatureResponse Signature : Type}
    (serializePartiallySignedStore : Tx → Except Failure StoreJSON)
    (postWardenSigRequest : StoreJSON → Except Failure WardenSignatureResponse)
    (deserializeSerializedSignature : WardenSignatureResponse → Signature) :
    Prog Failure (TopupSigning Ref Tx) Signature := do
  let signedTxData ← get
  let serialized ← lift (serializePartiallySignedStore signedTxData.attached)
  let res ← lift (postWardenSigRequest serialized)
  pure (deserializeSerializedSignature res)

/-- The caller signs an object in place, or changes it otherwise. -/
def alter [DecidableEq Ref] (s : TopupSigning Ref Tx) (object : Ref) (content : Tx) :
    TopupSigning Ref Tx :=
  { s with objects := Function.update s.objects object content }

/-- What a call throws, the caller catches. -/
def step [DecidableEq Ref] (verifySignatures : Tx → Bool) (s : TopupSigning Ref Tx) :
    SigningEvent Ref Tx → Option (TopupSigning Ref Tx)
  | .setSignedTx tx => some (exec (setSignedTx verifySignatures tx) s).2
  | .alter object content => some (s.alter object content)

end Code

/-! ## One call -/

section Steps

variable {Ref Tx : Type} {verifySignatures : Tx → Bool} {s s' : TopupSigning Ref Tx}

/-- A call attaches what it is given when the transaction attached before passes. -/
lemma exec_setSignedTx (verifySignatures : Tx → Bool) (tx : Ref) (s : TopupSigning Ref Tx) :
    exec (setSignedTx verifySignatures tx) s = if verifySignatures s.attached
      then (.ok (), { s with tx := tx, signed := true })
      else (.error (.error (INVALID_TX_DATA .TOPUP)), s) := by
  rw [setSignedTx, exec_bind, exec_get]
  cases hverify : verifySignatures s.attached with
  | true => simp only [hverify]; rfl
  | false => simp only [hverify]; rfl

/-- **A call is rejected for what is attached**, whatever it is given, and then it changes nothing: a
transaction that passes does not replace one that fails. -/
theorem setSignedTx_eq_error_iff {tx : Ref} {failure : Failure} :
    exec (setSignedTx verifySignatures tx) s = (.error failure, s') ↔
      verifySignatures s.attached = false ∧ failure = .error (INVALID_TX_DATA .TOPUP) ∧ s' = s := by
  rw [exec_setSignedTx, ← Bool.not_eq_true]
  split_ifs with hverify
  · exact iff_of_false nofun fun h => h.1 hverify
  · rw [Prod.mk.injEq, Except.error.injEq]
    constructor
    · rintro ⟨rfl, rfl⟩
      exact ⟨hverify, rfl, rfl⟩
    · rintro ⟨-, rfl, rfl⟩
      exact ⟨rfl, rfl⟩

/-- Whatever counts as signed passes the verification. -/
def Verified (verifySignatures : Tx → Bool) (s : TopupSigning Ref Tx) : Prop :=
  s.isSigned = true → verifySignatures s.attached = true

/-- A call that is not rejected is given a transaction that passes, and an object that counts as signed is
changed into one that passes only. -/
def Checked (verifySignatures : Tx → Bool) (s : TopupSigning Ref Tx) : SigningEvent Ref Tx → Prop
  | .setSignedTx tx => verifySignatures s.attached = true → verifySignatures (s.objects tx) = true
  | .alter object content => s.isSigned = true → object = s.tx → verifySignatures content = true

variable [DecidableEq Ref]

instance (verifySignatures : Tx → Bool) (s : TopupSigning Ref Tx) :
    ∀ e, Decidable (s.Checked verifySignatures e)
  | .setSignedTx _ => inferInstanceAs (Decidable (_ → _))
  | .alter _ _ => inferInstanceAs (Decidable (_ → _ → _))

@[simp]
lemma isSigned_alter (s : TopupSigning Ref Tx) (object : Ref) (content : Tx) :
    (s.alter object content).isSigned = s.isSigned := rfl

/-- A change reaches the attached transaction when it is made on that object. -/
lemma attached_alter (s : TopupSigning Ref Tx) (object : Ref) (content : Tx) :
    (s.alter object content).attached = if object = s.tx then content else s.attached := by
  split_ifs with hsame
  · subst hsame
    exact Function.update_self _ _ _
  · exact Function.update_of_ne (Ne.symm hsame) _ _

/-- What a call leaves. -/
lemma step_setSignedTx (verifySignatures : Tx → Bool) (s : TopupSigning Ref Tx) (tx : Ref) :
    step verifySignatures s (.setSignedTx tx)
      = some (if verifySignatures s.attached then { s with tx := tx, signed := true } else s) := by
  rw [step, exec_setSignedTx]
  split_ifs <;> rfl

/-- **A step keeps what counts as signed verified exactly when** it is `Checked`. -/
lemma verified_step_iff (hs : s.Verified verifySignatures) {e : SigningEvent Ref Tx}
    (h : step verifySignatures s e = some s') :
    s'.Verified verifySignatures ↔ s.Checked verifySignatures e := by
  cases e with
  | setSignedTx tx =>
      rw [step_setSignedTx] at h
      obtain rfl := Option.some.inj h
      split_ifs with hverify
      · -- the call is accepted: what it was given is attached now
        exact ⟨fun hnew _ => hnew rfl, fun hgiven _ => hgiven hverify⟩
      · exact iff_of_true hs fun hpasses => absurd hpasses hverify
  | alter object content =>
      obtain rfl := Option.some.inj h
      rw [Verified, Checked, isSigned_alter, attached_alter]
      split_ifs with hsame
      · exact ⟨fun hnew hsigned _ => hnew hsigned, fun hcontent hsigned => hcontent hsigned hsame⟩
      · exact iff_of_true hs fun _ heq => absurd heq hsame

end Steps

/-! ## Runs -/

section Runs

variable {Ref Tx : Type} [DecidableEq Ref] {verifySignatures : Tx → Bool}

/-- Every event can happen in every state. -/
lemma exists_run (verifySignatures : Tx → Bool) (s : TopupSigning Ref Tx) (es : List (SigningEvent Ref Tx)) :
    ∃ s', run (step verifySignatures) s es = some s' := by
  induction es generalizing s with
  | nil => exact ⟨s, rfl⟩
  | cons e es ih =>
      cases e with
      | setSignedTx tx => exact ih _
      | alter object content => exact ih _

/-- Calls alone are `Checked` when the attached transaction fails, as then all of them are rejected, or
when they are given transactions that pass. -/
lemma allowed_calls_iff (s : TopupSigning Ref Tx) (txs : List Ref) :
    Allowed (step verifySignatures) (Checked verifySignatures) s (txs.map .setSignedTx) ↔
      (verifySignatures s.attached = true → ∀ tx ∈ txs, verifySignatures (s.objects tx) = true) := by
  induction txs generalizing s with
  | nil => exact iff_of_true trivial fun _ tx htx => absurd htx List.not_mem_nil
  | cons tx txs ih =>
      have hrest : (∀ s', step verifySignatures s (.setSignedTx tx) = some s' →
            Allowed (step verifySignatures) (Checked verifySignatures) s' (txs.map .setSignedTx)) ↔
          Allowed (step verifySignatures) (Checked verifySignatures)
            (if verifySignatures s.attached then { s with tx := tx, signed := true } else s)
            (txs.map .setSignedTx) := by
        rw [step_setSignedTx]
        simp only [Option.some.injEq, forall_eq']
      rw [List.map_cons, Allowed, hrest, ih, Checked, List.forall_mem_cons]
      split_ifs with hverify
      · exact ⟨fun h _ => ⟨h.1 hverify, h.2 (h.1 hverify)⟩,
          fun h => ⟨fun _ => (h hverify).1, fun _ => (h hverify).2⟩⟩
      · exact iff_of_true ⟨fun hpasses => absurd hpasses hverify, fun hpasses => absurd hpasses hverify⟩
          fun hpasses => absurd hpasses hverify

/-- In every state of a run what counts as signed is verified exactly when the steps are `Checked`. -/
lemma verified_run_iff (objects : Ref → Tx) (tx : Ref) (es : List (SigningEvent Ref Tx)) :
    (∀ es₁ es₂ s, es = es₁ ++ es₂ → run (step verifySignatures) (new objects tx) es₁ = some s →
        s.Verified verifySignatures) ↔
      Allowed (step verifySignatures) (Checked verifySignatures) (new objects tx) es := by
  obtain ⟨s, hrun⟩ := exists_run verifySignatures (new objects tx) es
  have hnew : (new objects tx).Verified verifySignatures := fun hsigned => absurd hsigned Bool.false_ne_true
  exact invariant_iff_allowed (fun _ _ _ hs hstep => verified_step_iff hs hstep) hnew hrun

/-- **What counts as signed is verified, exactly when** `setSignedTx` is not given a transaction that fails
while the attached one passes: the attached one is verified, and the given one is attached.  For calls alone,
exactly when the first transaction fails, or all that are given pass.  With objects that are changed between
the calls, exactly in the runs that are `Checked`.  A rejected call leaves everything as it was. -/
theorem verified_of_isSigned_iff (verifySignatures : Tx → Bool) :
    (∀ (tx : Ref) (s s' : TopupSigning Ref Tx) (failure : Failure),
      exec (setSignedTx verifySignatures tx) s = (.error failure, s') → s' = s) ∧
    (∀ (objects : Ref → Tx) (tx : Ref) (txs : List Ref),
      (∀ txs₁ txs₂ s, txs = txs₁ ++ txs₂ →
        run (step verifySignatures) (new objects tx) (txs₁.map .setSignedTx) = some s →
          s.isSigned = true → verifySignatures s.attached = true) ↔
      (verifySignatures (objects tx) = true → ∀ tx' ∈ txs, verifySignatures (objects tx') = true)) ∧
    ∀ (objects : Ref → Tx) (tx : Ref) (es : List (SigningEvent Ref Tx)),
      (∀ es₁ es₂ s, es = es₁ ++ es₂ → run (step verifySignatures) (new objects tx) es₁ = some s →
        s.isSigned = true → verifySignatures s.attached = true) ↔
      Allowed (step verifySignatures) (Checked verifySignatures) (new objects tx) es := by
  refine ⟨fun tx s s' failure h => (setSignedTx_eq_error_iff.mp h).2.2, fun objects tx txs => ?_,
    verified_run_iff⟩
  refine Iff.trans ?_ ((verified_run_iff objects tx (txs.map .setSignedTx)).trans
    (allowed_calls_iff (new objects tx) txs))
  constructor
  · intro hall es₁ es₂ s heq hrun
    obtain ⟨txs₁, txs₂, rfl, rfl, -⟩ := List.map_eq_append_iff.mp heq
    exact hall txs₁ txs₂ s rfl hrun
  · rintro hall txs₁ txs₂ s rfl hrun
    exact hall _ _ s List.map_append hrun

/-- **A wrongly signed transaction counts as signed**: it is attached because the one before passes. -/
theorem setSignedTx_attaches_forged :
    ∃ s, run (step (PartiallySigned.verifySignatures false)) (new PartiallySigned.ofRef 0)
        [.setSignedTx 2] = some s ∧
      s.isSigned = true ∧ s.attached.verifySignatures false = false :=
  ⟨_, rfl, rfl, by decide⟩

/-- Signed in place and given back, and then replaced by a signed copy. -/
example : Allowed (step (PartiallySigned.verifySignatures false))
    (Checked (PartiallySigned.verifySignatures false)) (new PartiallySigned.ofRef 0)
    [.alter 0 (PartiallySigned.ofRef 1), .setSignedTx 0, .setSignedTx 1] := by decide

/-- **The flow with one object**: signed in place and given back, the flag is what the verification says. -/
theorem signed_in_place (verifySignatures : Tx → Bool) (objects : Ref → Tx) (tx : Ref) (content : Tx) :
    ∃ s, run (step verifySignatures) (new objects tx) [.alter tx content, .setSignedTx tx] = some s ∧
      s.attached = content ∧ s.isSigned = verifySignatures content := by
  have hattached : ((new objects tx).alter tx content).attached = content := by
    rw [attached_alter]
    exact if_pos rfl
  have hrun : run (step verifySignatures) (new objects tx) [.alter tx content, .setSignedTx tx]
      = step verifySignatures ((new objects tx).alter tx content) (.setSignedTx tx) := by
    simp only [run, step, Option.bind_some]
  rw [hrun, step_setSignedTx, hattached]
  cases hverify : verifySignatures content with
  | true => exact ⟨_, rfl, hattached, rfl⟩
  | false => exact ⟨_, rfl, hattached, rfl⟩

/-- **What the warden gets** from signed data in a `Checked` run passes the verification. -/
theorem sendTopupTx_verified {StoreJSON WardenSignatureResponse Signature : Type}
    {serializePartiallySignedStore : Tx → Except Failure StoreJSON}
    {postWardenSigRequest : StoreJSON → Except Failure WardenSignatureResponse}
    {deserializeSerializedSignature : WardenSignatureResponse → Signature} {objects : Ref → Tx} {tx : Ref}
    {es : List (SigningEvent Ref Tx)} {s s' : TopupSigning Ref Tx} {sig : Signature}
    (hchecked : Allowed (step verifySignatures) (Checked verifySignatures) (new objects tx) es)
    (hrun : run (step verifySignatures) (new objects tx) es = some s) (hsigned : s.isSigned = true)
    (hsent : exec (sendTopupTx serializePartiallySignedStore postWardenSigRequest
      deserializeSerializedSignature) s = (.ok sig, s')) :
    verifySignatures s.attached = true ∧ ∃ serialized res,
      serializePartiallySignedStore s.attached = .ok serialized ∧
      postWardenSigRequest serialized = .ok res ∧ sig = deserializeSerializedSignature res := by
  refine ⟨(verified_run_iff objects tx es).mpr hchecked es [] s (List.append_nil es).symm hrun hsigned, ?_⟩
  obtain ⟨signedTxData, _, hget, hsent⟩ := exec_bind_eq_ok.mp hsent
  obtain ⟨hok, rfl⟩ := Prod.mk.inj hget
  obtain rfl := Except.ok.inj hok
  obtain ⟨serialized, _, hserialized, hsent⟩ := exec_bind_eq_ok.mp hsent
  obtain ⟨res, _, hres, hsent⟩ := exec_bind_eq_ok.mp hsent
  rw [exec_lift] at hserialized hres
  exact ⟨serialized, res, congrArg Prod.fst hserialized, congrArg Prod.fst hres,
    (Except.ok.inj (congrArg Prod.fst hsent)).symm⟩

end Runs

end TopupSigning

end ElusivSdk
