import ElusivSdk.Compliance.ViewingAgreement

/-!
# Versions of viewing keys

A viewing key starts with a version, which is to be the single byte `VIEWING_KEY_VERSION`.  The key of a send
carries as many zeros as the version says, and the check lets every single byte pass, and everything that
starts with the right one.

* `Viewable` — what the newest transactions on the identifier key have to say for a third party to be shown
  an owner.
* `getSendTxWithViewingKey_owner_iff` — the key of a send passes the check, and gives the owner exactly then.
* **`getSendTxWithViewingKey_version_iff`** — with other versions it is refused as it should be exactly
  when they are not one byte long and start with another byte.
-/

namespace ElusivSdk

open Program InstructionParsing TransactionParsing

/-- The owner read from a message is the one that was encrypted with the key. -/
lemma owner_eq_iff_of_tryParse {p : Primitives} {key : Bytes} {final : FinalizeInstructions}
    {ixs : List MessageInstruction}
    (h : tryParseVariableInstructionsFinalizeVerificationFromDecryptionKey p key ixs = .ok final)
    {owner : PublicKey} :
    final.finalizeIx.owner = owner ↔ final.finalizeIx.encryptedOwner
      = p.encryptAES256CTRWithKey ⟨key, final.finalizeIx.encryptedOwner.iv, owner.bytes⟩ := by
  induction ixs with
  | nil => contradiction
  | cons ix ixs ih =>
      cases ix with
      | parsed info => exact ih h
      | partiallyDecoded raw =>
          obtain ⟨parsed, hparsed, h⟩ := bind_eq_ok.mp h
          cases parsed with
          | none => exact ih h
          | some parsed =>
              obtain rfl := Except.ok.inj h
              exact FinalizeVerificationInstruction.owner_eq_iff hparsed

section

variable (serialization : Serialization) (accs : ProgramAccounts) (conn : ViewingConnection)

/-- The newest init on the identifier key can be read in the clear and shown, and the newest finalize
carries the owner, encrypted with the viewing key. -/
def Viewable (p : Primitives) (idKey : PublicKey) (viewingKey : Bytes) (entries : List SigResponse)
    (owner : PublicKey) : Prop :=
  ∃ newestInit newestFinalize init final,
    entries.find? (fun entry => hasInit accs idKey entry.fst.message) = some newestInit ∧
    entries.find? (fun entry => hasFinalize accs idKey entry.fst.message) = some newestFinalize ∧
    initOfMessage accs none newestInit.fst.message = .ok init ∧
    tryParseVariableInstructionsFinalizeVerificationFromDecryptionKey p viewingKey
      newestFinalize.fst.message.instructions = .ok final ∧
    final.finalizeIx.encryptedOwner
      = p.encryptAES256CTRWithKey ⟨viewingKey, final.finalizeIx.encryptedOwner.iv, owner.bytes⟩ ∧
    (∃ amount, serialization.bigIntToNumber
      ((termsOf accs init).amount - (termsOf accs init).extraFee) = .ok amount) ∧
    (∃ fee, serialization.bigIntToNumber (termsOf accs init).fee = .ok fee) ∧
    (∃ extraFee, serialization.bigIntToNumber (termsOf accs init).extraFee = .ok extraFee) ∧
    ∃ recipient,
      getOwnerOfRecipient accs conn final.recipientAcc (termsOf accs init).tokenType = .ok recipient

variable {serialization accs conn}

/-- **An owner is shown exactly when** the newest transactions say it. -/
lemma getSendTxWithViewingKeyInner_owner_iff {p : Primitives} {idKey owner : PublicKey}
    {viewingKey : Bytes} {entries : List SigResponse} (hserves : Serves conn idKey entries) :
    (∃ view, getSendTxWithViewingKeyInner serialization accs conn p idKey viewingKey = .ok view ∧
        view.2 = owner) ↔
      Viewable serialization accs conn p idKey viewingKey entries owner := by
  rw [getSendTxWithViewingKeyInner_eq hserves]
  constructor
  · rintro ⟨view, hview, rfl⟩
    obtain ⟨parsed, hparsed, hview⟩ := bind_eq_ok.mp hview
    obtain ⟨initMessage, hinit, init, data, hparts, sig, -, rfl⟩ :=
      tryParseRawSendFromDecryptionKey_eq_ok_iff.mp hparsed
    rw [findSendInitTx_fst, find?_messages] at hinit
    obtain ⟨newestInit, hnewest, rfl⟩ := Option.map_eq_some_iff.mp hinit
    rw [findSendFinalizeTx_fst, find?_messages] at hparts
    cases data with
    | none =>
        -- without a finalize there is no owner
        obtain ⟨sendTx, -, hview⟩ := bind_eq_ok.mp hview
        contradiction
    | some final =>
        have hsome := isSome_of_tryParseSendParts hparts
        obtain ⟨newestFinalize, hfinalize⟩ : ∃ newestFinalize, entries.find? (fun entry =>
            hasFinalize accs idKey entry.fst.message) = some newestFinalize := by
          rw [Option.isSome_map] at hsome
          exact Option.isSome_iff_exists.mp hsome.symm
        rw [hfinalize, Option.map_some] at hparts
        obtain ⟨hclear, final', hfinal, heq⟩ := tryParseSendParts_some_eq_ok_iff.mp hparts
        obtain rfl := Option.some.inj heq
        obtain ⟨amount, fee, extraFee, recipient, hamount, hfee, hextra, hrecipient, rfl⟩ :=
          showSend_sendOfParts_iff.mp hview
        exact ⟨newestInit, newestFinalize, init, final, hnewest, hfinalize, hclear, hfinal,
          (owner_eq_iff_of_tryParse hfinal).mp rfl, ⟨amount, hamount⟩, ⟨fee, hfee⟩, ⟨extraFee, hextra⟩,
          ⟨recipient, hrecipient⟩⟩
  · rintro ⟨newestInit, newestFinalize, init, final, hnewest, hfinalize, hclear, hfinal, howner,
      ⟨amount, hamount⟩, ⟨fee, hfee⟩, ⟨extraFee, hextra⟩, ⟨recipient, hrecipient⟩⟩
    obtain ⟨first, rest, rfl⟩ := List.exists_cons_of_ne_nil
      (List.ne_nil_of_mem (List.mem_of_find?_eq_some hnewest))
    refine ⟨_, bind_eq_ok.mpr ⟨sendOfParts accs 0 first.snd init (some final),
      tryParseRawSendFromDecryptionKey_eq_ok_iff.mpr ⟨newestInit.fst.message, ?_, init, some final, ?_,
        first.snd, rfl, rfl⟩, showSend_sendOfParts_iff.mpr
      ⟨amount, fee, extraFee, recipient, hamount, hfee, hextra, hrecipient, rfl⟩⟩,
      (owner_eq_iff_of_tryParse hfinal).mpr howner⟩
    · rw [findSendInitTx_fst, find?_messages, hnewest]
      rfl
    · rw [findSendFinalizeTx_fst, find?_messages, hfinalize]
      exact tryParseSendParts_some_eq_ok_iff.mpr ⟨hclear, final, hfinal, rfl⟩

/-- Another version in the key of a send. -/
lemma getSendTxWithViewingKey_withVersion {hex : HexCodec} {p : Primitives} {rvk : RVKWrapper}
    {nonce : ℕ} {key : ViewingKey} (hkey : getViewingKey hex rvk .SEND nonce = .ok key) (v : Bytes) :
    getSendTxWithViewingKey serialization accs conn hex p
        { key with version := hex.uint8ArrayToHex v }
      = if v.length ≠ 1 ∧ v[0]? ≠ some (UInt8.ofNat VIEWING_KEY_VERSION) then
          .error (.error "Invalid viewing key version")
        else getSendTxWithViewingKeyInner serialization accs conn p (rvk.getIdentifierKey nonce)
          (rvk.generateDecryptionKey nonce) := by
  obtain rfl := Except.ok.inj hkey
  rw [getSendTxWithViewingKey, bind_of_ok (hex.hexToUint8Array_uint8ArrayToHex _)]
  split_ifs
  · rfl
  · rw [bind_of_ok (hex.hexToUint8Array_uint8ArrayToHex _), bind_of_ok (PublicKey.ofBytes_bytes _),
      bind_of_ok (hex.hexToUint8Array_uint8ArrayToHex _)]
    rfl

/-- **The key of a send gives its owner and no other version passes — exactly when** the newest transactions
on the identifier key are those of the send, and the other version is neither one byte long nor starts with
the right byte.  (The version in the key itself is the byte 0.) -/
theorem getSendTxWithViewingKey_version_iff {hex : HexCodec} {p : Primitives} {rvk : RVKWrapper}
    {nonce : ℕ} {entries : List SigResponse} (hserves : Serves conn (rvk.getIdentifierKey nonce) entries)
    {key : ViewingKey} (hkey : getViewingKey hex rvk .SEND nonce = .ok key) (owner : PublicKey)
    (v : Bytes) :
    hex.hexToUint8Array key.version = .ok [0] ∧
    getSendTxWithViewingKey serialization accs conn hex p key = getSendTxWithViewingKeyInner serialization
      accs conn p (rvk.getIdentifierKey nonce) (rvk.generateDecryptionKey nonce) ∧
    (((∃ view, getSendTxWithViewingKey serialization accs conn hex p key = .ok view ∧ view.2 = owner) ∧
        (v ≠ [UInt8.ofNat VIEWING_KEY_VERSION] → ∃ failure, getSendTxWithViewingKey serialization accs conn
          hex p { key with version := hex.uint8ArrayToHex v } = .error failure)) ↔
      Viewable serialization accs conn p (rvk.getIdentifierKey nonce) (rvk.generateDecryptionKey nonce)
          entries owner ∧
        (v = [UInt8.ofNat VIEWING_KEY_VERSION] ∨
          v.length ≠ 1 ∧ v[0]? ≠ some (UInt8.ofNat VIEWING_KEY_VERSION))) := by
  have hinner := getSendTxWithViewingKey_getViewingKey serialization accs conn hex p rvk nonce hkey
  refine ⟨?_, hinner, ?_⟩
  · obtain rfl := Except.ok.inj hkey
    exact hex.hexToUint8Array_uint8ArrayToHex _
  · rw [getSendTxWithViewingKey_withVersion hkey, hinner, getSendTxWithViewingKeyInner_owner_iff hserves]
    refine and_congr_right fun hviewable => ?_
    obtain ⟨view, hview, -⟩ := (getSendTxWithViewingKeyInner_owner_iff hserves).mpr hviewable
    rw [← not_ne_iff (a := v), ← imp_iff_not_or]
    refine imp_congr_right fun _ => ?_
    split_ifs with hrefused
    · exact iff_of_true ⟨_, rfl⟩ hrefused
    · rw [hview]
      exact iff_of_false (fun ⟨_, h⟩ => by contradiction) hrefused

end

namespace ViewedSend

open PlainMessages

lemma find?_newestFinalize : [finalizeTx, initTx].find? (fun entry =>
    hasFinalize plainAccounts idKey entry.fst.message) = some finalizeTx :=
  let p := fun entry : SigResponse => hasFinalize plainAccounts idKey entry.fst.message
  List.find?_cons_of_pos (p := p) has_finalizeTx.2

/-- The transactions of the send say its owner. -/
lemma viewable : Viewable plainSerialization plainAccounts (conn [finalizeTx, initTx]) rvk.primitives idKey
    (rvk.generateDecryptionKey 0) [finalizeTx, initTx] (ElusivTransaction.bareKey 9) := by
  exact ⟨initTx, finalizeTx, initInstructions 5, finalizeInstructions, find?_hasInit [],
    find?_newestFinalize, initOfMessage_initTx none, parse_rawFinalize _ _, rfl,
    ⟨5, rfl⟩, ⟨1, rfl⟩, ⟨0, rfl⟩, ⟨some (ElusivTransaction.bareKey 8), rfl⟩⟩

end ViewedSend

open PlainMessages ViewedSend in
theorem getSendTxWithViewingKey_version_iff_long : ∃ key, getViewingKey plainHex rvk .SEND 0 = .ok key ∧
    (∃ view, getSendTxWithViewingKey plainSerialization plainAccounts (conn [finalizeTx, initTx]) plainHex
      rvk.primitives key = .ok view ∧ view.2 = ElusivTransaction.bareKey 9) ∧
    ∃ failure, getSendTxWithViewingKey plainSerialization plainAccounts (conn [finalizeTx, initTx]) plainHex
      rvk.primitives { key with version := plainHex.uint8ArrayToHex [2, 1] } = .error failure := by
  have hserves : Serves (conn [finalizeTx, initTx]) idKey _ := serves (by decide)
  obtain ⟨howner, hrefused⟩ := (getSendTxWithViewingKey_version_iff hserves rfl (ElusivTransaction.bareKey 9)
    [2, 1]).2.2.mpr ⟨viewable, .inr ⟨by decide, by decide⟩⟩
  exact ⟨_, rfl, howner, hrefused (by decide)⟩

open PlainMessages ViewedSend in
/-- The version of the key is not the byte it is to be, and a key with a longer version that starts with that
byte gives the owner as well. -/
theorem getSendTxWithViewingKey_accepts_others : ∃ key, getViewingKey plainHex rvk .SEND 0 = .ok key ∧
    plainHex.hexToUint8Array key.version = .ok [0] ∧ [0] ≠ [UInt8.ofNat VIEWING_KEY_VERSION] ∧
    (∃ view, getSendTxWithViewingKey plainSerialization plainAccounts (conn [finalizeTx, initTx]) plainHex
      rvk.primitives key = .ok view ∧ view.2 = ElusivTransaction.bareKey 9) ∧
    ∃ view, getSendTxWithViewingKey plainSerialization plainAccounts (conn [finalizeTx, initTx]) plainHex
      rvk.primitives { key with version := plainHex.uint8ArrayToHex [1, 7] } = .ok view ∧
      view.2 = ElusivTransaction.bareKey 9 := by
  have hserves : Serves (conn [finalizeTx, initTx]) idKey _ := serves (by decide)
  have howner := (getSendTxWithViewingKeyInner_owner_iff hserves).mpr viewable
  refine ⟨_, rfl, plainHex.hexToUint8Array_uint8ArrayToHex _, by decide, ?_, ?_⟩
  · rw [getSendTxWithViewingKey_getViewingKey _ _ _ _ _ _ _ rfl]
    exact howner
  · rw [getSendTxWithViewingKey_withVersion rfl, if_neg (by decide)]
    exact howner

end ElusivSdk
