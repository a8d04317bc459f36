import ElusivSdk.TxBuilding.InputCommitments

/-!
# The request of a send

What a send says in public goes to a warden as JSON, with the points of its proof.  The public inputs of an
instruction are written as the same JSON.

* `Serialization.serializeSend` — the request.
* `SendPublicInputsBorsh.serializeJSON` — the JSON of an instruction.
* `SendProofSerialized.Says`, **`Serialization.serializeSend_spec`** — the request says what the proof says.
* **`JoinSplitBorsh.serializeJSON_spec`** — a join split that is written says what its JSON says, and has a
  first root.
-/

namespace ElusivSdk

open Format Program

/-! ## The request -/

/-- A point of a proof, before and after its coordinates are filled up. -/
structure RawG1A where
  x : Bytes
  y : Bytes
  infinity : Bool
deriving DecidableEq

structure RawG2A where
  x : Bytes × Bytes
  y : Bytes × Bytes
  infinity : Bool
deriving DecidableEq

structure RawProof where
  a : RawG1A
  b : RawG2A
  c : RawG1A
deriving DecidableEq

/-- A proof with its points, and with the hash of its public inputs. -/
structure ProvenSend extends SendQuadraProof where
  proof : RawProof
  hash : ℕ
deriving DecidableEq

structure SendPublicInputsSerializedJSON where
  join_split : JoinSplitSerializedJSON
  recipient_is_associated_token_account : Bool
  hashed_inputs : Bytes
  solana_pay_transfer : Bool
deriving DecidableEq

structure SendProofSerialized where
  proof : RawProof
  publicInputs : SendPublicInputsSerializedJSON
  recipient : Bytes
  identifier : Bytes
  iv : Bytes
  encryptedOwner : Bytes
  solanaPayId : Bytes
  memo : Option String
deriving DecidableEq

structure WardenRequest (Params : Type) where
  jsonrpc : String
  id : String
  version : String
  method : String
  params : Params
deriving DecidableEq

def buildWardenRequest {Params : Type} (method : String) (params : Params) : WardenRequest Params :=
  { jsonrpc := "2.0", id := "1", version := "1.0", method := method, params := params }

def serializeU256Bytes (bytes : Bytes) : Except Failure Bytes :=
  if bytes.length > 32 then .error (.error (TOO_LARGE_SIZE "b" bytes.length 32))
  else .ok (padLE bytes 32)

def serializeG1Point (point : RawG1A) : Except Failure RawG1A := do
  let x ← serializeU256Bytes point.x
  let y ← serializeU256Bytes point.y
  pure { x := x, y := y, infinity := point.infinity }

def serializeG2Point (point : RawG2A) : Except Failure RawG2A := do
  let x₀ ← serializeU256Bytes point.x.1
  let x₁ ← serializeU256Bytes point.x.2
  let y₀ ← serializeU256Bytes point.y.1
  let y₁ ← serializeU256Bytes point.y.2
  pure { x := (x₀, x₁), y := (y₀, y₁), infinity := point.infinity }

def serializeProof (proof : RawProof) : Except Failure RawProof := do
  let a ← serializeG1Point proof.a
  let b ← serializeG2Point proof.b
  let c ← serializeG1Point proof.c
  pure { a := a, b := b, c := c }

namespace Serialization

variable (serialization : Serialization)

def serializeSendPublicInputs (publicInputs : SendQuadraPublicInputs) (hash : ℕ) (fee : Fee)
    (isSolanaPayTransfer : Bool) : Except Failure SendPublicInputsSerializedJSON := do
  let joinSplitSerialized ← serialization.serializeJoinSplit publicInputs fee
  let hashedInputs ← serialization.serializeU256BigInt hash
  pure
    { join_split := joinSplitSerialized
      recipient_is_associated_token_account :=
        publicInputs.extraDataHashInputs.isAssociatedTokenAccount
      hashed_inputs := hashedInputs
      solana_pay_transfer := isSolanaPayTransfer }

/-- `utf8ByteCodesToString` is that of the platform. -/
def serializeSendProof (utf8ByteCodesToString : Bytes → String) (proof : ProvenSend) (fee : Fee)
    (isSolanaPayTransfer : Bool) : Except Failure SendProofSerialized := do
  let extra := proof.publicInputs.extraDataHashInputs
  let rawProof ← serializeProof proof.proof
  let publicInputs ← serialization.serializeSendPublicInputs proof.publicInputs proof.hash fee
    isSolanaPayTransfer
  let recipient ← serialization.serializeU256BigInt extra.recipient
  let identifier ← serialization.serializeU256BigInt extra.identifier
  let iv ← serialization.serializeU256BigInt extra.iv
  let encryptedOwner ← serialization.serializeU256BigInt extra.encryptedOwner
  let solanaPayId ← serialization.serializeU256BigInt extra.solanaPayId
  pure
    { proof := rawProof
      publicInputs := publicInputs
      recipient := recipient
      identifier := identifier
      iv := iv
      encryptedOwner := encryptedOwner
      solanaPayId := solanaPayId
      memo := extra.memo.map utf8ByteCodesToString }

def serializeSend (utf8ByteCodesToString : Bytes → String) (proof : ProvenSend) (fee : Fee)
    (isSolanaPayTransfer : Bool) : Except Failure (WardenRequest SendProofSerialized) := do
  let sendProofSerialized ←
    serialization.serializeSendProof utf8ByteCodesToString proof fee isSolanaPayTransfer
  pure (buildWardenRequest "elusiv_send" sendProofSerialized)

end Serialization

/-- The same JSON, from the side of the instruction. -/
def SendPublicInputsBorsh.serializeJSON (serialization : Serialization)
    (request : SendPublicInputsBorsh JoinSplitBorsh) : Except Failure SendPublicInputsSerializedJSON := do
  let joinSplit ← request.join_split.serializeJSON serialization
  let hashedInputs ← serialization.serializeU256BigInt request.hashed_inputs
  pure
    { join_split := joinSplit
      recipient_is_associated_token_account := request.recipient_is_associated_token_account
      hashed_inputs := hashedInputs
      solana_pay_transfer := request.solana_pay_transfer }

/-! ## What the request says -/

/-- The request says what the proof says. -/
structure SendProofSerialized.Says (request : SendProofSerialized) (serialization : Serialization)
    (utf8ByteCodesToString : Bytes → String) (publicInputs : SendQuadraPublicInputs) (hash : ℕ) (fee : Fee)
    (isSolanaPayTransfer : Bool) : Prop where
  join_split : serialization.serializeJoinSplit publicInputs fee = .ok request.publicInputs.join_split
  isAssociatedTokenAccount : request.publicInputs.recipient_is_associated_token_account
    = publicInputs.extraDataHashInputs.isAssociatedTokenAccount
  isSolanaPayTransfer : request.publicInputs.solana_pay_transfer = isSolanaPayTransfer
  hash : request.publicInputs.hashed_inputs = leBytes 32 hash
  recipient : request.recipient = leBytes 32 publicInputs.extraDataHashInputs.recipient
  identifier : request.identifier = leBytes 32 publicInputs.extraDataHashInputs.identifier
  iv : request.iv = leBytes 32 publicInputs.extraDataHashInputs.iv
  encryptedOwner : request.encryptedOwner = leBytes 32 publicInputs.extraDataHashInputs.encryptedOwner
  solanaPayId : request.solanaPayId = leBytes 32 publicInputs.extraDataHashInputs.solanaPayId
  memo : request.memo = publicInputs.extraDataHashInputs.memo.map utf8ByteCodesToString

/-- **A request that is written says what the proof says.** -/
lemma Serialization.serializeSend_spec {serialization : Serialization}
    {utf8ByteCodesToString : Bytes → String} {proof : ProvenSend} {fee : Fee} {isSolanaPayTransfer : Bool}
    {json : WardenRequest SendProofSerialized}
    (h : serialization.serializeSend utf8ByteCodesToString proof fee isSolanaPayTransfer = .ok json) :
    json.method = "elusiv_send" ∧ json.params.Says serialization utf8ByteCodesToString proof.publicInputs
      proof.hash fee isSolanaPayTransfer := by
  obtain ⟨request, hrequest, hjson⟩ := bind_eq_ok.mp h
  obtain rfl := Except.ok.inj hjson
  obtain ⟨rawProof, -, h⟩ := bind_eq_ok.mp hrequest
  obtain ⟨publicInputs, hinputs, h⟩ := bind_eq_ok.mp h
  obtain ⟨recipient, hrecipient, h⟩ := bind_eq_ok.mp h
  obtain ⟨identifier, hidentifier, h⟩ := bind_eq_ok.mp h
  obtain ⟨iv, hiv, h⟩ := bind_eq_ok.mp h
  obtain ⟨encryptedOwner, howner, h⟩ := bind_eq_ok.mp h
  obtain ⟨solanaPayId, hpay, h⟩ := bind_eq_ok.mp h
  obtain rfl := Except.ok.inj h
  obtain ⟨joinSplit, hjoin, hinputs⟩ := bind_eq_ok.mp hinputs
  obtain ⟨hash, hhash, hinputs⟩ := bind_eq_ok.mp hinputs
  obtain rfl := Except.ok.inj hinputs
  have hbytes := fun {b : ℕ} {bytes : Bytes} => @Serialization.serializeU256BigInt_eq serialization b bytes
  exact ⟨rfl,
    { join_split := hjoin
      isAssociatedTokenAccount := rfl
      isSolanaPayTransfer := rfl
      hash := hbytes hhash
      recipient := hbytes hrecipient
      identifier := hbytes hidentifier
      iv := hbytes hiv
      encryptedOwner := hbytes howner
      solanaPayId := hbytes hpay
      memo := rfl }⟩

/-! ## What the JSON of an instruction says -/

/-- Only a root that is there, and is not 0, is written. -/
lemma InputCommitmentBorsh.root_of_serializeJSON {serialization : Serialization}
    {comm : InputCommitmentBorsh} {json : InputCommitmentSerializedJSON} {bytes : Bytes}
    (h : comm.serializeJSON serialization = .ok json) (hroot : json.root = some bytes) :
    ∃ root, comm.root = some (root + 1) := by
  have hnone (h : (do
      let nullifierHash ← serialization.serializeU256BigInt comm.nullifier_hash
      pure { root := none, nullifier_hash := nullifierHash } :
        Except Failure InputCommitmentSerializedJSON) = .ok json) : False := by
    obtain ⟨nullifierHash, -, h⟩ := bind_eq_ok.mp h
    rw [← Except.ok.inj h] at hroot
    cases hroot
  rw [serializeJSON] at h
  cases hcomm : comm.root with
  | none =>
      rw [hcomm] at h
      exact (hnone h).elim
  | some n =>
      rw [hcomm] at h
      cases n with
      | zero => exact (hnone h).elim
      | succ root => exact ⟨root, rfl⟩

/-- Inputs that are written have a first root, which the parser asks for. -/
lemma JoinSplitBorsh.exists_parseRoots {serialization : Serialization} {joinSplit : JoinSplitBorsh}
    {comms : List InputCommitmentSerializedJSON}
    (h : joinSplit.serializeComms serialization = .ok comms) :
    ∃ roots, InitVerificationInstructionBase.parseRoots
      (joinSplit.input_commitments.map InputCommitmentBorsh.root) = .ok roots := by
  rw [serializeComms] at h
  split_ifs at h with hzero
  obtain ⟨serializedComms, hcomms, h⟩ := bind_eq_ok.mp h
  have hall := forall₂_of_mapM_eq_ok hcomms
  generalize joinSplit.input_commitments = inputs at hall
  cases hall with
  | nil => cases h
  | @cons comm first inputs rest hfirst _ =>
      cases hroot : first.root with
      | none =>
          rw [compressRoots, hroot] at h
          cases h
      | some bytes =>
          obtain ⟨root, hcomm⟩ := InputCommitmentBorsh.root_of_serializeJSON hfirst hroot
          rw [List.map_cons, hcomm]
          exact ⟨_, rfl⟩

/-- A join split that is written as some JSON says what the JSON says. -/
structure JoinSplitBorsh.Says (joinSplit : JoinSplitBorsh) (json : JoinSplitSerializedJSON) : Prop where
  writtenAs : joinSplit.WrittenAs json
  collector : joinSplit.optional_fee.collector.bytes = json.optional_fee.collector
  optionalFee : (joinSplit.optional_fee.amount : ℤ) = json.optional_fee.amount
  roots : ∃ roots, InitVerificationInstructionBase.parseRoots
    (joinSplit.input_commitments.map InputCommitmentBorsh.root) = .ok roots

lemma JoinSplitBorsh.serializeJSON_spec {serialization : Serialization} {joinSplit : JoinSplitBorsh}
    {json : JoinSplitSerializedJSON} (h : joinSplit.serializeJSON serialization = .ok json) :
    joinSplit.Says json := by
  obtain ⟨comms, hcomms, h⟩ := bind_eq_ok.mp h
  rw [withComms] at h
  split_ifs at h with hlength
  obtain ⟨outputCommitment, houtput, h⟩ := bind_eq_ok.mp h
  obtain ⟨amount, hamount, h⟩ := bind_eq_ok.mp h
  obtain ⟨fee, hfee, h⟩ := bind_eq_ok.mp h
  obtain ⟨optionalFee, hoptional, h⟩ := bind_eq_ok.mp h
  obtain rfl := Except.ok.inj h
  obtain ⟨extra, hextra, hoptional⟩ := bind_eq_ok.mp hoptional
  obtain rfl := Except.ok.inj hoptional
  exact
    { writtenAs :=
        { amount_eq := (serialization.bigIntToNumber_exact hamount).symm
          fee_eq := (serialization.bigIntToNumber_exact hfee).symm
          output_commitment_eq := (serialization.serializeU256BigInt_eq houtput).symm
          metadata_eq := rfl }
      collector := rfl
      optionalFee := (serialization.bigIntToNumber_exact hextra).symm
      roots := exists_parseRoots hcomms }

end ElusivSdk
