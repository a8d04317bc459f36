import ElusivSdk.Transactions.Instructions.InitVerificationInstruction

/-!
# Compiled init verification instructions are read back

* `inputCommitments` — the inputs on the wire; **`parseRoots_inputCommitments`**: the parser puts the
  roots back that were left out.
* `InRange`, `WellFormed` — the instructions that fit the wire format, and those whose roots survive it.
* **`InitVerificationInstruction.parse_compile`**, **`InitVerificationInstructionLegacy.parse_compile`** —
  the round trips.
* **`InitVerificationInstructionLegacy.decode_wire`** — the reader of the new format refuses what is
  compiled from a legacy instruction.
-/

namespace ElusivSdk

open Format Program InitVerificationInstructionBase

/-! ## The inputs -/

namespace InitVerificationInstructionBase

/-- The roots that count as the first root's object have its bytes. -/
def SharedRoots (ix : InitVerificationInstructionBase) (isFirstRoot : ℕ → Bool) : Prop :=
  ∀ i < ix.roots.length, isFirstRoot i = true → ix.roots[i]? = ix.roots[0]?

instance (ix : InitVerificationInstructionBase) (isFirstRoot : ℕ → Bool) :
    Decidable (ix.SharedRoots isFirstRoot) :=
  inferInstanceAs (Decidable (∀ i < _, _ → _))

/-- Every field is in the range of its wire field, and there is a root and a nullifier hash for each
input. -/
structure InRange (ix : InitVerificationInstructionBase) : Prop where
  verAccIndex_lt : ix.verAccIndex < 256
  vKeyId_le : ix.vKeyId ≤ MAX_UINT32
  treeIndices_length : ix.treeIndices.length = MAX_MT_COUNT
  treeIndices_le : ∀ t ∈ ix.treeIndices, t ≤ MAX_UINT32
  commitmentCount_le : ix.commitmentCount ≤ MAX_UINT32
  roots_length : ix.roots.length = ix.commitmentCount
  nullifierHashes_length : ix.nullifierHashes.length = ix.commitmentCount
  length_root : ∀ root ∈ ix.roots, root.length = 32
  length_nullifierHash : ∀ nullifierHash ∈ ix.nullifierHashes, nullifierHash.length = 32
  length_hash : ix.commitmentHash.length = 32
  feeVersion_le : ix.feeVersion ≤ MAX_UINT32
  sendAmount_nonneg : 0 ≤ ix.sendAmount
  sendAmount_le : ix.sendAmount ≤ MAX_UINT64
  fee_nonneg : 0 ≤ ix.fee
  fee_le : ix.fee ≤ MAX_UINT64
  length_hashedInputs : ix.hashedInputs.length = 32

/-- There is an input, and no root is zero. -/
structure WellFormed (ix : InitVerificationInstructionBase) : Prop extends ix.InRange where
  commitmentCount_pos : 0 < ix.commitmentCount
  root_ne_zero : ∀ root ∈ ix.roots, ofLeBytes root ≠ 0

/-- The inputs on the wire. -/
def inputCommitments (ix : InitVerificationInstructionBase) (isFirstRoot : ℕ → Bool) :
    List InputCommitmentBorsh :=
  (ix.roots.zip ix.nullifierHashes).mapIdx fun i (root, nullifierHash) =>
    { root := if i ≠ 0 ∧ isFirstRoot i then none else some (ofLeBytes root)
      nullifier_hash := ofLeBytes nullifierHash }

variable {ix : InitVerificationInstructionBase}

lemma InRange.length_inputCommitments (h : ix.InRange) (isFirstRoot : ℕ → Bool) :
    (ix.inputCommitments isFirstRoot).length = ix.commitmentCount := by
  rw [inputCommitments, List.length_mapIdx, List.length_zip, h.roots_length,
    h.nullifierHashes_length, min_self]

/-- The input at an index, and that its root and its hash are there. -/
lemma InRange.getElem?_inputCommitments (h : ix.InRange) (isFirstRoot : ℕ → Bool) {i : ℕ}
    (hi : i < ix.commitmentCount) :
    ∃ (_ : i < ix.roots.length) (_ : i < ix.nullifierHashes.length),
      (ix.inputCommitments isFirstRoot)[i]? = some
        { root := if i ≠ 0 ∧ isFirstRoot i then none else some (ofLeBytes ix.roots[i])
          nullifier_hash := ofLeBytes ix.nullifierHashes[i] } := by
  have hroots : i < ix.roots.length := h.roots_length ▸ hi
  have hnulls : i < ix.nullifierHashes.length := h.nullifierHashes_length ▸ hi
  have hlen : i < (ix.inputCommitments isFirstRoot).length :=
    (h.length_inputCommitments isFirstRoot).symm ▸ hi
  refine ⟨hroots, hnulls, ?_⟩
  rw [List.getElem?_eq_getElem hlen]
  simp only [inputCommitments, List.getElem_mapIdx, List.getElem_zip]

lemma InRange.encodeInputCommitments_eq (h : ix.InRange) (isFirstRoot : ℕ → Bool) :
    ix.encodeInputCommitments isFirstRoot = .ok (ix.inputCommitments isFirstRoot) := by
  have hlen := h.length_inputCommitments isFirstRoot
  rw [encodeInputCommitments]
  split_ifs with hnil
  · rw [inputCommitments, hnil]
    rfl
  · have hpos : 0 < ix.commitmentCount := by
      rw [← h.roots_length]
      exact List.length_pos_iff.mpr hnil
    have hrange : 0 :: List.range' 1 (ix.commitmentCount - 1) = List.range ix.commitmentCount := by
      obtain ⟨n, hn⟩ := Nat.exists_eq_succ_of_ne_zero (Nat.ne_of_gt hpos)
      rw [hn, List.range_eq_range']
      rfl
    have hget : ∀ i ∈ List.range ix.commitmentCount, ix.encodeInputCommitment isFirstRoot i
        = .ok ((ix.inputCommitments isFirstRoot)[i]?.getD ⟨none, 0⟩) := by
      intro i hi
      obtain ⟨hroots, hnulls, heq⟩ :=
        h.getElem?_inputCommitments isFirstRoot (List.mem_range.mp hi)
      rw [heq, encodeInputCommitment, List.getElem?_eq_getElem hroots,
        List.getElem?_eq_getElem hnulls]
      rfl
    rw [hrange, mapM_of_ok hget]
    refine congrArg _ (List.ext_getElem (by simp [hlen]) fun i _ hi => ?_)
    rw [List.getElem_map, List.getElem_range, List.getElem?_eq_getElem hi]
    rfl

lemma mem_inputCommitments {isFirstRoot : ℕ → Bool} {c : InputCommitmentBorsh}
    (hc : c ∈ ix.inputCommitments isFirstRoot) :
    (∀ root, c.root = some root → ∃ bytes ∈ ix.roots, root = ofLeBytes bytes) ∧
      ∃ bytes ∈ ix.nullifierHashes, c.nullifier_hash = ofLeBytes bytes := by
  obtain ⟨i, hi, rfl⟩ := List.mem_iff_getElem.mp hc
  simp only [inputCommitments, List.getElem_mapIdx, List.getElem_zip]
  refine ⟨fun root hroot => ?_, _, List.getElem_mem _, rfl⟩
  split_ifs at hroot
  exact ⟨_, List.getElem_mem _, (Option.some.inj hroot).symm⟩

lemma InRange.fits_inputCommitments (h : ix.InRange) (isFirstRoot : ℕ → Bool) :
    inputCommitmentBorsh.vec.Fits (ix.inputCommitments isFirstRoot) := by
  have hbytes : ∀ bytes : Bytes, bytes.length = 32 → ofLeBytes bytes < 256 ^ 32 :=
    fun bytes hlen => hlen ▸ ofLeBytes_lt bytes
  refine ⟨?_, fun c hc => ?_⟩
  · rw [h.length_inputCommitments]
    exact lt_of_le_of_lt h.commitmentCount_le (by decide)
  · obtain ⟨hroot, nullifierHash, hmem, hnull⟩ := mem_inputCommitments hc
    refine ⟨fun root hsome => ?_, ?_⟩
    · obtain ⟨bytes, hmem', rfl⟩ := hroot root hsome
      exact hbytes bytes (h.length_root bytes hmem')
    · show c.nullifier_hash < 256 ^ 32
      rw [hnull]
      exact hbytes nullifierHash (h.length_nullifierHash nullifierHash hmem)

lemma InRange.nullifierHashes_eq (h : ix.InRange) (isFirstRoot : ℕ → Bool) :
    ((ix.inputCommitments isFirstRoot).map fun i => leBytes 32 i.nullifier_hash)
      = ix.nullifierHashes := by
  have hlen := h.length_inputCommitments isFirstRoot
  refine List.ext_getElem? fun i => ?_
  rcases Nat.lt_or_ge i ix.commitmentCount with hi | hi
  · obtain ⟨hroots, hnulls, heq⟩ := h.getElem?_inputCommitments isFirstRoot hi
    have hbytes := leBytes_ofLeBytes_of_length (h.length_nullifierHash _ (List.getElem_mem hnulls))
    rw [List.getElem?_map, heq, List.getElem?_eq_getElem hnulls, Option.map_some, hbytes]
  · rw [List.getElem?_eq_none (by rw [List.length_map, hlen]; exact hi),
      List.getElem?_eq_none (by rw [h.nullifierHashes_length]; exact hi)]

/-- A number that is not zero is what the parser takes for a root that was written. -/
lemma WellFormed.root_eq_succ (h : ix.WellFormed) {i : ℕ} (hi : i < ix.roots.length) :
    ∃ k, ofLeBytes ix.roots[i] = k + 1 ∧ leBytes 32 (k + 1) = ix.roots[i] := by
  obtain ⟨k, hk⟩ := Nat.exists_eq_succ_of_ne_zero (h.root_ne_zero _ (List.getElem_mem hi))
  have hbytes := leBytes_ofLeBytes ix.roots[i]
  rw [h.length_root _ (List.getElem_mem hi), hk] at hbytes
  exact ⟨k, hk, hbytes⟩

/-- **The parser fills in the roots that were left out.** -/
lemma WellFormed.parseRoots_inputCommitments (h : ix.WellFormed) {isFirstRoot : ℕ → Bool}
    (hshared : ix.SharedRoots isFirstRoot) :
    parseRoots ((ix.inputCommitments isFirstRoot).map InputCommitmentBorsh.root)
      = .ok ix.roots := by
  have hlen := h.length_inputCommitments isFirstRoot
  obtain ⟨hzero, _, hhead⟩ := h.getElem?_inputCommitments isFirstRoot h.commitmentCount_pos
  obtain ⟨first, hfirst, hfirstBytes⟩ := h.root_eq_succ hzero
  have hcons : ∃ rest, (ix.inputCommitments isFirstRoot).map InputCommitmentBorsh.root
      = some (first + 1) :: rest := by
    cases hinputs : ix.inputCommitments isFirstRoot with
    | nil => exact absurd hhead (by simp [hinputs])
    | cons c rest =>
        rw [hinputs] at hhead
        obtain rfl := Option.some.inj hhead
        exact ⟨rest.map InputCommitmentBorsh.root, by simp [hfirst]⟩
  obtain ⟨rest, hcons⟩ := hcons
  rw [hcons, parseRoots, ← hcons]
  refine congrArg _ (List.ext_getElem? fun i => ?_)
  rcases Nat.lt_or_ge i ix.commitmentCount with hi | hi
  · obtain ⟨hroots, _, heq⟩ := h.getElem?_inputCommitments isFirstRoot hi
    obtain ⟨k, hk, hkBytes⟩ := h.root_eq_succ hroots
    rw [List.getElem?_map, List.getElem?_map, heq, List.getElem?_eq_getElem hroots]
    by_cases hsame : i ≠ 0 ∧ isFirstRoot i = true
    · have hroot := hshared i hroots hsame.2
      rw [List.getElem?_eq_getElem hroots, List.getElem?_eq_getElem hzero] at hroot
      simp only [Option.map_some, if_pos hsame, hfirstBytes]
      exact hroot.symm
    · simp only [Option.map_some, if_neg hsame, hk, hkBytes]
  · rw [List.getElem?_eq_none (by rw [List.length_map, List.length_map, hlen]; exact hi),
      List.getElem?_eq_none (by rw [h.roots_length]; exact hi)]

/-! ## The round trips -/

lemma InRange.fits_payload (h : ix.InRange) {JoinSplit : Type} (format : Format JoinSplit)
    {joinSplit : JoinSplit} (hfits : format.Fits joinSplit) :
    (initVerificationInstructionFormat format).Fits (ix.payload joinSplit) := by
  have hmax : MAX_UINT32 < 256 ^ 4 := by decide
  have hhashed := ofLeBytes_lt ix.hashedInputs
  rw [h.length_hashedInputs] at hhashed
  have hcode : ((uint 1).check (· == INIT_VERIFICATION_IX_CODE)).Fits INIT_VERIFICATION_IX_CODE :=
    ⟨show INIT_VERIFICATION_IX_CODE < 256 ^ 1 by decide, rfl⟩
  have hproof : ((uint 1).check (· == SEND_PUBLIC_INPUT_IX_CODE)).Fits SEND_PUBLIC_INPUT_IX_CODE :=
    ⟨show SEND_PUBLIC_INPUT_IX_CODE < 256 ^ 1 by decide, rfl⟩
  exact ⟨hcode, h.verAccIndex_lt, lt_of_le_of_lt h.vKeyId_le hmax,
    ⟨h.treeIndices_length, fun t ht => lt_of_le_of_lt (h.treeIndices_le t ht) hmax⟩,
    ⟨hproof, hfits, trivial, trivial, hhashed⟩, trivial⟩

lemma InRange.compileJoinSplit_eq (h : ix.InRange) {JoinSplit : Type} (format : Format JoinSplit)
    (joinSplit : JoinSplit) : ix.compileJoinSplit format (.ok joinSplit)
      = .ok ((initVerificationInstructionFormat format).encode (ix.payload joinSplit)) := by
  rw [compileJoinSplit, if_neg (not_not.mpr h.treeIndices_length)]
  rfl

lemma InRange.amounts_lt (h : ix.InRange) :
    ix.sendAmount.toNat < 256 ^ 8 ∧ ix.fee.toNat < 256 ^ 8 := by
  have hmax : MAX_UINT64 + 1 = 256 ^ 8 := by decide
  have hamount := h.sendAmount_le
  have hfee := h.fee_le
  omega

end InitVerificationInstructionBase

namespace InitVerificationInstruction

/-- Every field is in the range of its wire field. -/
structure InRange (ix : InitVerificationInstruction) : Prop where
  base : ix.toInitVerificationInstructionBase.InRange
  optFee_nonneg : 0 ≤ ix.optFee.amount
  optFee_le : ix.optFee.amount ≤ MAX_UINT64
  assocCommIndex_le : ix.metadata.assocCommIndex ≤ MAX_UINT32
  length_metadata : ix.serializedMetadata.length = COMMITMENT_METADATA_LENGTH

/-- The bytes of an instruction. -/
def wire (ix : InitVerificationInstruction) (isFirstRoot : ℕ → Bool) : Bytes :=
  initVerificationInstructionBorsh.encode
    (ix.payload (ix.encodeJoinSplit (ix.inputCommitments isFirstRoot)))

variable {ix : InitVerificationInstruction}

lemma InRange.compile_eq (h : ix.InRange) (isFirstRoot : ℕ → Bool) :
    ix.compile isFirstRoot = .ok (ix.wire isFirstRoot) := by
  rw [compile, h.base.encodeInputCommitments_eq]
  exact h.base.compileJoinSplit_eq _ _

lemma InRange.fits (h : ix.InRange) (isFirstRoot : ℕ → Bool) : initVerificationInstructionBorsh.Fits
    (ix.payload (ix.encodeJoinSplit (ix.inputCommitments isFirstRoot))) := by
  have hmax : MAX_UINT32 < 256 ^ 4 := by decide
  have hhash := ofLeBytes_lt ix.commitmentHash
  rw [h.base.length_hash] at hhash
  have htoken : getNumberFromTokenType ix.metadata.tokenType < 256 ^ 2 :=
    lt_trans (getNumberFromTokenType_lt _) (by decide)
  have hoptFee : ix.optFee.amount.toNat < 256 ^ 8 := by
    have hlow := h.optFee_nonneg
    have hhigh := h.optFee_le
    have : MAX_UINT64 + 1 = 256 ^ 8 := by decide
    omega
  refine h.base.fits_payload joinSplitBorsh ?_
  exact ⟨h.base.fits_inputCommitments isFirstRoot, hhash, lt_of_le_of_lt h.assocCommIndex_le hmax,
    lt_of_le_of_lt h.base.feeVersion_le hmax, h.base.amounts_lt.1, h.base.amounts_lt.2,
    ⟨trivial, hoptFee⟩, htoken, h.length_metadata⟩

/-- What the parser makes of the bytes of an instruction, given the metadata it finds. -/
lemma parse_wire (h : ix.InRange) (hwf : ix.toInitVerificationInstructionBase.WellFormed)
    {isFirstRoot : ℕ → Bool} (hshared : ix.SharedRoots isFirstRoot) {raw : PartiallyDecodedInstruction}
    (hraw : raw.data = bytesToBs58 (ix.wire isFirstRoot)) {rvk : Option RVKWrapper}
    {metadata : InitMetadata} (hmetadata : parseMetadata rvk
      (ix.encodeJoinSplit (ix.inputCommitments isFirstRoot)) ix.commitmentHash = .ok metadata) :
    parseInstruction raw rvk = .ok (some { ix with metadata := metadata }) := by
  have hhash := leBytes_ofLeBytes_of_length h.base.length_hash
  have hhashed := leBytes_ofLeBytes_of_length h.base.length_hashedInputs
  have hparse : initVerificationInstructionBorsh.parse (bs58ToBytes raw.data)
      = some (ix.payload (ix.encodeJoinSplit (ix.inputCommitments isFirstRoot))) := by
    rw [hraw, bs58ToBytes_bytesToBs58]
    exact initVerificationInstructionBorsh.parse_encode (h.fits isFirstRoot)
  have hroots := hwf.parseRoots_inputCommitments hshared
  unfold parseInstruction
  rw [hparse]
  show (parseMetadata rvk (ix.encodeJoinSplit (ix.inputCommitments isFirstRoot))
    (leBytes 32 (ofLeBytes ix.commitmentHash)) >>= _) = _
  rw [hhash, hmetadata]
  show (parseRoots ((ix.inputCommitments isFirstRoot).map InputCommitmentBorsh.root) >>= _) = _
  rw [hroots]
  refine congrArg (fun parsed => Except.ok (some parsed)) ?_
  simp only [payload, encodeSendPublicInputs, encodeJoinSplit, hhash, hhashed,
    h.base.nullifierHashes_eq, h.base.length_inputCommitments,
    Int.toNat_of_nonneg h.base.sendAmount_nonneg, Int.toNat_of_nonneg h.base.fee_nonneg,
    Int.toNat_of_nonneg h.optFee_nonneg]

/-- The instruction as it is read without a key: of the metadata only what the request says as well. -/
def inClear (ix : InitVerificationInstruction) : InitVerificationInstruction :=
  { ix with metadata := .clear ix.metadata.tokenType ix.metadata.assocCommIndex }

/-- Without a key the token and the index are read from the request. -/
theorem parse_compile_clear (h : ix.InRange) (hwf : ix.toInitVerificationInstructionBase.WellFormed)
    {isFirstRoot : ℕ → Bool} (hshared : ix.SharedRoots isFirstRoot) {raw : PartiallyDecodedInstruction}
    (hraw : raw.data = bytesToBs58 (ix.wire isFirstRoot)) :
    parseInstruction raw none = .ok (some ix.inClear) := by
  refine parse_wire h hwf hshared hraw ?_
  show (getTokenTypeFromNumber (getNumberFromTokenType ix.metadata.tokenType) >>= _) = _
  rw [getTokenTypeFromNumber_getNumber]
  rfl

/-- **The owner reads back the instruction.** -/
theorem parse_compile (h : ix.InRange) (hwf : ix.toInitVerificationInstructionBase.WellFormed)
    {isFirstRoot : ℕ → Bool} (hshared : ix.SharedRoots isFirstRoot) {raw : PartiallyDecodedInstruction}
    (hraw : raw.data = bytesToBs58 (ix.wire isFirstRoot)) {rvk : RVKWrapper}
    {metadata : CommitmentMetadata} (hmetadata : ix.metadata = .decrypted metadata)
    (hserialized : ix.serializedMetadata
      = (metadata.serializeAndEncrypt rvk ix.commitmentHash).cipherText) :
    parseInstruction raw (some rvk) = .ok (some ix) := by
  have hdecrypt : parseMetadata (some rvk) (ix.encodeJoinSplit (ix.inputCommitments isFirstRoot))
      ix.commitmentHash = .ok (.decrypted metadata) := by
    show (CommitmentMetadata.deserializeAndDecrypt ix.serializedMetadata rvk ix.commitmentHash >>= _)
      = _
    rw [hserialized, metadata.deserializeAndDecrypt_serializeAndEncrypt]
    rfl
  rw [parse_wire h hwf hshared hraw hdecrypt, ← hmetadata]

end InitVerificationInstruction

namespace InitVerificationInstructionLegacy

/-- Every field is in the range of its wire field. -/
structure InRange (ix : InitVerificationInstructionLegacy) : Prop where
  base : ix.toInitVerificationInstructionBase.InRange
  commIndex_le : ix.commIndex ≤ MAX_UINT32

/-- The bytes of an instruction. -/
def wire (ix : InitVerificationInstructionLegacy) (isFirstRoot : ℕ → Bool) : Bytes :=
  initVerificationInstructionBorshLegacy.encode
    (ix.payload (ix.encodeJoinSplit (ix.inputCommitments isFirstRoot)))

variable {ix : InitVerificationInstructionLegacy}

lemma InRange.compile_eq (h : ix.InRange) (isFirstRoot : ℕ → Bool) :
    ix.compile isFirstRoot = .ok (ix.wire isFirstRoot) := by
  rw [compile, h.base.encodeInputCommitments_eq]
  exact h.base.compileJoinSplit_eq _ _

lemma InRange.fits_joinSplit (h : ix.InRange) (isFirstRoot : ℕ → Bool) :
    joinSplitBorshLegacy.Fits (ix.encodeJoinSplit (ix.inputCommitments isFirstRoot)) := by
  have hmax : MAX_UINT32 < 256 ^ 4 := by decide
  have hhash := ofLeBytes_lt ix.commitmentHash
  rw [h.base.length_hash] at hhash
  have htoken : getNumberFromTokenType ix.tokenId < 256 ^ 2 :=
    lt_trans (getNumberFromTokenType_lt _) (by decide)
  exact ⟨h.base.fits_inputCommitments isFirstRoot, hhash, lt_of_le_of_lt h.commIndex_le hmax,
    lt_of_le_of_lt h.base.feeVersion_le hmax, h.base.amounts_lt.1, h.base.amounts_lt.2, htoken⟩

/-- What the parser does with the bytes of an instruction depends on the roots alone. -/
lemma parse_wire (h : ix.InRange) {isFirstRoot : ℕ → Bool} {raw : PartiallyDecodedInstruction}
    (hraw : raw.data = bytesToBs58 (ix.wire isFirstRoot)) : parseInstruction raw =
      (parseRoots ((ix.inputCommitments isFirstRoot).map InputCommitmentBorsh.root)).map fun roots =>
        some { ix with roots := roots } := by
  have hhash := leBytes_ofLeBytes_of_length h.base.length_hash
  have hhashed := leBytes_ofLeBytes_of_length h.base.length_hashedInputs
  have hparse : initVerificationInstructionBorshLegacy.parse (bs58ToBytes raw.data)
      = some (ix.payload (ix.encodeJoinSplit (ix.inputCommitments isFirstRoot))) := by
    rw [hraw, bs58ToBytes_bytesToBs58]
    exact initVerificationInstructionBorshLegacy.parse_encode
      (h.base.fits_payload joinSplitBorshLegacy (h.fits_joinSplit isFirstRoot))
  unfold parseInstruction
  rw [hparse]
  show (getTokenTypeFromNumber (getNumberFromTokenType ix.tokenId) >>= _) = _
  rw [getTokenTypeFromNumber_getNumber]
  show (parseRoots ((ix.inputCommitments isFirstRoot).map InputCommitmentBorsh.root) >>= _) = _
  cases parseRoots ((ix.inputCommitments isFirstRoot).map InputCommitmentBorsh.root) with
  | error e => rfl
  | ok roots =>
      refine congrArg (fun parsed => Except.ok (some parsed)) ?_
      simp only [payload, encodeSendPublicInputs, encodeJoinSplit, hhash, hhashed,
        h.base.nullifierHashes_eq, h.base.length_inputCommitments,
        Int.toNat_of_nonneg h.base.sendAmount_nonneg, Int.toNat_of_nonneg h.base.fee_nonneg]

/-- **The instruction is read back from what is compiled from it.** -/
theorem parse_compile (h : ix.InRange) (hwf : ix.toInitVerificationInstructionBase.WellFormed)
    {isFirstRoot : ℕ → Bool} (hshared : ix.SharedRoots isFirstRoot) {raw : PartiallyDecodedInstruction}
    (hraw : raw.data = bytesToBs58 (ix.wire isFirstRoot)) :
    parseInstruction raw = .ok (some ix) := by
  rw [parse_wire h hraw, hwf.parseRoots_inputCommitments hshared]
  rfl

/-- An extra fee takes 40 bytes. -/
lemma optionalFee_decode_eq_none {bs : Bytes} (h : bs.length < 40) :
    optionalFeeBorsh.decode bs = none := by
  refine iso_decode_eq_none ?_ _
  by_cases hkey : 32 ≤ bs.length
  · have hdecode : publicKey.decode bs
        = some (⟨bs.take 32, by rw [List.length_take, min_eq_left hkey]⟩, bs.drop 32) := dif_pos hkey
    have hrest : (uint 8).decode (bs.drop 32) = none :=
      uint_decode_eq_none (by rw [List.length_drop]; omega)
    show (publicKey.decode bs).bind _ = none
    rw [hdecode]
    show ((uint 8).decode (bs.drop 32)).bind _ = none
    rw [hrest]
    rfl
  · exact pair_decode_eq_none_left (dif_neg hkey) _

/-- After the fee a legacy join split has two bytes left, the new one an extra fee. -/
lemma joinSplit_decode_eq_none {joinSplit : JoinSplitBorshLegacy}
    (hfits : joinSplitBorshLegacy.Fits joinSplit) {tail : Bytes} (htail : tail.length < 38) :
    joinSplitBorsh.decode (joinSplitBorshLegacy.encode joinSplit ++ tail) = none := by
  obtain ⟨hinputs, hcomm, hindex, hversion, hamount, hfee, -⟩ := hfits
  have hbytes : joinSplitBorshLegacy.encode joinSplit ++ tail
      = inputCommitmentBorsh.vec.encode joinSplit.input_commitments ++
        ((uint 32).encode joinSplit.output_commitment ++
        ((uint 4).encode joinSplit.output_commitment_index ++
        ((uint 4).encode joinSplit.fee_version ++ ((uint 8).encode joinSplit.amount ++
        ((uint 8).encode joinSplit.fee ++ ((uint 2).encode joinSplit.token_id ++ tail)))))) := by
    show (_ ++ (_ ++ (_ ++ (_ ++ (_ ++ (_ ++ _)))))) ++ tail = _
    simp only [List.append_assoc]
    rfl
  rw [hbytes]
  have hoptional : optionalFeeBorsh.decode ((uint 2).encode joinSplit.token_id ++ tail) = none := by
    refine optionalFee_decode_eq_none ?_
    show (leBytes 2 _ ++ tail).length < 40
    rw [List.length_append, length_leBytes]
    omega
  exact iso_decode_eq_none (pair_decode_eq_none_right hinputs (pair_decode_eq_none_right hcomm
    (pair_decode_eq_none_right hindex (pair_decode_eq_none_right hversion
      (pair_decode_eq_none_right hamount (pair_decode_eq_none_right hfee
        (pair_decode_eq_none_left hoptional _))))))) _

/-- **The reader of the new format runs past the end of a legacy instruction**, whatever its inputs
are. -/
theorem decode_wire (h : ix.InRange) (isFirstRoot : ℕ → Bool) :
    initVerificationInstructionBorsh.decode (ix.wire isFirstRoot) = none := by
  have hjoin := h.fits_joinSplit isFirstRoot
  obtain ⟨hcode, hver, hkey, htrees, ⟨hproof, -⟩, -⟩ :=
    h.base.fits_payload joinSplitBorshLegacy hjoin
  refine iso_decode_eq_none (pair_decode_eq_none_right hcode (pair_decode_eq_none_right hver
    (pair_decode_eq_none_right hkey (pair_decode_eq_none_right htrees ?_)))) _
  refine pair_decode_eq_none_left (iso_decode_eq_none ?_ _) _
  have hbytes : (sendPublicInputsBorsh joinSplitBorshLegacy).encode
        (ix.encodeSendPublicInputs (ix.encodeJoinSplit (ix.inputCommitments isFirstRoot)))
      ++ Format.bool.encode ix.skipNullifierPDA
      = (uint 1).encode SEND_PUBLIC_INPUT_IX_CODE ++
        (joinSplitBorshLegacy.encode (ix.encodeJoinSplit (ix.inputCommitments isFirstRoot)) ++
        (Format.bool.encode ix.recipientIsAssociatedTokenAccount ++
        (Format.bool.encode ix.isSolanaPayTransfer ++ ((uint 32).encode (ofLeBytes ix.hashedInputs) ++
        Format.bool.encode ix.skipNullifierPDA)))) := by
    show (_ ++ (_ ++ (_ ++ (_ ++ _)))) ++ _ = _
    simp only [List.append_assoc]
    rfl
  refine (congrArg (((uint 1).check (· == SEND_PUBLIC_INPUT_IX_CODE)).pair _).decode hbytes).trans ?_
  refine pair_decode_eq_none_right hproof (pair_decode_eq_none_left
    (joinSplit_decode_eq_none hjoin ?_) _)
  show ([_] ++ ([_] ++ (leBytes 32 _ ++ [_]))).length < 38
  rw [List.length_append, List.length_append, List.length_append, length_leBytes]
  show 1 + (1 + (32 + 1)) < 38
  decide

end InitVerificationInstructionLegacy

end ElusivSdk
