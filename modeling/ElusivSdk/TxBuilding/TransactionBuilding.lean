import ElusivSdk.Chain.Growth
import ElusivSdk.ParamManagers.CommitmentManager
import ElusivSdk.ParamManagers.Fee.FeeCalculator
import ElusivSdk.TxBuilding.WardenSerialization

/-!
# Building transactions

Topups, sends and merges are built from what was fetched: the active commitments of the token, the newest
nonce, prices and rents.  A merge is a send of nothing.

* `topupStore`, `buildTopUpTxData` — a topup; refused while there are `SEND_ARITY` active commitments and
  no merge was made.
* `buildSendTx`, `buildSendTxData`, `buildMergeTxData` — a send spends all active commitments, and what is
  left over becomes the next commitment.
* `StoreTx.BuiltFrom`, `SendTx.BuiltFrom` — what a build that does not throw has made.
* `SendTx.landed` — the send as it is read back from the chain.
* **`SendTx.BuiltFrom.landed`** — it carries the amount, the fee and the next commitment of the build.
-/

namespace ElusivSdk

open Format Program InstructionBuilding

def MERGE_NEEDED : Failure := .error "Merge needed"

def TOO_SMALL_SIZE (inputName : String) (size expectedSize : ℕ) : String :=
  "Input: " ++ inputName ++ " has size " ++ toString size ++ ", minimum size is " ++
    toString expectedSize

def TokenType.toString : TokenType → String
  | LAMPORTS => "LAMPORTS"
  | USDC => "USDC"
  | USDT => "USDT"
  | mSOL => "mSOL"
  | BONK => "BONK"
  | SAMO => "SAMO"

/-- The least and the largest amount that can be sent, in the smallest unit of the token. -/
structure TokenInfo where
  min : ℕ
  max : ℕ
deriving DecidableEq

def getTokenInfo : TokenType → TokenInfo
  | .LAMPORTS => ⟨1000, 360000000000⟩
  | .USDC => ⟨1000, 8000000000⟩
  | .USDT => ⟨1000, 8000000000⟩
  | .mSOL => ⟨1000, 360000000000⟩
  | .BONK => ⟨1000000000, 2000000000000000⟩
  | .SAMO => ⟨100000000, 2000000000000000⟩

/-! ## What is given and what is built -/

structure TokenAcc where
  owner : PublicKey
  TA : PublicKey
  doesExist : Bool
deriving DecidableEq

/-- `TopupRemoteParams`; those of a send are the same without the batching rate. -/
structure FetchedParams where
  feeCalculator : FeeCalculator
  feeVersionData : FeeVersionData
  merkleStartIndex : ℕ
  lamportsPerToken : ℚ
  tokenAccRent : ℤ
  activeCommitments : List IncompleteCommitment
  lastNonce : ℤ
deriving DecidableEq

/-- What a topup is asked for. -/
structure TopupRequest where
  amount : ℚ
  tokenType : TokenType
  owner : PublicKey
  isRecipient : Bool
  warden : PublicKey
  /-- Drawn at random. -/
  hashAccIndex : ℕ
deriving DecidableEq

/-- What a send is asked for. -/
structure SendRequest where
  amount : ℚ
  tokenType : TokenType
  recipient : TokenAcc
  owner : PublicKey
  warden : PublicKey
  refKey : Option PublicKey
  memo : Option String
  extraFee : OptionalFee
  isSolanaPayTransfer : Bool
  isMerge : Bool
deriving DecidableEq

/-- A send that is not on chain yet. -/
structure SendTx where
  nonce : ℕ
  tokenType : TokenType
  commitment : IncompleteCommitment
  fee : ℤ
  encryptedOwner : EncryptedValue
  amount : ℤ
  merkleStartIndex : ℕ
  commitmentHash : Bytes
  recipient : PublicKey
  isAssociatedTokenAcc : Bool
  refKey : Option PublicKey
  memo : Option String
  inputCommitments : List IncompleteCommitment
  proof : SendQuadraProof
  identifier : PublicKey
  isSolanaPayTransfer : Bool
  warden : PublicKey
  extraFee : OptionalFee
deriving DecidableEq

structure SharedTxData where
  fee : Fee
  tokenType : TokenType
  lastNonce : ℤ
  commitmentHash : Bytes
  merkleStartIndex : ℕ

def SharedTxData.getTotalFeeAmount (txData : SharedTxData) : ℤ := ElusivSdk.getTotalFeeAmount txData.fee

structure TopupTxData extends SharedTxData where
  tx : List TransactionInstruction
  hashAccIndex : ℕ
  merge : Bool

structure SendTxData extends SharedTxData where
  proof : SendQuadraProof
  isSolanaPayTransfer : Bool
  extraFee : OptionalFee

/-- `BigInt(x)` of a number. -/
def BigInt_number (x : ℚ) : Except Failure ℤ :=
  if x.den = 1 then .ok x.num
  else .error (.error "The number cannot be converted to a BigInt because it is not an integer")

lemma BigInt_number_exact {x : ℚ} {n : ℤ} (h : BigInt_number x = .ok n) : x = n := by
  rw [BigInt_number] at h
  split_ifs at h with hden
  obtain rfl := Except.ok.inj h
  exact (Rat.coe_int_num_of_den_eq_one hden).symm

namespace TransactionBuilding

def isGreaterThanMinAmount (amount : ℚ) (tokenType : TokenType) (accountRentFee : ℚ) : Bool :=
  decide (amount > accountRentFee) && decide (amount > (getTokenInfo tokenType).min)

def isValidAmount (amount : ℚ) (tokenType : TokenType) (accountRentFee : ℚ) : Bool :=
  isGreaterThanMinAmount amount tokenType accountRentFee &&
    decide (amount < (getTokenInfo tokenType).max)

section Builders

variable {poseidon : Poseidon} (circuits : Circuits poseidon) (serialization : Serialization)
  (seedWrapper : SeedWrapper) (accs : ProgramAccounts)

/-! ## Topups -/

def generateTopupFee (feeCalculator : FeeCalculator) (tokenType : TokenType) (amount : ℤ)
    (lamportsPerToken : ℚ) : Except Failure Fee := do
  let lamportFee ← feeCalculator.getStoreFee serialization amount
  lamportFeeToTokenFee lamportFee.toBasicFee tokenType lamportsPerToken 0

def buildStoreTx (poseidon : Poseidon) (request : TopupRequest) (params : FetchedParams) (amount : ℤ)
    (lastNonce privateBalance : ℤ) : Except Failure (StoreTx × Fee) := do
  let tokenAccRentTokenType := lamportsToToken params.tokenAccRent params.lamportsPerToken
  if !isValidAmount amount request.tokenType tokenAccRentTokenType then
    .error (.error ("Invalid token amount. Ensure you are sending at least the rent for a token account" ++
      " and less than the maximum amount. " ++ toString amount ++ " " ++ request.tokenType.toString))
  else
    let nonce := (lastNonce + 1).toNat
    let storeFee ← generateTopupFee serialization params.feeCalculator request.tokenType amount
      params.lamportsPerToken
    let commitment := buildTopupCommitment nonce amount request.tokenType params.merkleStartIndex
      seedWrapper
    pure
      ({ nonce := nonce
         amount := amount
         commitment := commitment
         sender := request.owner
         tokenType := request.tokenType
         parsedPrivateBalance := privateBalance
         merkleStartIndex := params.merkleStartIndex
         commitmentHash := poseidon.getCommitmentHash commitment
         isRecipient := request.isRecipient
         hashAccIndex := request.hashAccIndex
         identifier := seedWrapper.getRootViewingKeyWrapper.getIdentifierKey nonce
         warden := request.warden
         fee := getTotalFeeAmount storeFee }, storeFee)

/-- The topup itself.  `mergeFee` is the fee of a merge that was just made from the same parameters. -/
def topupStore (poseidon : Poseidon) (request : TopupRequest) (params : FetchedParams)
    (mergeFee : Option ℤ) : Except Failure (StoreTx × Fee) := do
  if params.activeCommitments.length = SEND_ARITY ∧ mergeFee = none then .error MERGE_NEEDED
  else
    let prevNonce := if mergeFee.isSome then params.lastNonce + 1 else params.lastNonce
    let amount ← BigInt_number request.amount
    let privateBalance := sumBalance params.activeCommitments + amount - mergeFee.getD 0
    buildStoreTx serialization seedWrapper poseidon request params amount prevNonce privateBalance

/-- The data of the topup, with its instructions. -/
def topupTxData (poseidon : Poseidon) (store : StoreTx × Fee) (params : FetchedParams)
    (mergeFee : Option ℤ) : Except Failure TopupTxData := do
  let rawTx ← buildTopupInstructions poseidon seedWrapper.getRootViewingKeyWrapper store.1 accs
    params.feeVersionData
  pure
    { fee := store.2
      tokenType := store.1.tokenType
      lastNonce := params.lastNonce
      commitmentHash := poseidon.getCommitmentHash store.1.commitment
      merkleStartIndex := params.merkleStartIndex
      tx := rawTx
      hashAccIndex := store.1.hashAccIndex
      merge := mergeFee.isSome }

def buildTopUpTxData (poseidon : Poseidon) (request : TopupRequest) (params : FetchedParams)
    (mergeFee : Option ℤ) : Except Failure TopupTxData := do
  let store ← topupStore serialization seedWrapper poseidon request params mergeFee
  topupTxData seedWrapper accs poseidon store params mergeFee

/-! ## Sends and merges -/

/-- The account that receives, and the amount with rent and extra fee. -/
def isAssociatedTokenAcc (request : SendRequest) : Bool :=
  !request.recipient.doesExist && request.tokenType != .LAMPORTS

def realRecipient (request : SendRequest) : PublicKey :=
  if isAssociatedTokenAcc request then request.recipient.owner else request.recipient.TA

def realAmount (request : SendRequest) (amount : ℤ) (tokenAccRentTokenType : ℚ) : ℤ :=
  (if request.recipient.doesExist || request.tokenType == .LAMPORTS then amount
    else amount + ⌈tokenAccRentTokenType⌉) + request.extraFee.amount

/-- The empty memo counts as none. -/
def memoBytes (request : SendRequest) : Option Bytes :=
  request.memo.bind fun memo => if memo = "" then none else some memo.toUTF8.toList

/-- The arguments of `generateSendQuadraProofInputsNoAmountNoNextCommitment`. -/
def generateProofInputs (request : SendRequest) (params : FetchedParams) (nonce : ℕ)
    (encryptedOwner : EncryptedValue) : IncompleteSendQuadraProofInputs :=
  { inputCommitments := params.activeCommitments
    nHashes := circuits.nHashes params.activeCommitments
    roots := circuits.roots params.activeCommitments
    feeVersion := params.feeVersionData.feeVersion
    tokenId := getNumberFromTokenType request.tokenType
    hashedData :=
      { recipient := ofLeBytes (realRecipient request).bytes
        identifier := ofLeBytes (seedWrapper.getRootViewingKeyWrapper.getIdentifierKey nonce).bytes
        iv := ofLeBytes encryptedOwner.iv
        encryptedOwner := ofLeBytes encryptedOwner.cipherText
        solanaPayId := (request.refKey.map fun refKey => ofLeBytes refKey.bytes).getD 0
        isAssociatedTokenAccount := isAssociatedTokenAcc request
        optionalFeeCollector := ofLeBytes request.extraFee.collector.bytes
        optionalFeeAmount := request.extraFee.amount
        memo := memoBytes request } }

def generateSendFee (proofInputs : IncompleteSendQuadraProofInputs) (tokenType : TokenType)
    (amount : ℤ) (params : FetchedParams) (recipientExists : Bool) : Except Failure Fee := do
  let lamportFee ← params.feeCalculator.getSendFee serialization proofInputs amount
    params.merkleStartIndex params.tokenAccRent recipientExists
  let extraFee ← serialization.bigIntToNumber proofInputs.hashedData.optionalFeeAmount
  lamportFeeToTokenFee lamportFee.toBasicFee tokenType params.lamportsPerToken extraFee

def generateNextSendCommitment (commitments : List IncompleteCommitment) (nonce : ℕ)
    (totalFee amountSent : ℤ) (tokenType : TokenType) (recentCommIndex : ℕ) : IncompleteCommitment :=
  buildCommitmentForSend (seedWrapper.generateNullifier nonce) tokenType (sumBalance commitments)
    amountSent totalFee recentCommIndex

/-- The recipient is never undefined here, so the proof is always that of a send. -/
def buildSendTx (request : SendRequest) (amount : ℤ) (params : FetchedParams) :
    Except Failure (SendTx × Fee) := do
  let rvk := seedWrapper.getRootViewingKeyWrapper
  if params.activeCommitments.length = 0 then
    .error (.error (TOO_SMALL_SIZE "active commitments" 0 1))
  else if ((memoBytes request).map List.length).getD 0 > 128 then
    .error (.error (TOO_LARGE_SIZE "memo" (((memoBytes request).map List.length).getD 0) 128))
  else
    let tokenAccRentTokenType := lamportsToToken params.tokenAccRent params.lamportsPerToken
    if !request.isMerge && !isGreaterThanMinAmount amount request.tokenType tokenAccRentTokenType then
      .error (.error
        "Invalid token amount. Ensure you are sending at least the rent for a token account.")
    else
      let nonce := (params.lastNonce + 1).toNat
      let encryptedOwner := rvk.encryptSeededSaltedAES256 request.owner.bytes nonce
      let proofInputs := generateProofInputs circuits seedWrapper request params nonce encryptedOwner
      let realAmount := realAmount request amount tokenAccRentTokenType
      let fee ← generateSendFee serialization proofInputs request.tokenType realAmount params
        (!isAssociatedTokenAcc request)
      -- neither the rent nor the extra fee: both are in the amount
      let totalFee := getComputationFeeTotal fee.toBasicFee
      let nextCommitment := generateNextSendCommitment seedWrapper params.activeCommitments nonce
        totalFee realAmount request.tokenType params.merkleStartIndex
      let metadata ← CommitmentMetadata.fromCommitment nonce nextCommitment
      let encMetadata := metadata.serializeAndEncrypt rvk (poseidon.getCommitmentHash nextCommitment)
      let proof ← circuits.generateSendQuadraProof proofInputs nextCommitment
        (ofLeBytes encMetadata.cipherText)
      pure
        ({ nonce := nonce
           tokenType := request.tokenType
           commitment := nextCommitment
           fee := getTotalFeeAmount fee
           encryptedOwner := encryptedOwner
           amount := realAmount
           merkleStartIndex := params.merkleStartIndex
           commitmentHash := poseidon.getCommitmentHash nextCommitment
           recipient := realRecipient request
           isAssociatedTokenAcc := isAssociatedTokenAcc request
           refKey := request.refKey
           memo := request.memo
           inputCommitments := params.activeCommitments.foldl (addToSet poseidon.getCommitmentHash) []
           proof := proof
           identifier := rvk.getIdentifierKey nonce
           isSolanaPayTransfer := request.isSolanaPayTransfer
           warden := request.warden
           extraFee := request.extraFee }, fee)

def sendTxToSendTxData (tx : SendTx) (fee : Fee) (merkleStartIndex : ℕ) : SendTxData :=
  { fee := fee
    tokenType := tx.tokenType
    lastNonce := tx.nonce - 1
    commitmentHash := poseidon.getCommitmentHash tx.commitment
    merkleStartIndex := merkleStartIndex
    proof := tx.proof
    isSolanaPayTransfer := tx.isSolanaPayTransfer
    extraFee := tx.extraFee }

/-- The send of a request, and its fee. -/
def buildSend (request : SendRequest) (params : FetchedParams) : Except Failure (SendTx × Fee) := do
  let amount ← BigInt_number request.amount
  buildSendTx circuits serialization seedWrapper request amount params

def buildSendTxData (request : SendRequest) (params : FetchedParams) : Except Failure SendTxData := do
  let send ← buildSend circuits serialization seedWrapper request params
  pure (@sendTxToSendTxData poseidon send.1 send.2 params.merkleStartIndex)

/-- A merge sends nothing, to an address that is in the lookup table. -/
def mergeRequest (tokenType : TokenType) (owner warden : PublicKey) (refKey : Option PublicKey) :
    SendRequest :=
  { amount := 0
    tokenType := tokenType
    recipient := { owner := accs.systemProgramId, TA := accs.systemProgramId, doesExist := true }
    owner := owner
    warden := warden
    refKey := refKey
    memo := none
    extraFee := { amount := 0, collector := accs.systemProgramId }
    isSolanaPayTransfer := refKey.isSome
    isMerge := true }

def buildMergeTxData (tokenType : TokenType) (owner warden : PublicKey) (refKey : Option PublicKey)
    (params : FetchedParams) : Except Failure SendTxData :=
  buildSendTxData circuits serialization seedWrapper (mergeRequest accs tokenType owner warden refKey)
    params

end Builders

end TransactionBuilding

open TransactionBuilding

/-! ## What a build has made -/

/-- What a topup is, when its build did not throw. -/
structure StoreTx.BuiltFrom (storeTx : StoreTx) (poseidon : Poseidon) (seedWrapper : SeedWrapper)
    (request : TopupRequest) (params : FetchedParams) (mergeFee : Option ℤ) : Prop where
  arity : params.activeCommitments.length = SEND_ARITY → mergeFee.isSome = true
  nonce_eq : storeTx.nonce
    = ((if mergeFee.isSome then params.lastNonce + 1 else params.lastNonce) + 1).toNat
  tokenType_eq : storeTx.tokenType = request.tokenType
  amount_eq : request.amount = storeTx.amount
  amount_pos : 0 < storeTx.amount
  merkleStartIndex_eq : storeTx.merkleStartIndex = params.merkleStartIndex
  parsedPrivateBalance_eq : storeTx.parsedPrivateBalance
    = sumBalance params.activeCommitments + storeTx.amount - mergeFee.getD 0
  isRecipient_eq : storeTx.isRecipient = request.isRecipient
  hashAccIndex_eq : storeTx.hashAccIndex = request.hashAccIndex
  identifier_eq : storeTx.identifier
    = seedWrapper.getRootViewingKeyWrapper.getIdentifierKey storeTx.nonce
  commitment_eq : storeTx.commitment = buildTopupCommitment storeTx.nonce storeTx.amount
    storeTx.tokenType storeTx.merkleStartIndex seedWrapper
  commitmentHash_eq : storeTx.commitmentHash = poseidon.getCommitmentHash storeTx.commitment

/-- What a send is, when its build did not throw. -/
structure SendTx.BuiltFrom (sendTx : SendTx) (fee : Fee) (poseidon : Poseidon)
    (seedWrapper : SeedWrapper) (request : SendRequest) (params : FetchedParams) : Prop where
  active_ne_nil : params.activeCommitments ≠ []
  nonce_eq : sendTx.nonce = (params.lastNonce + 1).toNat
  tokenType_eq : sendTx.tokenType = request.tokenType
  merkleStartIndex_eq : sendTx.merkleStartIndex = params.merkleStartIndex
  encryptedOwner_eq : sendTx.encryptedOwner
    = seedWrapper.getRootViewingKeyWrapper.encryptSeededSaltedAES256 request.owner.bytes sendTx.nonce
  identifier_eq : sendTx.identifier
    = seedWrapper.getRootViewingKeyWrapper.getIdentifierKey sendTx.nonce
  inputCommitments_eq : sendTx.inputCommitments
    = params.activeCommitments.foldl (addToSet poseidon.getCommitmentHash) []
  commitment_eq : sendTx.commitment = buildCommitmentForSend
    (seedWrapper.generateNullifier sendTx.nonce) sendTx.tokenType
    (sumBalance params.activeCommitments) sendTx.amount (getComputationFeeTotal fee.toBasicFee)
    sendTx.merkleStartIndex
  commitmentHash_eq : sendTx.commitmentHash = poseidon.getCommitmentHash sendTx.commitment
  amount_eq : sendTx.proof.publicInputs.amount = sendTx.amount + getComputationFeeTotal fee.toBasicFee
  nextCommitment_eq : sendTx.proof.publicInputs.nextCommitment = ofLeBytes sendTx.commitmentHash
  /-- The next commitment is in the range of its metadata, which goes into the proof. -/
  metadata : ∃ metadata : CommitmentMetadata, metadata.nonce = sendTx.nonce ∧
    metadata.tokenType = sendTx.tokenType ∧ metadata.assocCommIndex = sendTx.merkleStartIndex ∧
    metadata.balance = sendTx.commitment.balance ∧ sendTx.proof.publicInputs.serializedMetadata
      = ofLeBytes (metadata.serializeAndEncrypt seedWrapper.getRootViewingKeyWrapper
        sendTx.commitmentHash).cipherText

section Specs

variable {poseidon : Poseidon} {circuits : Circuits poseidon} {serialization : Serialization}
  {seedWrapper : SeedWrapper} {params : FetchedParams}

/-- A valid amount is positive. -/
lemma TransactionBuilding.pos_of_isGreaterThanMinAmount {amount : ℤ} {tokenType : TokenType}
    {accountRentFee : ℚ} (h : isGreaterThanMinAmount amount tokenType accountRentFee = true) :
    0 < amount := by
  have hmin : ((getTokenInfo tokenType).min : ℚ) < amount :=
    of_decide_eq_true (Bool.and_eq_true_iff.mp h).2
  have hnat : (0 : ℚ) ≤ (getTokenInfo tokenType).min := Nat.cast_nonneg _
  exact_mod_cast lt_of_le_of_lt hnat hmin

/-- **What a topup is built to be.** -/
theorem topupStore_spec {request : TopupRequest} {mergeFee : Option ℤ} {storeTx : StoreTx} {fee : Fee}
    (h : topupStore serialization seedWrapper poseidon request params mergeFee = .ok (storeTx, fee)) :
    storeTx.BuiltFrom poseidon seedWrapper request params mergeFee := by
  rw [topupStore] at h
  split at h
  · cases h
  rename_i harity
  obtain ⟨amount, hamount, h⟩ := bind_eq_ok.mp h
  rw [buildStoreTx] at h
  dsimp only at h
  split at h
  · cases h
  rename_i hvalid
  obtain ⟨storeFee, -, h⟩ := bind_eq_ok.mp h
  obtain ⟨rfl, rfl⟩ := Prod.mk.inj (Except.ok.inj h)
  have hpos : 0 < amount := by
    rw [Bool.not_eq_true', Bool.not_eq_false, isValidAmount, Bool.and_eq_true] at hvalid
    exact pos_of_isGreaterThanMinAmount hvalid.1
  refine ⟨fun hlen => ?_, rfl, rfl, BigInt_number_exact hamount, hpos, rfl, rfl, rfl, rfl, rfl, rfl, rfl⟩
  cases mergeFee with
  | none => exact absurd ⟨hlen, rfl⟩ harity
  | some fee => rfl

/-- **What a send is built to be.** -/
theorem buildSend_spec {request : SendRequest} {sendTx : SendTx} {fee : Fee}
    (h : buildSend circuits serialization seedWrapper request params = .ok (sendTx, fee)) :
    sendTx.BuiltFrom fee poseidon seedWrapper request params := by
  obtain ⟨amount, -, h⟩ := bind_eq_ok.mp h
  rw [buildSendTx] at h
  dsimp only at h
  split_ifs at h with hnil hmemo hmin
  obtain ⟨sendFee, hfee, h⟩ := bind_eq_ok.mp h
  obtain ⟨metadata, hmetadata, h⟩ := bind_eq_ok.mp h
  obtain ⟨proof, hproof, h⟩ := bind_eq_ok.mp h
  obtain ⟨rfl, rfl⟩ := Prod.mk.inj (Except.ok.inj h)
  have hinputs := circuits.publicInputs_eq hproof
  have hranges := CommitmentMetadata.of_fromCommitment hmetadata
  refine ⟨fun hactive => hnil (by rw [hactive]; rfl), rfl, rfl, rfl, rfl, rfl, rfl, rfl, rfl, ?_, ?_,
    metadata, hranges.1, hranges.2.1, hranges.2.2.1, hranges.2.2.2, ?_⟩
  · rw [hinputs]
    show sumBalance params.activeCommitments - (sumBalance params.activeCommitments - _ - _) = _
    ring
  · rw [hinputs, IncompleteSendQuadraProofInputs.complete]
  · rw [hinputs, IncompleteSendQuadraProofInputs.complete]

/-- The rent that the fee of a send discloses. -/
def TransactionBuilding.disclosedRent (tokenType : TokenType) (params : FetchedParams)
    (recipientExists : Bool) : ℤ :=
  if recipientExists then 0
  else ⌈lamportsToToken params.tokenAccRent params.lamportsPerToken * bufferMultiplier tokenType⌉

lemma TransactionBuilding.disclosedRent_eq (tokenType : TokenType) (params : FetchedParams)
    (recipientExists : Bool) :
    ⌈lamportsToToken (if recipientExists then 0 else (params.tokenAccRent : ℚ)) params.lamportsPerToken
      * bufferMultiplier tokenType⌉ = disclosedRent tokenType params recipientExists := by
  rw [disclosedRent]
  cases recipientExists with
  | false => rfl
  | true => rw [if_pos rfl, if_pos rfl, lamportsToToken_zero, zero_mul, Int.ceil_zero]

/-- The sum of the fee of a send; the extra fee is in the token already. -/
lemma TransactionBuilding.getTotalFeeAmount_generateSendFee
    {proofInputs : IncompleteSendQuadraProofInputs} {tokenType : TokenType} {amount : ℤ}
    {recipientExists : Bool} {fee : Fee}
    (h : generateSendFee serialization proofInputs tokenType amount params recipientExists = .ok fee) :
    getTotalFeeAmount fee = getComputationFeeTotal fee.toBasicFee
      + disclosedRent tokenType params recipientExists + proofInputs.hashedData.optionalFeeAmount := by
  obtain ⟨lamportFee, hlamports, h⟩ := bind_eq_ok.mp h
  obtain ⟨extraFee, hextra, h⟩ := bind_eq_ok.mp h
  rw [getTotalFeeAmount_lamportFeeToTokenFee h, serialization.bigIntToNumber_exact hextra,
    FeeCalculator.tokenAccRent_getSendFee hlamports, disclosedRent_eq]

/-- What is paid for a send: rent and extra fee have gone into the amount, and the fee is that of its
proof inputs. -/
lemma buildSend_payment {request : SendRequest} {sendTx : SendTx} {fee : Fee}
    (h : buildSend circuits serialization seedWrapper request params = .ok (sendTx, fee)) :
    ∃ amount : ℤ, request.amount = amount ∧
      sendTx.amount = realAmount request amount
        (lamportsToToken params.tokenAccRent params.lamportsPerToken) ∧
      generateSendFee serialization (generateProofInputs circuits seedWrapper request params
          (params.lastNonce + 1).toNat (seedWrapper.getRootViewingKeyWrapper.encryptSeededSaltedAES256
            request.owner.bytes (params.lastNonce + 1).toNat))
        request.tokenType sendTx.amount params (!isAssociatedTokenAcc request) = .ok fee := by
  obtain ⟨amount, hamount, h⟩ := bind_eq_ok.mp h
  rw [buildSendTx] at h
  dsimp only at h
  split_ifs at h with hnil hmemo hmin
  obtain ⟨sendFee, hfee, h⟩ := bind_eq_ok.mp h
  obtain ⟨metadata, -, h⟩ := bind_eq_ok.mp h
  obtain ⟨proof, -, h⟩ := bind_eq_ok.mp h
  obtain ⟨rfl, rfl⟩ := Prod.mk.inj (Except.ok.inj h)
  exact ⟨amount, BigInt_number_exact hamount, rfl, hfee⟩

/-- **A merge costs the fee for the computation and nothing else.** -/
theorem merge_spec {accs : ProgramAccounts} {tokenType : TokenType} {owner warden : PublicKey}
    {refKey : Option PublicKey} {sendTx : SendTx} {fee : Fee}
    (h : buildSend circuits serialization seedWrapper (mergeRequest accs tokenType owner warden refKey)
      params = .ok (sendTx, fee)) :
    sendTx.amount = 0 ∧ getTotalFeeAmount fee = getComputationFeeTotal fee.toBasicFee := by
  obtain ⟨amount, hamount, hreal, hfee⟩ := buildSend_payment h
  obtain rfl : amount = 0 := by
    have hcast : (0 : ℚ) = amount := hamount
    exact_mod_cast hcast.symm
  refine ⟨hreal, ?_⟩
  rw [getTotalFeeAmount_generateSendFee hfee]
  show getComputationFeeTotal fee.toBasicFee + 0 + 0 = _
  ring

end Specs

/-! ## On chain -/

/-- The finalized send, as the owner reads it: from the join split that the warden wrote, and from the
finalize transaction. -/
def SendTx.landed (sendTx : SendTx) (json : JoinSplitSerializedJSON) (rvk : RVKWrapper)
    (data : FinalizeData) : Except Failure ElusivTransaction := do
  let metadata ←
    CommitmentMetadata.deserializeAndDecrypt json.metadata rvk json.output_commitment
  pure
    { nonce := sendTx.nonce
      tokenType := metadata.tokenType
      identifier := sendTx.identifier
      amount := json.amount
      fee := json.fee
      commitmentHash := json.output_commitment
      merkleStartIndex := metadata.assocCommIndex
      warden := sendTx.warden
      transactionStatus := some .PROCESSED
      signature := some data.signature
      body := .send
        { isAssociatedTokenAcc := sendTx.isAssociatedTokenAcc
          isSolanaPayTransfer := sendTx.isSolanaPayTransfer
          metadata := some metadata
          recipient := some data.recipient
          encryptedOwner := some data.encryptedOwner
          owner := some data.owner
          refKey := some data.refKey
          memo := data.signature.memo
          extraFee := sendTx.extraFee } }

/-- The transaction on chain is the send that was built, at the fee for the computation. -/
structure SendTx.LandedAs (sendTx : SendTx) (fee : Fee) (tx : ElusivTransaction) : Prop where
  txType_eq : tx.txType = .SEND
  nonce_eq : tx.nonce = sendTx.nonce
  tokenType_eq : tx.tokenType = sendTx.tokenType
  amount_eq : tx.amount = sendTx.amount
  fee_eq : tx.fee = getComputationFeeTotal fee.toBasicFee
  commitmentHash_eq : tx.commitmentHash = sendTx.commitmentHash
  merkleStartIndex_eq : tx.merkleStartIndex = sendTx.merkleStartIndex
  status_ne : tx.transactionStatus ≠ some .CONFIRMED
  metadata : ∃ metadata : CommitmentMetadata, tx.metadata = some metadata ∧
    metadata.nonce = sendTx.nonce ∧ metadata.tokenType = sendTx.tokenType ∧
    metadata.assocCommIndex = sendTx.merkleStartIndex ∧ metadata.balance = sendTx.commitment.balance

/-- **A send lands with the amount, the fee and the next commitment it was built with.** -/
theorem SendTx.BuiltFrom.landed {sendTx : SendTx} {fee : Fee} {poseidon : Poseidon}
    {seedWrapper : SeedWrapper} {request : SendRequest} {params : FetchedParams}
    (h : sendTx.BuiltFrom fee poseidon seedWrapper request params) {serialization : Serialization}
    {json : JoinSplitSerializedJSON}
    (hjson : serialization.serializeJoinSplit sendTx.proof.publicInputs fee = .ok json)
    (data : FinalizeData) :
    ∃ tx, sendTx.landed json seedWrapper.getRootViewingKeyWrapper data = .ok tx ∧
      tx.signature = some data.signature ∧ sendTx.LandedAs fee tx := by
  rcases serialization.serializeJoinSplit_spec hjson with ⟨hfee, hamount, hhash, hmetadata⟩
  rcases h.metadata with ⟨metadata, hnonce, htoken, hindex, hbalance, hserialized⟩
  have hhash' : json.output_commitment = sendTx.commitmentHash := by
    have hlength : sendTx.commitmentHash.length = 32 := by
      rw [h.commitmentHash_eq, poseidon.length_getCommitmentHash]
    rw [hhash, h.nextCommitment_eq, ← hlength, leBytes_ofLeBytes]
  have hcipher : json.metadata = (metadata.serializeAndEncrypt
      seedWrapper.getRootViewingKeyWrapper sendTx.commitmentHash).cipherText := by
    have hlength : (metadata.serializeAndEncrypt seedWrapper.getRootViewingKeyWrapper
        sendTx.commitmentHash).cipherText.length = COMMITMENT_METADATA_LENGTH := by
      rw [CommitmentMetadata.serializeAndEncrypt, RVKWrapper.length_cipherText_encryptMetadata,
        CommitmentMetadata.length_toBytes]
    rw [hmetadata, hserialized, ← hlength, leBytes_ofLeBytes]
  have hdecrypt : CommitmentMetadata.deserializeAndDecrypt json.metadata
      seedWrapper.getRootViewingKeyWrapper json.output_commitment = .ok metadata := by
    rw [hcipher, hhash', CommitmentMetadata.deserializeAndDecrypt_serializeAndEncrypt]
  have hamount' : json.amount = sendTx.amount := by
    rw [h.amount_eq, hfee] at hamount
    exact add_right_cancel hamount
  rw [SendTx.landed, hdecrypt]
  exact ⟨_, rfl, rfl, rfl, rfl, htoken, hamount', hfee, hhash', hindex,
    (fun hstatus => by cases hstatus), metadata, rfl, hnonce, htoken, hindex, hbalance⟩

/-! ### Requests for examples -/

/-- Every transaction costs 5000 lamports, at the price of one lamport for a lamport. -/
def plainParams (lastNonce : ℤ) (activeCommitments : List IncompleteCommitment) : FetchedParams :=
  { feeCalculator := ⟨⟨5000, 0, 0, 0, 0, 0, 0, 26⟩, 0⟩
    feeVersionData := ⟨0, 0⟩
    merkleStartIndex := 7
    lamportsPerToken := 1
    tokenAccRent := 0
    activeCommitments := activeCommitments
    lastNonce := lastNonce }

def plainTopupRequest (amount : ℚ) : TopupRequest :=
  { amount := amount
    tokenType := .LAMPORTS
    owner := ElusivTransaction.bareKey 12
    isRecipient := false
    warden := ElusivTransaction.bareKey 11
    hashAccIndex := 3 }

def plainSendRequest (amount : ℚ) : SendRequest :=
  { amount := amount
    tokenType := .LAMPORTS
    recipient := ⟨ElusivTransaction.bareKey 13, ElusivTransaction.bareKey 14, true⟩
    owner := ElusivTransaction.bareKey 12
    warden := ElusivTransaction.bareKey 11
    refKey := none
    memo := none
    extraFee := ⟨ElusivTransaction.bareKey 0, 0⟩
    isSolanaPayTransfer := false
    isMerge := false }

end ElusivSdk
