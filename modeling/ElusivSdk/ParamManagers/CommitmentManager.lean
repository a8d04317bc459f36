import ElusivSdk.TxManagers.PrivateBalance
import ElusivSdk.Utils.GeneralSet

/-!
# Commitments

The commitment of a transaction is rebuilt from what the chain tells about it: for a topup from the
transaction itself, for a send from its metadata or, when the metadata is missing or does not fit, from
the private balance before its nonce.

* `CommitmentScheme` — the nullifiers of the wallet, the commitment hash, and the state of the tree.
* `getCommitmentForPartialSend` — the fast and the slow way.
* `getActiveCommitments` — the commitments of the active transactions, once the newest is inserted.
-/

namespace ElusivSdk

open Program

/-! ## Commitments and where they come from -/

/-- What the commitment manager takes from elsewhere: the seed, the hash function, the tree. -/
structure CommitmentScheme where
  generateNullifier : ℕ → Bytes
  getCommitmentHash : IncompleteCommitment → Bytes
  /-- Is the commitment in the tree, at the start index or later? -/
  hasCommitment : Bytes → ℕ → Bool

def STILL_WAITING : Failure :=
  .error "Cannot create transaction while still waiting for tx to confirm"

/-- Is there no room for a further commitment? -/
def needMerge (activeCommitments : List IncompleteCommitment) : Except Failure Bool :=
  if activeCommitments.length > SEND_ARITY then
    .error (.error (INVALID_SIZE "active commitmetns" activeCommitments.length SEND_ARITY))
  else .ok (activeCommitments.length == SEND_ARITY)

/-- `totalFee` includes neither the extra fee nor the rent; these are in `sendAmount`. -/
def buildCommitmentForSend (nullifier : Bytes) (tokenType : TokenType)
    (privateBalanceBeforeNonce sendAmount totalFee : ℤ) (assocCommIndex : ℕ) :
    IncompleteCommitment :=
  { nullifier := nullifier
    balance := privateBalanceBeforeNonce - sendAmount - totalFee
    tokenType := tokenType
    assocCommIndex := assocCommIndex }

namespace CommitmentScheme

variable (scheme : CommitmentScheme)

def buildCommitmentForPartialStore (tx : ElusivTransaction) : IncompleteCommitment :=
  { nullifier := scheme.generateNullifier tx.nonce
    balance := tx.amount
    tokenType := tx.tokenType
    assocCommIndex := tx.merkleStartIndex }

def buildCommitmentForPartialSend (tx : ElusivTransaction) (privateBalanceBeforeNonce : ℤ) :
    IncompleteCommitment :=
  buildCommitmentForSend (scheme.generateNullifier tx.nonce) tx.tokenType privateBalanceBeforeNonce
    tx.amount tx.fee tx.merkleStartIndex

def commFromMetadata (metadata : CommitmentMetadata) : IncompleteCommitment :=
  { nullifier := scheme.generateNullifier metadata.nonce
    balance := metadata.balance
    tokenType := metadata.tokenType
    assocCommIndex := metadata.assocCommIndex }

/-- The set of commitments, each hash once. -/
def commitmentSet (comms : List IncompleteCommitment) : List IncompleteCommitment :=
  comms.foldl (addToSet scheme.getCommitmentHash) []

/-- The tree position of each commitment is looked up from its start index. -/
def activateCommitments (comms : List IncompleteCommitment) (startIndices : List ℕ) :
    Except Failure (List IncompleteCommitment) :=
  if comms.length ≠ startIndices.length then
    .error (.error "Arrays to be zipped don't have same length")
  else if (comms.zip startIndices).all fun c => scheme.hasCommitment (scheme.getCommitmentHash c.1) c.2
  then .ok (scheme.commitmentSet comms)
  else .error COULD_NOT_FIND_COMMITMENT

/-! ## Calls on the manager -/

section Methods

variable (getTxsFromNonces : List (ℕ × Bool) → Except Failure (List ElusivTransaction)) (fuel : ℕ)

def getCommitmentForPartialSendSlow (tx : ElusivTransaction) : ManagerM IncompleteCommitment := do
  let privateBalanceSlow ←
    getPrivateBalanceFromTxHistory getTxsFromNonces fuel tx.tokenType (some tx.nonce)
  let resSlow := scheme.buildCommitmentForPartialSend tx privateBalanceSlow
  if scheme.getCommitmentHash resSlow = tx.commitmentHash then pure resSlow
  else throw (.error ("Failed to reconstruct commitment for nonce " ++ toString tx.nonce))

def getCommitmentForPartialSend (tx : ElusivTransaction) : ManagerM IncompleteCommitment :=
  match tx.metadata with
  | some metadata =>
      let res := scheme.commFromMetadata metadata
      if scheme.getCommitmentHash res = tx.commitmentHash then pure res
      else scheme.getCommitmentForPartialSendSlow getTxsFromNonces fuel tx
  | none => scheme.getCommitmentForPartialSendSlow getTxsFromNonces fuel tx

def getCommitmentForTransaction (tx : ElusivTransaction) : ManagerM IncompleteCommitment :=
  match tx.txType with
  | .TOPUP => pure (scheme.buildCommitmentForPartialStore tx)
  | .SEND => scheme.getCommitmentForPartialSend getTxsFromNonces fuel tx

def isTransactionConfirmed (tx : ElusivTransaction) : ManagerM Bool := do
  let comm ← scheme.getCommitmentForTransaction getTxsFromNonces fuel tx
  pure (scheme.hasCommitment (scheme.getCommitmentHash comm) tx.merkleStartIndex)

/-- The topups come first in the set, the start indices are in the order of the transactions. -/
def getIncompleteCommitmentsForTxs (txs : List ElusivTransaction) :
    ManagerM (List IncompleteCommitment × List ℕ) := do
  let topups := (txs.filter fun tx => tx.txType == .TOPUP).map scheme.buildCommitmentForPartialStore
  let sends ← (txs.filter fun tx => tx.txType == .SEND).mapM
    (scheme.getCommitmentForPartialSend getTxsFromNonces fuel)
  pure (scheme.commitmentSet (topups ++ sends), txs.map ElusivTransaction.merkleStartIndex)

def getActiveCommitments (tokenType : TokenType) (beforeSend : Option ElusivTransaction) :
    ManagerM (List IncompleteCommitment) := do
  let activeTxs ← getActiveTxs getTxsFromNonces fuel tokenType beforeSend
  match activeTxs with
  | [] => pure []
  | newest :: _ =>
      -- only the newest has to be checked
      if ← scheme.isTransactionConfirmed getTxsFromNonces fuel newest then do
        let activeComms ← scheme.getIncompleteCommitmentsForTxs getTxsFromNonces fuel activeTxs
        lift (scheme.activateCommitments activeComms.1 activeComms.2)
      else throw STILL_WAITING

/-- `RemoteParamFetching.getMostRecentNonce`. -/
def getMostRecentNonce : ManagerM ℤ := do
  let mostRecentTx ← getMostRecentTx getTxsFromNonces fuel
  match mostRecentTx with
  | none => pure (-1)
  | some tx =>
      if ← scheme.isTransactionConfirmed getTxsFromNonces fuel tx then pure tx.nonce
      else throw STILL_WAITING

end Methods

end CommitmentScheme

end ElusivSdk
