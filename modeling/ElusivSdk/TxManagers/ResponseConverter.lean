import ElusivSdk.Transactions.TxParsing.TransactionParsing

/-!
# From responses to transactions

The responses for one identifier key, the newest first.  A store is one response.  A send is its init
response and, once it is finalized, an earlier finalize response: the partner of a finalize is the next
init on the same verification account.

* `txResponseToElusivTxs` — all transactions of one nonce, or a failure.
-/

namespace ElusivSdk

open TransactionParsing

/-- A response and the signature it was asked for with. -/
structure SigResponse where
  fst : ParsedTransactionWithMeta
  snd : ConfirmedSignatureInfo
deriving DecidableEq

structure NoncedTxResponse where
  txResponse : List SigResponse
  nonce : ℕ
  idPubKey : PublicKey
deriving DecidableEq

def INVALID_TX_TYPE : String := "Invalid transaction type"

namespace ResponseConverter

section

variable (rvk : RVKWrapper) (accs : ProgramAccounts) (tx : NoncedTxResponse)

/-- Other transactions may mention the identifier key too. -/
def getElusivTxs : List SigResponse :=
  tx.txResponse.filter fun msg => isElusivTx accs msg.fst.message tx.idPubKey

def txResponseToStoreTx (response : SigResponse) : Except Failure ElusivTransaction :=
  tryParseRawStore response.fst.message (response.fst.innerInstructions.getD []) response.snd
    tx.nonce tx.idPubKey rvk

def txResponseToSendTx (responses : List SigResponse) : Except Failure ElusivTransaction :=
  tryParseRawSend accs (responses.map fun t => t.fst.message) (responses.map SigResponse.snd)
    tx.nonce tx.idPubKey rvk

/-- The inner loop: the next init on the verification account, with its index.  Comparing with a missing
account throws. -/
def findInitTx (verificationAccFinalize : Option PublicKey) :
    List (SigResponse × ℕ) → Except Failure (Option (SigResponse × ℕ))
  | [] => .ok none
  | (response, j) :: rest =>
      match getSendInitIx accs response.fst.message tx.idPubKey with
      | none => findInitTx verificationAccFinalize rest
      | some initIx =>
          match InitVerificationInstructionBase.getVerificationAcc initIx, verificationAccFinalize with
          | some verificationAcc, some verificationAccFinalize' =>
              if verificationAcc = verificationAccFinalize' then .ok (some (response, j))
              else findInitTx verificationAccFinalize rest
          | _, _ => .error .typeError

/-- What a response starts as a store. -/
def startStore (elusivTx : SigResponse) : List (Except Failure ElusivTransaction) :=
  if isStoreTx accs elusivTx.fst.message tx.idPubKey then [txResponseToStoreTx rvk tx elusivTx] else []

/-- What a response starts as a finalize, together with its init, which is marked as viewed.  The newest
response comes first, so that the init is among the responses that follow. -/
def startFinalized (elusivTx : SigResponse) (remaining : List (SigResponse × ℕ)) (viewed : List Bool) :
    Except Failure (List (Except Failure ElusivTransaction) × List Bool) :=
  match getSendFinalizeIx accs elusivTx.fst.message tx.idPubKey with
  | none => .ok ([], viewed)
  | some finalizeIx => do
      match ← findInitTx accs tx (FinalizeVerificationInstruction.getVerificationAcc finalizeIx)
        remaining with
      | none => .error (.error ("Failed to find init tx for identifier " ++ tx.idPubKey.toBase58))
      | some (initTx, j) =>
          .ok ([txResponseToSendTx rvk accs tx [elusivTx, initTx]], viewed.set j true)

/-- What a response starts as an init that no finalize has taken. -/
def startPending (elusivTx : SigResponse) : List (Except Failure ElusivTransaction) :=
  if (getSendInitIx accs elusivTx.fst.message tx.idPubKey).isSome then
    [txResponseToSendTx rvk accs tx [elusivTx]]
  else []

/-- The outer loop: every response that is not viewed yet starts the parsing of what it holds.  What is
started is awaited after the loop. -/
def startParsing : List (SigResponse × ℕ) → List Bool →
    Except Failure (List (Except Failure ElusivTransaction))
  | [], _ => .ok []
  | (elusivTx, i) :: rest, viewed =>
      if viewed.getD i false then startParsing rest viewed
      else do
        let (sends, viewed) ← startFinalized rvk accs tx elusivTx ((elusivTx, i) :: rest) viewed
        let others ← startParsing rest viewed
        .ok (startStore rvk accs tx elusivTx ++ sends ++ startPending rvk accs tx elusivTx ++ others)

def txResponseToElusivTxs : Except Failure (List ElusivTransaction) :=
  if tx.txResponse.length = 0 then .error (.error "TxResponse contains null or is empty")
  else do
    let elusivTxs := getElusivTxs accs tx
    let txs ← startParsing rvk accs tx elusivTxs.zipIdx (List.replicate elusivTxs.length false)
    if txs.length = 0 then .error (.error INVALID_TX_TYPE)
    else txs.mapM id

end

end ResponseConverter

end ElusivSdk
