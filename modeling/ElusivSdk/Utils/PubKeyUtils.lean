import ElusivSdk.Transactions.RawTransaction

/-!
# Token accounts

What the chain says about token accounts, and who owns them.

* `TokenConnection` — the token package, over a connection.
* `tokenAccExists`, `getOwnerFromAcc` — the translated functions.
* `getAssociatedTokenAcc` — the account of a key for a token; there is none for lamports.
-/

namespace ElusivSdk

/-- How `getAccount` fails.  The first two say that there is no such token account. -/
inductive GetAccountError
  | tokenAccountNotFound
  | tokenInvalidAccountOwner
  | other (failure : Failure)
deriving DecidableEq

namespace GetAccountError

def isMissing : GetAccountError → Bool
  | tokenAccountNotFound | tokenInvalidAccountOwner => true
  | other _ => false

/-- The errors of the token package have a name and no message. -/
def toFailure : GetAccountError → Failure
  | tokenAccountNotFound | tokenInvalidAccountOwner => .error ""
  | other failure => failure

end GetAccountError

structure TokenConnection where
  /-- The owner of a token account. -/
  getAccount : PublicKey → Except GetAccountError PublicKey
  isOnCurve : PublicKey → Bool

section

variable (accs : ProgramAccounts) (conn : TokenConnection)

def tokenAccExists (pubKey : PublicKey) : Except Failure Bool :=
  match conn.getAccount pubKey with
  | .ok _ => .ok true
  | .error error => if error.isMissing then .ok false else .error error.toFailure

/-- The package refuses an owner that is not on the curve, unless that is allowed. -/
def getAssociatedTokenAcc (pk : PublicKey) (t : TokenType) (allowOwnerOffCurve : Bool) :
    Except Failure PublicKey :=
  if t = .LAMPORTS then .ok pk
  else if !allowOwnerOffCurve && !conn.isOnCurve pk then
    .error (.error ("TokenOwnerOffCurveError: Please pass the owner account instead of the ATA account "
      ++ "or set allowOwnerOffCurve to true if this was intended"))
  else .ok (accs.getAssociatedTokenAcc pk t)

def getOwnerFromAcc (acc : PublicKey) (tokenType : TokenType) : Except Failure PublicKey :=
  if tokenType = .LAMPORTS || conn.isOnCurve acc then .ok acc
  else
    match conn.getAccount acc with
    | .ok taOwner => .ok taOwner
    | .error error =>
        if error.isMissing then do
          -- an account that is none itself may own one
          let ata ← getAssociatedTokenAcc accs conn acc tokenType true
          if ← tokenAccExists conn ata then pure acc else .error error.toFailure
        else .error error.toFailure

end

end ElusivSdk
