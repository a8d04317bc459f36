import ElusivSdk.Types
import Mathlib.Data.Rat.Floor

/-!
# Fees

A fee has a part for the computation, a part for the network, the rent of a token account and an extra fee
for a third party.  JavaScript numbers are read as the rationals they stand for.

* `Fee`, `getComputationFeeTotal`, `getTotalFeeAmount` — the fee and its two sums, rounded up.
* `lamportsToToken`, `lamportFeeToTokenFee` — the fee in another token, at a price in lamports.
* **`getTotalFeeAmount_eq`** — the sums differ by rent and extra fee, once these are whole numbers.
-/

namespace ElusivSdk

/-! ## Fees and their sums -/

/-- A fee without an extra fee. -/
structure BasicFee where
  tokenType : TokenType
  txFee : ℚ
  privacyFee : ℚ
  tokenAccRent : ℚ
  lamportsPerToken : Option ℚ
deriving DecidableEq

structure Fee extends BasicFee where
  extraFee : ℚ
deriving DecidableEq

/-- `Math.ceil`. -/
def getComputationFeeTotal (f : BasicFee) : ℤ := ⌈f.privacyFee + f.txFee⌉

def getTotalFeeAmount (f : Fee) : ℤ :=
  ⌈getComputationFeeTotal f.toBasicFee + f.tokenAccRent + f.extraFee⌉

/-- With a whole rent and a whole extra fee nothing is rounded. -/
theorem getTotalFeeAmount_eq {f : Fee} {rent extra : ℤ} (hrent : f.tokenAccRent = rent)
    (hextra : f.extraFee = extra) :
    getTotalFeeAmount f = getComputationFeeTotal f.toBasicFee + rent + extra := by
  rw [getTotalFeeAmount, hrent, hextra, ← Int.cast_add, ← Int.cast_add, Int.ceil_intCast]

/-! ## Fees in another token -/

def DEFAULT_PRECISION : ℕ := 9

/-- `Number.parseFloat(x.toFixed(precision))`: the nearest number with that many decimals, a half away
from zero. -/
def toFixed (precision : ℕ) (x : ℚ) : ℚ :=
  if x < 0 then -(⌊-x * 10 ^ precision + 1 / 2⌋ / 10 ^ precision)
  else ⌊x * 10 ^ precision + 1 / 2⌋ / 10 ^ precision

def lamportsToToken (lamportAmount lamportsPerToken : ℚ) : ℚ :=
  if lamportsPerToken = 0 then 0 else toFixed DEFAULT_PRECISION (lamportAmount / lamportsPerToken)

@[simp]
lemma lamportsToToken_zero (lamportsPerToken : ℚ) : lamportsToToken 0 lamportsPerToken = 0 := by
  have hhalf : ⌊(1 / 2 : ℚ)⌋ = 0 := Int.floor_eq_zero_iff.mpr ⟨by norm_num, by norm_num⟩
  rw [lamportsToToken, zero_div, toFixed, if_neg (lt_irrefl 0), zero_mul, zero_add, hhalf,
    Int.cast_zero, zero_div, ite_self]

/-- Two percent for price changes, except in lamports. -/
def bufferMultiplier (tokenType : TokenType) : ℚ := if tokenType = .LAMPORTS then 1 else 102 / 100

def lamportFeeToTokenFee (lamportFee : BasicFee) (tokenType : TokenType) (lamportsPerToken : ℚ)
    (extraFeeInToken : ℤ) : Except Failure Fee :=
  if lamportFee.tokenType ≠ .LAMPORTS then .error (.error "Expected fee in lamports")
  else
    let inToken (lamportAmount : ℚ) : ℤ :=
      ⌈lamportsToToken lamportAmount lamportsPerToken * bufferMultiplier tokenType⌉
    .ok
      { tokenType := tokenType
        txFee := inToken lamportFee.txFee
        privacyFee := inToken lamportFee.privacyFee
        tokenAccRent := inToken lamportFee.tokenAccRent
        lamportsPerToken := some lamportsPerToken
        extraFee := extraFeeInToken }

/-- The sum of a fee in a token: the rent is the one in lamports, with the buffer. -/
theorem getTotalFeeAmount_lamportFeeToTokenFee {lamportFee : BasicFee} {tokenType : TokenType}
    {lamportsPerToken : ℚ} {extraFeeInToken : ℤ} {fee : Fee}
    (h : lamportFeeToTokenFee lamportFee tokenType lamportsPerToken extraFeeInToken = .ok fee) :
    getTotalFeeAmount fee = getComputationFeeTotal fee.toBasicFee
      + ⌈lamportsToToken lamportFee.tokenAccRent lamportsPerToken * bufferMultiplier tokenType⌉
      + extraFeeInToken := by
  rw [lamportFeeToTokenFee] at h
  split_ifs at h
  obtain rfl := Except.ok.inj h
  exact getTotalFeeAmount_eq rfl rfl

/-- An extra fee changes nothing else. -/
lemma lamportFeeToTokenFee_extraFee {lamportFee : BasicFee} {tokenType : TokenType}
    {lamportsPerToken : ℚ} {extraFeeInToken : ℤ} {fee : Fee}
    (h : lamportFeeToTokenFee lamportFee tokenType lamportsPerToken extraFeeInToken = .ok fee)
    (extraFeeInToken' : ℤ) :
    lamportFeeToTokenFee lamportFee tokenType lamportsPerToken extraFeeInToken'
      = .ok { fee with extraFee := extraFeeInToken' } := by
  rw [lamportFeeToTokenFee] at h ⊢
  split_ifs at h ⊢
  obtain rfl := Except.ok.inj h
  rfl

/-- What is worth something in lamports is worth something in a token. -/
lemma lamportsToToken_nonneg {lamportAmount lamportsPerToken : ℚ} (hamount : 0 ≤ lamportAmount)
    (hprice : 0 ≤ lamportsPerToken) : 0 ≤ lamportsToToken lamportAmount lamportsPerToken := by
  have hquot : 0 ≤ lamportAmount / lamportsPerToken := div_nonneg hamount hprice
  rw [lamportsToToken]
  split_ifs
  · exact le_refl 0
  · rw [toFixed, if_neg (not_lt.mpr hquot)]
    positivity

end ElusivSdk
