import ElusivSdk.TxBuilding.SendCharge
import ElusivSdk.ParamManagers.Fee.Subvention

/-!
# The network fee in another token

The network takes a share of the amount, in basis points.  The amount of a send is in the token, so its
share is too.  The fee calculator says that the share is in lamports, and the price turns it into the token
a second time.

* `toFixed_le_iff` — where the rounding of prices jumps.
* `networkShare` — the share of the amount, rounded down.
* `PriceFits` — the price is one lamport for a unit of the token, as far as the roundings tell.
* **`generateSendFee_privacyFee_iff`** — the network gets its share exactly when the price fits.
* `priceFits_near_one` — from a share of a hundred on, only prices within four percent of one fit.
-/

namespace ElusivSdk

open Program TransactionBuilding

/-! ## Rounding to decimals -/

/-- From here on numbers are rounded to more than `y`. -/
def roundingBound (precision : ℕ) (y : ℚ) : ℚ := (⌊y * 10 ^ precision⌋ + 1 / 2) / 10 ^ precision

lemma toFixed_le_iff {precision : ℕ} {x y : ℚ} (hx : 0 ≤ x) :
    toFixed precision x ≤ y ↔ x < roundingBound precision y := by
  have hscale : (0 : ℚ) < 10 ^ precision := by positivity
  rw [toFixed, if_neg (not_lt.mpr hx), roundingBound, div_le_iff₀ hscale, lt_div_iff₀ hscale,
    ← Int.le_floor, ← Int.lt_add_one_iff, Int.floor_lt, Int.cast_add, Int.cast_one]
  constructor <;> intro h <;> linarith

/-- The bound is half a unit of the last decimal away, at most. -/
lemma roundingBound_le (precision : ℕ) (y : ℚ) :
    roundingBound precision y ≤ y + 1 / 2 / 10 ^ precision := by
  have hscale : (0 : ℚ) < 10 ^ precision := by positivity
  rw [roundingBound, add_div]
  exact add_le_add_left ((div_le_iff₀ hscale).mpr (Int.floor_le _)) _

lemma lt_roundingBound (precision : ℕ) (y : ℚ) :
    y - 1 / 2 / 10 ^ precision < roundingBound precision y := by
  have hscale : (0 : ℚ) < 10 ^ precision := by positivity
  rw [roundingBound, lt_div_iff₀ hscale, sub_mul, div_mul_cancel₀ _ hscale.ne']
  have hfloor := Int.lt_floor_add_one (y * 10 ^ precision)
  linarith

/-! ## The share of the network -/

def networkShare (c : FeeCalculator) (amount : ℕ) : ℕ := c.feeData.proof_network_fee * amount / 10000

lemma getSendPrivacyFee_eq (c : FeeCalculator) (amount : ℕ) :
    c.getSendPrivacyFee amount = networkShare c amount := by
  rw [FeeCalculator.getSendPrivacyFee, FeeCalculator.proofVerificationNetworkFee, networkShare]
  exact_mod_cast Int.tdiv_eq_ediv_of_nonneg (Int.natCast_nonneg (c.feeData.proof_network_fee * amount))

lemma bufferMultiplier_pos (tokenType : TokenType) : 0 < bufferMultiplier tokenType := by
  rw [bufferMultiplier]
  split_ifs <;> norm_num

/-- The price takes the share, as if it was in lamports, to a number that is rounded up to the share or, by
the buffer of two percent, a little more. -/
structure PriceFits (tokenType : TokenType) (share : ℕ) (lamportsPerToken : ℚ) : Prop where
  not_less : roundingBound DEFAULT_PRECISION ((share - 1) / bufferMultiplier tokenType) * lamportsPerToken
    ≤ share
  not_more : share < roundingBound DEFAULT_PRECISION
    (⌈(share : ℚ) * (102 / 100)⌉ / bufferMultiplier tokenType) * lamportsPerToken

/-- What `generateSendFee` makes of the share. -/
def shareInToken (tokenType : TokenType) (share : ℕ) (lamportsPerToken : ℚ) : ℤ :=
  ⌈lamportsToToken share lamportsPerToken * bufferMultiplier tokenType⌉

/-- **The share survives the price exactly when the price fits.** -/
theorem shareInToken_iff (tokenType : TokenType) (share : ℕ) {lamportsPerToken : ℚ}
    (hprice : 0 < lamportsPerToken) :
    share ≤ shareInToken tokenType share lamportsPerToken ∧
        shareInToken tokenType share lamportsPerToken ≤ ⌈(share : ℚ) * (102 / 100)⌉ ↔
      PriceFits tokenType share lamportsPerToken := by
  have hbuffer := bufferMultiplier_pos tokenType
  have hquot : 0 ≤ (share : ℚ) / lamportsPerToken := div_nonneg (Nat.cast_nonneg _) hprice.le
  -- both bounds are bounds on the rounded quotient
  have hle (bound : ℤ) : shareInToken tokenType share lamportsPerToken ≤ bound ↔
      share < roundingBound DEFAULT_PRECISION (bound / bufferMultiplier tokenType) * lamportsPerToken := by
    rw [shareInToken, lamportsToToken, if_neg hprice.ne', Int.ceil_le, ← le_div_iff₀ hbuffer,
      toFixed_le_iff hquot, div_lt_iff₀ hprice]
  have hlower : share ≤ shareInToken tokenType share lamportsPerToken ↔
      roundingBound DEFAULT_PRECISION ((share - 1) / bufferMultiplier tokenType) * lamportsPerToken
        ≤ share := by
    rw [← not_lt, ← Int.le_sub_one_iff, hle, not_lt, Int.cast_sub, Int.cast_natCast, Int.cast_one]
  rw [hlower, hle]
  exact ⟨fun h => ⟨h.1, h.2⟩, fun h => ⟨h.not_less, h.not_more⟩⟩

section NetworkFee

variable {serialization : Serialization} {proofInputs : IncompleteSendQuadraProofInputs}
  {tokenType : TokenType} {amount : ℕ} {params : FetchedParams} {recipientExists : Bool} {fee : Fee}

lemma privacyFee_generateSendFee (h : generateSendFee serialization proofInputs tokenType amount params
      recipientExists = .ok fee) :
    fee.privacyFee = shareInToken tokenType (networkShare params.feeCalculator amount)
      params.lamportsPerToken := by
  obtain ⟨lamportFee, hlamports, h⟩ := bind_eq_ok.mp h
  obtain ⟨extraFee, -, h⟩ := bind_eq_ok.mp h
  obtain ⟨totalFee, -, -, hprivacy⟩ := FeeCalculator.getSendFee_spec hlamports
  rw [lamportFeeToTokenFee] at h
  split_ifs at h
  obtain rfl := Except.ok.inj h
  rw [getSendPrivacyFee_eq, Int.cast_natCast] at hprivacy
  rw [shareInToken, ← hprivacy]

/-- **The network fee is the share of the amount, with at most the buffer — exactly when the price fits.** -/
theorem generateSendFee_privacyFee_iff (h : generateSendFee serialization proofInputs tokenType amount
      params recipientExists = .ok fee) (hprice : 0 < params.lamportsPerToken) :
    (networkShare params.feeCalculator amount ≤ fee.privacyFee ∧
        fee.privacyFee ≤ ⌈(networkShare params.feeCalculator amount : ℚ) * (102 / 100)⌉) ↔
      PriceFits tokenType (networkShare params.feeCalculator amount) params.lamportsPerToken := by
  rw [← shareInToken_iff tokenType _ hprice, privacyFee_generateSendFee h]
  norm_cast

end NetworkFee

/-! ## Prices that fit -/

lemma one_le_bufferMultiplier (tokenType : TokenType) : 1 ≤ bufferMultiplier tokenType := by
  rw [bufferMultiplier]
  split_ifs <;> norm_num

lemma bufferMultiplier_le (tokenType : TokenType) : bufferMultiplier tokenType ≤ 102 / 100 := by
  rw [bufferMultiplier]
  split_ifs <;> norm_num

/-- Whole numbers stay what they are. -/
lemma toFixed_natCast (precision n : ℕ) : toFixed precision n = n := by
  have hscale : (10 ^ precision : ℚ) ≠ 0 := by positivity
  have hfloor : ⌊(n : ℚ) * 10 ^ precision + 1 / 2⌋ = n * 10 ^ precision := by
    rw [Int.floor_eq_iff]
    push_cast
    constructor <;> linarith
  rw [toFixed, if_neg (not_lt.mpr (Nat.cast_nonneg n)), hfloor]
  push_cast
  exact mul_div_cancel_right₀ _ hscale

/-- With a lamport for a unit nothing is lost, as for lamports themselves. -/
theorem priceFits_one (tokenType : TokenType) (share : ℕ) : PriceFits tokenType share 1 := by
  refine (shareInToken_iff tokenType share one_pos).mp ?_
  rw [shareInToken, lamportsToToken, if_neg one_ne_zero, div_one, toFixed_natCast]
  have hshare : (0 : ℚ) ≤ share := Nat.cast_nonneg share
  constructor
  · have hle : (share : ℚ) ≤ share * bufferMultiplier tokenType :=
      le_mul_of_one_le_right hshare (one_le_bufferMultiplier tokenType)
    exact_mod_cast hle.trans (Int.le_ceil _)
  · exact Int.ceil_mono (mul_le_mul_of_nonneg_left (bufferMultiplier_le tokenType) hshare)

/-- **From a share of a hundred on, only prices within four percent of one fit.** -/
theorem priceFits_near_one {tokenType : TokenType} {share : ℕ} {lamportsPerToken : ℚ}
    (hprice : 0 < lamportsPerToken) (hshare : 100 ≤ share)
    (hfits : PriceFits tokenType share lamportsPerToken) :
    97 / 100 < lamportsPerToken ∧ lamportsPerToken < 104 / 100 := by
  have hbuffer := bufferMultiplier_pos tokenType
  have hmany : (100 : ℚ) ≤ share := by exact_mod_cast hshare
  constructor
  · -- below, the share would be exceeded by more than the buffer
    have hceil := Int.ceil_lt_add_one ((share : ℚ) * (102 / 100))
    have hbound : (⌈(share : ℚ) * (102 / 100)⌉ : ℚ) / bufferMultiplier tokenType
        ≤ ⌈(share : ℚ) * (102 / 100)⌉ :=
      div_le_self (by positivity) (one_le_bufferMultiplier tokenType)
    have hround := roundingBound_le DEFAULT_PRECISION
      ((⌈(share : ℚ) * (102 / 100)⌉ : ℚ) / bufferMultiplier tokenType)
    by_contra hlow
    have hscaled : (share : ℚ) < (share * (102 / 100) + 1 + 1 / 2 / 10 ^ DEFAULT_PRECISION) * (97 / 100) :=
      calc (share : ℚ) < _ := hfits.not_more
        _ ≤ (share * (102 / 100) + 1 + 1 / 2 / 10 ^ DEFAULT_PRECISION) * lamportsPerToken :=
          mul_le_mul_of_nonneg_right (by linarith) hprice.le
        _ ≤ _ := mul_le_mul_of_nonneg_left (not_lt.mp hlow) (by positivity)
    norm_num [DEFAULT_PRECISION] at hscaled
    linarith
  · -- above, something of the share would be lost
    have hbound : ((share : ℚ) - 1) / (102 / 100) ≤ (share - 1) / bufferMultiplier tokenType :=
      div_le_div_of_nonneg_left (by linarith) hbuffer (bufferMultiplier_le tokenType)
    have hround := lt_roundingBound DEFAULT_PRECISION (((share : ℚ) - 1) / bufferMultiplier tokenType)
    have hpos : (0 : ℚ) ≤ (share - 1) / (102 / 100) - 1 / 2 / 10 ^ DEFAULT_PRECISION := by
      norm_num [DEFAULT_PRECISION]
      linarith
    by_contra hhigh
    have hscaled : (((share : ℚ) - 1) / (102 / 100) - 1 / 2 / 10 ^ DEFAULT_PRECISION) * (104 / 100)
        ≤ share :=
      calc _ ≤ (((share : ℚ) - 1) / (102 / 100) - 1 / 2 / 10 ^ DEFAULT_PRECISION) * lamportsPerToken :=
          mul_le_mul_of_nonneg_left (not_lt.mp hhigh) hpos
        _ ≤ _ := mul_le_mul_of_nonneg_right (by linarith) hprice.le
        _ ≤ (share : ℚ) := hfits.not_less
    norm_num [DEFAULT_PRECISION] at hscaled
    linarith

/-! ### A price of fifty lamports -/

def dollarParams (lamportsPerToken : ℚ) : FetchedParams :=
  { plainParams 0 [] with
    feeCalculator := plainFees
    lamportsPerToken := lamportsPerToken }

def dollarFee (lamportsPerToken : ℚ) : Except Failure Fee :=
  generateSendFee plainSerialization FeeCalculator.getDummyIncompleteSendQuadraInputs .USDC 1000000000
    (dollarParams lamportsPerToken) true

lemma dollarFee_isOk : (dollarFee 1).isOk = true := by decide +kernel

theorem generateSendFee_privacyFee_iff_dollar :
    ∃ fee, dollarFee 1 = .ok fee ∧ (networkShare plainFees 1000000000 : ℚ) ≤ fee.privacyFee ∧
      fee.privacyFee ≤ ⌈(networkShare plainFees 1000000000 : ℚ) * (102 / 100)⌉ := by
  refine ⟨value (dollarFee 1) dollarFee_isOk, eq_ok_value dollarFee_isOk, ?_⟩
  exact (generateSendFee_privacyFee_iff (eq_ok_value dollarFee_isOk) one_pos).mpr (priceFits_one _ _)

/-- **Of 1000 dollars the network should get 5**, and at fifty lamports for a millionth of a dollar it gets
the tenth of a dollar. -/
theorem dollarFee_divided_by_price :
    ((dollarFee 50).map fun fee => fee.privacyFee) = .ok 102000 ∧
      networkShare plainFees 1000000000 = 5000000 ∧
      ¬ (networkShare plainFees 1000000000 : ℚ) ≤ 102000 := by
  have hshare : networkShare plainFees 1000000000 = 5000000 := by decide
  refine ⟨by decide +kernel, hshare, ?_⟩
  rw [hshare]
  norm_num

end ElusivSdk
