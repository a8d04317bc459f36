import ElusivSdk.Encoding.BigIntText
import ElusivSdk.Library.FirstMatch
import Mathlib.Algebra.Order.Ring.Nat
import Mathlib.Data.List.TakeWhile
import Mathlib.Data.Nat.Log

/-!
# Texts and numbers of the language

The functions of the language that look for a text, cut it and read a number from it.  A text is the list of
its characters.  Positions are integers: a text that is not found is at `-1`, and the functions that cut take
such positions too.

* `indexOf`, `includes`, `slice`, `substring`, `parseInt` — the functions of the language.
* `Number.ofNat` — the nearest number that the language has.
* **`parseInt_toDigits_append`** — digits are read up to the first character that is none.
* **`parseInt_eq_neg_one_iff`** — when text is read as `-1`.
-/

namespace ElusivSdk

open FirstMatch BigIntText

namespace Text

/-! ## Searching and cutting -/

def indexOf (text pattern : List Char) : ℤ :=
  match position pattern text with
  | some i => i
  | none => -1

def includes (text pattern : List Char) : Bool := (position pattern text).isSome

/-- `text.slice(start)`: from the end, if the start is negative. -/
def slice (text : List Char) (start : ℤ) : List Char :=
  text.drop (if start < 0 then text.length + start else start).toNat

/-- `text.substring(start, stop)`: positions outside of the text are moved to its ends, and the greater one
is taken as the end. -/
def substring (text : List Char) (start stop : ℤ) : List Char :=
  (text.take (max start.toNat stop.toNat)).drop (min start.toNat stop.toNat)

variable {text pattern before after : List Char}

lemma indexOf_of_first (h : First pattern text before after) : indexOf text pattern = before.length := by
  rw [indexOf, h.position_eq]

lemma indexOf_of_not_first (h : ¬∃ before after, First pattern text before after) :
    indexOf text pattern = -1 := by
  rw [indexOf, position_eq_none_iff.mpr h]

lemma slice_natCast (n : ℕ) : slice text n = text.drop n := by
  rw [slice, if_neg (by omega), Int.toNat_natCast]

/-- A text that was not found leaves the last character. -/
lemma length_slice_neg_one : (slice text (-1)).length ≤ 1 := by
  rw [slice, if_pos (by decide), List.length_drop]
  omega

lemma substring_zero_natCast (n : ℕ) : substring text 0 n = text.take n := by
  rw [substring, Int.toNat_natCast, Int.toNat_zero, Nat.zero_max, Nat.zero_min, List.drop_zero]

/-- A delimiter that was not found leaves nothing. -/
lemma substring_zero_neg_one : substring text 0 (-1) = [] := rfl

/-- The part before a delimiter, if there is one. -/
lemma substring_zero_indexOf (text : List Char) (c : Char) :
    substring text 0 (indexOf text [c]) = if c ∈ text then text.takeWhile (· ≠ c) else [] := by
  split_ifs with hc
  · obtain ⟨before, after, rfl, hbefore⟩ := List.eq_append_cons_of_mem hc
    have hall : ∀ d ∈ before, decide (d ≠ c) = true := fun d hd =>
      decide_eq_true fun h => hbefore (h ▸ hd)
    rw [indexOf_of_first (first_singleton hbefore), substring_zero_natCast, List.take_left,
      List.takeWhile_append_of_pos hall, List.takeWhile_cons_of_neg (by simp), List.append_nil]
  · rw [indexOf_of_not_first, substring_zero_neg_one]
    rintro ⟨before, after, h⟩
    rw [h.eq] at hc
    exact hc (List.mem_append_left _ (List.mem_append_right _ List.mem_cons_self))

end Text

/-! ## Numbers -/

/-- The values that are read: an integer, one out of range, or none. -/
inductive Number
  | nan
  | infinity (negative : Bool)
  | int (value : ℤ)
deriving DecidableEq

namespace Number

/-- To 53 significant bits, and to the even one in the middle. -/
def nearest (n : ℕ) : ℕ :=
  let unit := 2 ^ (Nat.log 2 n - 52)
  let significand := n / unit
  if 2 * (n % unit) < unit ∨ 2 * (n % unit) = unit ∧ significand % 2 = 0 then significand * unit
  else (significand + 1) * unit

/-- The nearest number; numbers have up to 1024 binary digits. -/
def ofNat (negative : Bool) (n : ℕ) : Number :=
  if Nat.log 2 (nearest n) < 1024 then .int (bif negative then -nearest n else nearest n)
  else .infinity negative

lemma nearest_of_lt {n : ℕ} (h : n < 2 ^ 53) : nearest n = n := by
  have hlog : Nat.log 2 n - 52 = 0 := by
    have hlt : Nat.log 2 n < 53 := Nat.log_lt_of_lt_pow' (by decide) h
    omega
  rw [nearest, hlog]
  simp only [Nat.pow_zero, Nat.mod_one, Nat.div_one, Nat.mul_zero, Nat.zero_lt_one, true_or, if_true,
    Nat.mul_one]

lemma le_nearest {n : ℕ} (h : 2 ^ 53 ≤ n) : 2 ^ 52 ≤ nearest n := by
  have hne : n ≠ 0 := by rintro rfl; exact absurd h (by decide)
  have hlog : 52 ≤ Nat.log 2 n := (Nat.le_log_iff_pow_le (by decide) hne).mpr (le_trans (by decide) h)
  have hsignificand : 2 ^ 52 ≤ n / 2 ^ (Nat.log 2 n - 52) := by
    rw [Nat.le_div_iff_mul_le (Nat.two_pow_pos _), ← Nat.pow_add, Nat.add_sub_cancel' hlog]
    exact Nat.pow_log_le_self 2 hne
  have hunit : 1 ≤ 2 ^ (Nat.log 2 n - 52) := Nat.two_pow_pos _
  rw [nearest]
  split_ifs
  · exact le_trans hsignificand (Nat.le_mul_of_pos_right _ hunit)
  · exact le_trans (Nat.le_succ_of_le hsignificand) (Nat.le_mul_of_pos_right _ hunit)

/-- Small numbers come from themselves only. -/
lemma nearest_eq_iff {n k : ℕ} (hk : k < 2 ^ 52) : nearest n = k ↔ n = k := by
  rcases Nat.lt_or_ge n (2 ^ 53) with h | h
  · rw [nearest_of_lt h]
  · have hle := le_nearest h
    omega

lemma log_lt {k : ℕ} (hk : k < 2 ^ 52) : Nat.log 2 k < 1024 :=
  lt_trans (Nat.log_lt_of_lt_pow' (by decide) hk) (by decide)

lemma ofNat_false_eq_iff {n k : ℕ} (hk : k < 2 ^ 52) : ofNat false n = .int k ↔ n = k := by
  rw [← nearest_eq_iff hk, ofNat]
  constructor
  · intro h
    split_ifs at h
    exact Int.ofNat.inj (int.inj h)
  · intro h
    rw [h, if_pos (log_lt hk)]
    rfl

lemma ofNat_true_eq_neg_iff {n k : ℕ} (hk : k < 2 ^ 52) : ofNat true n = .int (-k) ↔ n = k := by
  rw [← nearest_eq_iff hk, ofNat]
  constructor
  · intro h
    split_ifs at h
    exact Int.ofNat.inj (Int.neg_inj.mp (int.inj h))
  · intro h
    rw [h, if_pos (log_lt hk)]
    rfl

lemma ofNat_false_ne_neg_one (n : ℕ) : ofNat false n ≠ .int (-1) := by
  intro h
  rw [ofNat] at h
  split_ifs at h
  have heq : (nearest n : ℤ) = -1 := int.inj h
  omega

end Number

namespace Text

variable {text : List Char}

/-! ## Reading a number -/

/-- The digits that the text starts with. -/
def leadingDigits (radix : ℕ) (text : List Char) : Option ℕ :=
  ofDigits radix (text.takeWhile (digitValue · < radix))

/-- What comes after an `x`, if that is how the text starts. -/
def afterX : List Char → Option (List Char)
  | 'x' :: text | 'X' :: text => some text
  | _ => none

def stripHexPrefix : List Char → List Char
  | '0' :: text => (afterX text).getD ('0' :: text)
  | text => text

def readDigits (radix : ℕ) (text : List Char) : Option ℕ :=
  leadingDigits radix (if radix = 16 then stripHexPrefix text else text)

/-- Text without digits is no number. -/
def signed (negative : Bool) : Option ℕ → Number
  | none => .nan
  | some n => Number.ofNat negative n

/-- White space and a sign may stand in front of the digits, and anything after them. -/
def parseInt (text : List Char) (radix : ℕ) : Number :=
  match text.dropWhile isWhiteSpace with
  | '-' :: text => signed true (readDigits radix text)
  | '+' :: text => signed false (readDigits radix text)
  | text => signed false (readDigits radix text)

lemma parseInt_nil (radix : ℕ) : parseInt [] radix = .nan := by
  have hread : readDigits radix [] = none := by
    rw [readDigits]
    split_ifs <;> rfl
  rw [parseInt, List.dropWhile_nil]
  exact congrArg (signed false) hread

lemma signed_false_eq_iff {digits : Option ℕ} {k : ℕ} (hk : k < 2 ^ 52) :
    signed false digits = .int k ↔ digits = some k := by
  cases digits with
  | none => exact iff_of_false Number.noConfusion (by simp)
  | some n => exact (Number.ofNat_false_eq_iff hk).trans Option.some_inj.symm

lemma signed_false_ne_neg_one (digits : Option ℕ) : signed false digits ≠ .int (-1) := by
  cases digits with
  | none => exact Number.noConfusion
  | some n => exact Number.ofNat_false_ne_neg_one n

lemma signed_true_eq_neg_one_iff {digits : Option ℕ} : signed true digits = .int (-1) ↔ digits = some 1 := by
  cases digits with
  | none => exact iff_of_false Number.noConfusion (by simp)
  | some n => exact (Number.ofNat_true_eq_neg_iff (by decide)).trans Option.some_inj.symm

/-! ## Digits of a number -/

lemma digitValue_digitChar {d : ℕ} (hd : d < 16) : digitValue d.digitChar = d := by
  have hall : ∀ d < 16, digitValue d.digitChar = d := by decide
  exact hall d hd

/-- The digits of a number are digits, and their value is the number. -/
lemma ofDigits_toDigits_of_le {radix : ℕ} (hlow : 1 < radix) (hhigh : radix ≤ 16) (n : ℕ) :
    (∀ c ∈ Nat.toDigits radix n, digitValue c < radix) ∧
      (Nat.toDigits radix n).foldl (fun number c => radix * number + digitValue c) 0 = n := by
  induction n using Nat.base_induction radix hlow with
  | single m hm =>
      rw [Nat.toDigits_of_lt_base hm, List.forall_mem_singleton, List.foldl_cons, List.foldl_nil,
        digitValue_digitChar (lt_of_lt_of_le hm hhigh)]
      omega
  | digit m k hk hm ih =>
      have hdigits : Nat.toDigits radix (radix * m + k) = Nat.toDigits radix m ++ [k.digitChar] := by
        rw [← Nat.toDigits_append_toDigits hlow hm hk, Nat.toDigits_of_lt_base hk]
      have hvalue := digitValue_digitChar (lt_of_lt_of_le hk hhigh)
      rw [hdigits, List.foldl_append, ih.2, List.foldl_cons, List.foldl_nil, hvalue]
      refine ⟨?_, rfl⟩
      intro c hc
      rcases List.mem_append.mp hc with hc | hc
      · exact ih.1 c hc
      · rw [List.mem_singleton.mp hc, hvalue]
        exact hk

/-- The text does not go on with a digit. -/
def NoDigitFirst (radix : ℕ) (text : List Char) : Prop :=
  ∀ c ∈ text.head?, radix ≤ digitValue c

instance (radix : ℕ) (text : List Char) : Decidable (NoDigitFirst radix text) :=
  decidable_of_iff (text.head?.all fun c => decide (radix ≤ digitValue c)) (by
    cases text <;> simp [NoDigitFirst])

lemma leadingDigits_toDigits_append {radix : ℕ} (hlow : 1 < radix) (hhigh : radix ≤ 16) (n : ℕ)
    (h : NoDigitFirst radix text) : leadingDigits radix (Nat.toDigits radix n ++ text) = some n := by
  obtain ⟨hdigits, hvalue⟩ := ofDigits_toDigits_of_le hlow hhigh n
  have hnone : text.takeWhile (digitValue · < radix) = [] := by
    cases text with
    | nil => rfl
    | cons c text =>
        refine List.takeWhile_cons_of_neg ?_
        rw [decide_eq_true_eq]
        exact not_lt.mpr (h c rfl)
  have htake : (Nat.toDigits radix n ++ text).takeWhile (digitValue · < radix) = Nat.toDigits radix n := by
    rw [List.takeWhile_append_of_pos (fun c hc => decide_eq_true (hdigits c hc)), hnone, List.append_nil]
  rw [leadingDigits, htake, ofDigits, if_pos ⟨Nat.toDigits_ne_nil, hdigits⟩, hvalue]

/-- The first digit of a number, which is 0 for 0 only. -/
lemma exists_toDigits_eq_cons {radix : ℕ} (hlow : 1 < radix) (n : ℕ) :
    ∃ d tail, Nat.toDigits radix n = d.digitChar :: tail ∧ d < radix ∧ (d = 0 → n = 0) := by
  induction n using Nat.base_induction radix hlow with
  | single m hm => exact ⟨m, [], Nat.toDigits_of_lt_base hm, hm, id⟩
  | digit m k hk hm ih =>
      obtain ⟨d, tail, hdigits, hd, hzero⟩ := ih
      refine ⟨d, tail ++ Nat.toDigits radix k, ?_, hd, fun h => absurd (hzero h) hm.ne'⟩
      rw [← Nat.toDigits_append_toDigits hlow hm hk, hdigits]
      rfl

/-- Neither white space nor a sign comes before the digits. -/
lemma parseInt_toDigits_append_eq {radix : ℕ} (hlow : 1 < radix) (hhigh : radix ≤ 16) (n : ℕ)
    (text : List Char) : parseInt (Nat.toDigits radix n ++ text) radix
      = signed false (readDigits radix (Nat.toDigits radix n ++ text)) := by
  have hplain : ∀ d < 16, isWhiteSpace d.digitChar = false ∧ d.digitChar ≠ '-' ∧ d.digitChar ≠ '+' := by
    decide
  obtain ⟨d, tail, hdigits, hd, -⟩ := exists_toDigits_eq_cons hlow n
  obtain ⟨hspace, hminus, hplus⟩ := hplain d (lt_of_lt_of_le hd hhigh)
  rw [hdigits, List.cons_append, parseInt, List.dropWhile_cons_of_neg (by rw [hspace]; decide)]
  split
  · rename_i heq
    injection heq with h _
    exact absurd h hminus
  · rename_i heq
    injection heq with h _
    exact absurd h hplus
  · rfl

/-- An `x` after a 0 makes a prefix. -/
lemma readDigits_toDigits_append {radix : ℕ} (hlow : 1 < radix) (hhigh : radix ≤ 16) (n : ℕ)
    (h : NoDigitFirst radix text) : readDigits radix (Nat.toDigits radix n ++ text)
      = if radix = 16 ∧ n = 0 then ((afterX text).elim (some 0) (leadingDigits 16)) else some n := by
  have hread := leadingDigits_toDigits_append hlow hhigh n h
  rw [readDigits]
  split_ifs with hradix hzero hzero
  · obtain ⟨rfl, rfl⟩ := hzero
    rw [Nat.toDigits_zero, List.singleton_append] at hread ⊢
    rw [stripHexPrefix]
    cases hx : afterX text with
    | none => exact hread
    | some rest => rfl
  · -- the first digit is not 0
    have hdigit : ∀ d < 16, d.digitChar = '0' → d = 0 := by decide
    obtain ⟨d, tail, hdigits, hd, hfirst⟩ := exists_toDigits_eq_cons hlow n
    have hstrip : stripHexPrefix (Nat.toDigits radix n ++ text) = Nat.toDigits radix n ++ text := by
      rw [hdigits, List.cons_append, stripHexPrefix]
      intro rest heq
      injection heq with hchar _
      exact hzero ⟨hradix, hfirst (hdigit d (lt_of_lt_of_le hd hhigh) hchar)⟩
    rw [hstrip, hread]
  · exact absurd hzero.1 hradix
  · exact hread

/-- **A text is read as `-1`** when it says so. -/
lemma parseInt_eq_neg_one_iff {radix : ℕ} : parseInt text radix = .int (-1) ↔
    ∃ rest, text.dropWhile isWhiteSpace = '-' :: rest ∧ readDigits radix rest = some 1 := by
  rw [parseInt]
  split
  · rename_i rest heq
    rw [signed_true_eq_neg_one_iff]
    constructor
    · intro h
      exact ⟨rest, heq, h⟩
    · rintro ⟨rest', heq', h⟩
      injection heq.symm.trans heq' with _ hrest
      exact hrest ▸ h
  · rename_i rest heq
    refine iff_of_false (signed_false_ne_neg_one _) ?_
    rintro ⟨rest', heq', -⟩
    injection heq.symm.trans heq' with hsign _
    exact absurd hsign (by decide)
  · rename_i hminus _
    refine iff_of_false (signed_false_ne_neg_one _) ?_
    rintro ⟨rest, heq, -⟩
    exact hminus rest heq

end Text

end ElusivSdk
