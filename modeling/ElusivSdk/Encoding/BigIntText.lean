import ElusivSdk.Types
import Mathlib.Data.List.Basic

/-!
# Integers from text

`BigInt(text)` of the language: decimal digits with an optional sign, or digits in base 16, 8 or 2 after
`0x`, `0o` or `0b`, with white space around them; empty text is 0.  Any other text is an error.

* **`BigInt_toString`** — a number is read back from its decimal digits.
-/

namespace ElusivSdk

namespace BigIntText

/-- White space and line terminators of the language. -/
def isWhiteSpace (c : Char) : Bool :=
  c.toNat ∈ [9, 10, 11, 12, 13, 32, 160, 5760, 8232, 8233, 8239, 8287, 12288, 65279] ||
    (8192 ≤ c.toNat && c.toNat ≤ 8202)

def trim (text : List Char) : List Char :=
  ((text.dropWhile isWhiteSpace).reverse.dropWhile isWhiteSpace).reverse

/-- The value of a digit; 36 for what is none. -/
def digitValue (c : Char) : ℕ :=
  if c.isDigit then c.toNat - '0'.toNat
  else if 'a' ≤ c ∧ c ≤ 'f' then c.toNat - 'a'.toNat + 10
  else if 'A' ≤ c ∧ c ≤ 'F' then c.toNat - 'A'.toNat + 10
  else 36

-- digit by digit, not through all characters
instance decidableDigits (base : ℕ) (digits : List Char) :
    Decidable (∀ c ∈ digits, digitValue c < base) :=
  List.decidableBAll _ digits

/-- One or more digits of a base. -/
def ofDigits (base : ℕ) (digits : List Char) : Option ℕ :=
  if digits ≠ [] ∧ ∀ c ∈ digits, digitValue c < base then
    some (digits.foldl (fun number c => base * number + digitValue c) 0)
  else none

def parse (text : List Char) : Option ℤ :=
  match trim text with
  | [] => some 0
  | '0' :: 'x' :: digits | '0' :: 'X' :: digits => (ofDigits 16 digits).map Int.ofNat
  | '0' :: 'o' :: digits | '0' :: 'O' :: digits => (ofDigits 8 digits).map Int.ofNat
  | '0' :: 'b' :: digits | '0' :: 'B' :: digits => (ofDigits 2 digits).map Int.ofNat
  | '-' :: digits => (ofDigits 10 digits).map fun n => -(n : ℤ)
  | '+' :: digits => (ofDigits 10 digits).map Int.ofNat
  | digits => (ofDigits 10 digits).map Int.ofNat

lemma digitValue_of_isDigit {c : Char} (h : c.isDigit = true) :
    digitValue c = c.toNat - '0'.toNat := if_pos h

lemma digitValue_lt {c : Char} (h : c.isDigit = true) : digitValue c < 10 := by
  have hc : 48 ≤ c.toNat ∧ c.toNat ≤ 57 := by
    simpa [Char.isDigit, UInt32.le_iff_toNat_le] using h
  rw [digitValue_of_isDigit h]
  show c.toNat - 48 < 10
  omega

lemma ofDigits_toDigits (n : ℕ) : ofDigits 10 (Nat.toDigits 10 n) = some n := by
  have hdigit : ∀ c ∈ Nat.toDigits 10 n, c.isDigit = true :=
    fun c hc => Nat.isDigit_of_mem_toDigits (by decide) (by decide) hc
  rw [ofDigits, if_pos ⟨Nat.toDigits_ne_nil, fun c hc => digitValue_lt (hdigit c hc)⟩]
  have hfold : (Nat.toDigits 10 n).foldl (fun number c => 10 * number + digitValue c) 0
      = Nat.ofDigitChars 10 (Nat.toDigits 10 n) 0 := by
    rw [Nat.ofDigitChars_eq_foldl]
    exact List.foldl_ext _ _ _ fun number c hc => by rw [digitValue_of_isDigit (hdigit c hc)]
  rw [hfold, Nat.ofDigitChars_ten_toDigits]

/-- Text of digits needs no trimming. -/
lemma trim_of_isDigit {text : List Char} (h : ∀ c ∈ text, c.isDigit = true) : trim text = text := by
  have hspace : ∀ c : Char, c.isDigit = true → isWhiteSpace c = false := by
    intro c hc
    have hrange : 48 ≤ c.toNat ∧ c.toNat ≤ 57 := by
      simpa [Char.isDigit, UInt32.le_iff_toNat_le] using hc
    rw [isWhiteSpace, Bool.or_eq_false_iff]
    constructor
    · refine decide_eq_false fun hmem => ?_
      simp only [List.mem_cons, List.not_mem_nil, or_false] at hmem
      omega
    · rw [Bool.and_eq_false_iff]
      exact Or.inl (decide_eq_false (by omega))
  have hdrop : ∀ cs : List Char, (∀ c ∈ cs, c.isDigit = true) → cs.dropWhile isWhiteSpace = cs := by
    intro cs hcs
    cases cs with
    | nil => rfl
    | cons c cs =>
        rw [List.dropWhile_cons_of_neg]
        rw [hspace c (hcs c List.mem_cons_self)]
        decide
  rw [trim, hdrop text h, hdrop _ fun c hc => h c (List.mem_reverse.mp hc), List.reverse_reverse]

end BigIntText

def BigInt (text : String) : Except Failure ℤ :=
  match BigIntText.parse text.toList with
  | some n => .ok n
  | none => .error (.error ("Cannot convert " ++ text ++ " to a BigInt"))

/-- **A number is read back from its decimal digits.** -/
theorem BigInt_toString (n : ℕ) : BigInt (toString n) = .ok (n : ℤ) := by
  have hdigit : ∀ c ∈ Nat.toDigits 10 n, c.isDigit = true :=
    fun c hc => Nat.isDigit_of_mem_toDigits (by decide) (by decide) hc
  have hparse : BigIntText.parse (Nat.toDigits 10 n) = some (n : ℤ) := by
    have hof := BigIntText.ofDigits_toDigits n
    have hne : Nat.toDigits 10 n ≠ [] := Nat.toDigits_ne_nil
    rw [BigIntText.parse, BigIntText.trim_of_isDigit hdigit]
    generalize Nat.toDigits 10 n = digits at hdigit hof hne
    -- no other branch starts with two digits, or with a digit at all
    split
    · exact absurd rfl hne
    all_goals first
      | exact absurd (hdigit _ (List.mem_cons_of_mem _ List.mem_cons_self)) (by decide)
      | exact absurd (hdigit _ List.mem_cons_self) (by decide)
      | rw [hof]; rfl
  have hchars : (toString n).toList = Nat.toDigits 10 n := Nat.toList_repr
  rw [BigInt, hchars, hparse]

end ElusivSdk
