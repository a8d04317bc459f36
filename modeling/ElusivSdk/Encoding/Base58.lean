import ElusivSdk.Types
import Mathlib.Data.Nat.Digits.Defs
import Mathlib.Data.Nat.Digits.Lemmas

/-!
# Base58

The text form of public keys and of instruction data: the bytes are read as one big-endian number and
written in base 58, and every leading zero byte is kept as a leading `1`.

* `encode`, `decode` — the two directions; text with other characters is refused.
* **`decode_encode`** — the bytes are read back from the text.
* `Base58Text` — text that is in base 58.
-/

namespace ElusivSdk

namespace Base58

def alphabet : List Char :=
  "123456789ABCDEFGHJKLMNPQRSTUVWXYZabcdefghijkmnopqrstuvwxyz".toList

/-- The big-endian number that the bytes stand for. -/
def number (bytes : Bytes) : ℕ := Nat.ofDigits 256 (bytes.reverse.map UInt8.toNat)

def encode (bytes : Bytes) : String :=
  String.ofList <| (bytes.takeWhile (· = 0)).map (fun _ => '1') ++
    (Nat.digits 58 (number bytes)).reverse.map fun d => alphabet.getD d '1'

def decode (text : String) : Option Bytes := do
  let digits ← text.toList.mapM fun c => alphabet.idxOf? c
  let number := Nat.ofDigits 58 digits.reverse
  some <| (digits.takeWhile (· = 0)).map (fun _ => 0) ++
    (Nat.digits 256 number).reverse.map UInt8.ofNat

/-! ## The round trip -/

/-- The digits of a text and its characters determine each other. -/
lemma mapM_idxOf? {digits : List ℕ} (h : ∀ d ∈ digits, d < 58) :
    (digits.map fun d => alphabet.getD d '1').mapM (fun c => alphabet.idxOf? c) = some digits := by
  have hdigit : ∀ d < 58, alphabet.idxOf? (alphabet.getD d '1') = some d := by decide
  induction digits with
  | nil => rfl
  | cons d digits ih =>
      rw [List.map_cons, List.mapM_cons, hdigit d (h d List.mem_cons_self),
        ih fun x hx => h x (List.mem_cons_of_mem d hx)]
      rfl

/-- A list is its leading zeros and what follows them. -/
lemma exists_leadingZeros (bytes : Bytes) : ∃ (k : ℕ) (rest : Bytes),
    bytes = List.replicate k 0 ++ rest ∧ (∀ h : rest ≠ [], rest.head h ≠ 0) := by
  induction bytes with
  | nil => exact ⟨0, [], rfl, fun h => absurd rfl h⟩
  | cons b bytes ih =>
      by_cases hb : b = 0
      · obtain ⟨k, rest, rfl, hrest⟩ := ih
        exact ⟨k + 1, rest, by rw [hb]; rfl, hrest⟩
      · exact ⟨0, b :: bytes, rfl, fun _ => hb⟩

lemma takeWhile_leadingZeros {α : Type} [DecidableEq α] {z : α} (k : ℕ) {rest : List α}
    (h : ∀ hne : rest ≠ [], rest.head hne ≠ z) :
    (List.replicate k z ++ rest).takeWhile (fun x => x = z) = List.replicate k z := by
  induction k with
  | zero =>
      cases rest with
      | nil => rfl
      | cons x rest =>
          have hx : x ≠ z := h (List.cons_ne_nil x rest)
          simp [hx]
  | succ k ih =>
      rw [List.replicate_succ, List.cons_append, List.takeWhile_cons_of_pos (by simp), ih]

/-- Leading zeros do not change the number. -/
lemma number_leadingZeros (k : ℕ) (rest : Bytes) :
    number (List.replicate k 0 ++ rest) = number rest := by
  rw [number, List.reverse_append, List.map_append, List.reverse_replicate, List.map_replicate]
  exact Nat.ofDigits_append_replicate_zero _

/-- **The bytes are read back from the text.** -/
theorem decode_encode (bytes : Bytes) : decode (encode bytes) = some bytes := by
  obtain ⟨k, rest, rfl, hrest⟩ := exists_leadingZeros bytes
  have hnumber := number_leadingZeros k rest
  set n := number rest with hn
  have hone : alphabet.getD 0 '1' = '1' := by decide
  -- the digits of the text, leading zeros included
  have hdigits : ∀ d ∈ List.replicate k 0 ++ (Nat.digits 58 n).reverse, d < 58 := by
    intro d hd
    rcases List.mem_append.mp hd with hd | hd
    · rw [List.eq_of_mem_replicate hd]
      decide
    · exact Nat.digits_lt_base (by decide) (List.mem_reverse.mp hd)
  have htext : encode (List.replicate k 0 ++ rest)
      = String.ofList ((List.replicate k 0 ++ (Nat.digits 58 n).reverse).map
        fun d => alphabet.getD d '1') := by
    rw [encode, takeWhile_leadingZeros k hrest, hnumber, List.map_append, List.map_replicate,
      List.map_replicate, hone]
  have hlast : ∀ hne : (Nat.digits 58 n).reverse ≠ [], (Nat.digits 58 n).reverse.head hne ≠ 0 := by
    intro hne
    rw [List.head_reverse]
    exact Nat.getLast_digit_ne_zero 58 fun hz => by
      rw [hz] at hne
      simp at hne
  have hbytes : (Nat.digits 256 n).reverse.map UInt8.ofNat = rest := by
    rw [hn, number, Nat.digits_ofDigits 256 (by decide)]
    · have hinv : UInt8.ofNat ∘ UInt8.toNat = id := funext fun b => UInt8.ofNat_toNat
      rw [List.map_reverse, List.map_map, hinv, List.map_id, List.reverse_reverse]
    · intro d hd
      obtain ⟨b, -, rfl⟩ := List.mem_map.mp hd
      exact b.toNat_lt
    · intro hne
      have hne' : rest ≠ [] := by
        rintro rfl
        exact hne rfl
      simp only [List.getLast_map, List.getLast_reverse]
      exact fun hz => hrest hne' (UInt8.toNat_inj.mp hz)
  have hof : Nat.ofDigits 58 (List.replicate k 0 ++ (Nat.digits 58 n).reverse).reverse = n := by
    rw [List.reverse_append, List.reverse_reverse, List.reverse_replicate,
      Nat.ofDigits_append_replicate_zero, Nat.ofDigits_digits]
  rw [decode, htext, String.toList_ofList, mapM_idxOf? hdigits]
  show some _ = _
  rw [hof, takeWhile_leadingZeros k hlast, hbytes, List.map_replicate]

end Base58

/-- Text in base 58, as a node writes the data of an instruction. -/
structure Base58Text where
  text : String
  isBase58 : (Base58.decode text).isSome = true
deriving DecidableEq

def bs58ToBytes (str : Base58Text) : Bytes := (Base58.decode str.text).get str.isBase58

def bytesToBs58 (bytes : Bytes) : Base58Text :=
  { text := Base58.encode bytes, isBase58 := by rw [Base58.decode_encode]; rfl }

@[simp]
lemma bs58ToBytes_bytesToBs58 (bytes : Bytes) : bs58ToBytes (bytesToBs58 bytes) = bytes :=
  Option.get_of_eq_some _ (Base58.decode_encode bytes)

def PublicKey.toBase58 (key : PublicKey) : String := Base58.encode key.bytes

end ElusivSdk
