import Mathlib.Algebra.Group.Nat.Defs
import Mathlib.Data.List.Basic
import Mathlib.Logic.Equiv.Defs
import Mathlib.Tactic.Common

/-!
# Binary formats

A `Format` is a writer and a reader for one type of value: the reader consumes exactly what the writer
wrote, whatever follows it.  Not every value fits a format (an integer may be too large for its field),
so the law is for the values that do.

* `leBytes`, `ofLeBytes` — numbers as bytes, the lowest first.
* `Format.uint`, `Format.bytes`, `Format.bool` — the fields.
* `Format.pair`, `Format.iso`, `Format.check`, `Format.variant`, `Format.option`, `Format.times`,
  `Format.vec` — how fields are put together to records and lists.
* **`Format.parse_encode`** — a value that fits is read back from its encoding.
* `Format.pair_decode_eq_none_right` and its siblings — how a reader refuses what another format wrote.
-/

namespace Format

/-! ## Numbers as bytes -/

/-- The number in `n` bytes, the lowest byte first; what does not fit is cut off. -/
def leBytes : ℕ → ℕ → List UInt8
  | 0, _ => []
  | n + 1, x => UInt8.ofNat x :: leBytes n (x / 256)

/-- The number that the bytes stand for, the lowest byte first. -/
def ofLeBytes : List UInt8 → ℕ := List.foldr (fun b rest => b.toNat + 256 * rest) 0

@[simp]
lemma length_leBytes (n x : ℕ) : (leBytes n x).length = n := by
  induction n generalizing x with
  | zero => rfl
  | succ n ih => rw [leBytes, List.length_cons, ih]

lemma ofLeBytes_cons (b : UInt8) (bs : List UInt8) :
    ofLeBytes (b :: bs) = b.toNat + 256 * ofLeBytes bs := rfl

lemma ofLeBytes_leBytes {n x : ℕ} (h : x < 256 ^ n) : ofLeBytes (leBytes n x) = x := by
  induction n generalizing x with
  | zero =>
      have hx : x = 0 := by simpa using h
      rw [hx]
      rfl
  | succ n ih =>
      have hdiv : x / 256 < 256 ^ n := by
        rw [Nat.div_lt_iff_lt_mul (by decide), ← Nat.pow_succ]
        exact h
      rw [leBytes, ofLeBytes_cons, ih hdiv, UInt8.toNat_ofNat']
      omega

lemma ofLeBytes_lt (bs : List UInt8) : ofLeBytes bs < 256 ^ bs.length := by
  induction bs with
  | nil => exact Nat.one_pos
  | cons b bs ih =>
      have hb := b.toNat_lt
      rw [ofLeBytes_cons, List.length_cons, Nat.pow_succ]
      omega

lemma leBytes_ofLeBytes (bs : List UInt8) : leBytes bs.length (ofLeBytes bs) = bs := by
  induction bs with
  | nil => rfl
  | cons b bs ih =>
      have hb := b.toNat_lt
      have hdiv : (b.toNat + 256 * ofLeBytes bs) / 256 = ofLeBytes bs := by omega
      have hmod : UInt8.ofNat (b.toNat + 256 * ofLeBytes bs) = b := by
        refine UInt8.toNat_inj.mp ?_
        rw [UInt8.toNat_ofNat']
        omega
      rw [List.length_cons, leBytes, ofLeBytes_cons, hdiv, hmod, ih]

lemma leBytes_ofLeBytes_of_length {n : ℕ} {bs : List UInt8} (h : bs.length = n) :
    leBytes n (ofLeBytes bs) = bs := h ▸ leBytes_ofLeBytes bs

/-- Zeros at the end do not count. -/
lemma ofLeBytes_append_zeros (bs : List UInt8) (n : ℕ) :
    ofLeBytes (bs ++ List.replicate n 0) = ofLeBytes bs := by
  induction bs with
  | nil =>
      induction n with
      | zero => rfl
      | succ n ih =>
          rw [List.nil_append, List.replicate_succ, ofLeBytes_cons]
          rw [List.nil_append] at ih
          rw [ih]
          rfl
  | cons b bs ih => rw [List.cons_append, ofLeBytes_cons, ofLeBytes_cons, ih]

end Format

/-! ## Formats -/

/-- A writer, a reader, and the values for which the reader undoes the writer. -/
structure Format (α : Type) where
  encode : α → List UInt8
  decode : List UInt8 → Option (α × List UInt8)
  Fits : α → Prop
  decode_encode : ∀ a, Fits a → ∀ rest, decode (encode a ++ rest) = some (a, rest)

namespace Format

variable {α β : Type}

/-- Reading a value from all of the bytes. -/
def parse (f : Format α) (bs : List UInt8) : Option α :=
  match f.decode bs with
  | some (a, []) => some a
  | _ => none

/-- **A value that fits is read back from its encoding.** -/
theorem parse_encode (f : Format α) {a : α} (h : f.Fits a) : f.parse (f.encode a) = some a := by
  have hdec := f.decode_encode a h []
  rw [List.append_nil] at hdec
  rw [parse, hdec]

/-- An unsigned integer of `n` bytes. -/
def uint (n : ℕ) : Format ℕ where
  encode x := leBytes n x
  decode bs := if n ≤ bs.length then some (ofLeBytes (bs.take n), bs.drop n) else none
  Fits x := x < 256 ^ n
  decode_encode x h rest := by
    rw [if_pos (by simp), List.take_left' (length_leBytes n x), List.drop_left' (length_leBytes n x),
      ofLeBytes_leBytes h]

/-- `n` bytes. -/
def bytes (n : ℕ) : Format (List UInt8) where
  encode bs := bs
  decode bs := if n ≤ bs.length then some (bs.take n, bs.drop n) else none
  Fits bs := bs.length = n
  decode_encode bs h rest := by
    rw [if_pos (by simp [h]), List.take_left' h, List.drop_left' h]

/-- One byte, 0 or 1. -/
def bool : Format Bool where
  encode b := [if b then 1 else 0]
  decode
    | 0 :: rest => some (false, rest)
    | 1 :: rest => some (true, rest)
    | _ => none
  Fits _ := True
  decode_encode b _ rest := by cases b <;> rfl

/-- One value after the other. -/
def pair (f : Format α) (g : Format β) : Format (α × β) where
  encode x := f.encode x.1 ++ g.encode x.2
  decode bs := do
    let (a, bs) ← f.decode bs
    let (b, bs) ← g.decode bs
    some ((a, b), bs)
  Fits x := f.Fits x.1 ∧ g.Fits x.2
  decode_encode x h rest := by
    simp [List.append_assoc, f.decode_encode x.1 h.1, g.decode_encode x.2 h.2]

/-- The same bytes for another type of values. -/
def iso (f : Format α) (e : α ≃ β) : Format β where
  encode b := f.encode (e.symm b)
  decode bs := (f.decode bs).map fun r => (e r.1, r.2)
  Fits b := f.Fits (e.symm b)
  decode_encode b h rest := by
    rw [f.decode_encode _ h, Option.map_some, e.apply_symm_apply]

/-- The reader refuses values that do not satisfy `p`. -/
def check (f : Format α) (p : α → Bool) : Format α where
  encode := f.encode
  decode bs := (f.decode bs).filter fun r => p r.1
  Fits a := f.Fits a ∧ p a = true
  decode_encode a h rest := by
    rw [f.decode_encode a h.1, Option.filter_some, if_pos h.2]

/-- A tag byte before the value. -/
def variant (tag : UInt8) (f : Format α) : Format α where
  encode a := tag :: f.encode a
  decode
    | b :: rest => if b = tag then f.decode rest else none
    | [] => none
  Fits := f.Fits
  decode_encode a h rest := by
    show (if tag = tag then f.decode (f.encode a ++ rest) else none) = _
    rw [if_pos rfl, f.decode_encode a h]

/-- A byte that tells whether a value follows. -/
def option (f : Format α) : Format (Option α) where
  encode
    | none => [0]
    | some a => 1 :: f.encode a
  decode
    | 0 :: rest => some (none, rest)
    | 1 :: rest => (f.decode rest).map fun r => (some r.1, r.2)
    | _ => none
  Fits a := ∀ x ∈ a, f.Fits x
  decode_encode a h rest := by
    cases a with
    | none => rfl
    | some x =>
        show (f.decode (f.encode x ++ rest)).map (fun r => (some r.1, r.2)) = _
        rw [f.decode_encode x (h x rfl)]
        rfl

/-- `n` values one after the other. -/
def decodeTimes (f : Format α) : ℕ → List UInt8 → Option (List α × List UInt8)
  | 0, bs => some ([], bs)
  | n + 1, bs => do
      let (a, bs) ← f.decode bs
      let (as, bs) ← f.decodeTimes n bs
      some (a :: as, bs)

lemma decodeTimes_flatMap (f : Format α) :
    ∀ as : List α, (∀ a ∈ as, f.Fits a) → ∀ rest,
      f.decodeTimes as.length (as.flatMap f.encode ++ rest) = some (as, rest)
  | [], _, _ => rfl
  | a :: as, h, rest => by
      rw [List.flatMap_cons, List.append_assoc, List.length_cons, decodeTimes,
        f.decode_encode a (h a List.mem_cons_self)]
      show (f.decodeTimes as.length (as.flatMap f.encode ++ rest)).bind _ = _
      rw [f.decodeTimes_flatMap as fun x hx => h x (List.mem_cons_of_mem a hx)]
      rfl

/-- A list of fixed length. -/
def times (n : ℕ) (f : Format α) : Format (List α) where
  encode as := as.flatMap f.encode
  decode := f.decodeTimes n
  Fits as := as.length = n ∧ ∀ a ∈ as, f.Fits a
  decode_encode as h rest := by
    rw [← h.1]
    exact f.decodeTimes_flatMap as h.2 rest

/-- A list after its length. -/
def vec (f : Format α) : Format (List α) where
  encode as := leBytes 4 as.length ++ as.flatMap f.encode
  decode bs := do
    let (n, bs) ← (uint 4).decode bs
    f.decodeTimes n bs
  Fits as := as.length < 256 ^ 4 ∧ ∀ a ∈ as, f.Fits a
  decode_encode as h rest := by
    have hlen := (uint 4).decode_encode as.length h.1 (as.flatMap f.encode ++ rest)
    show (((uint 4).decode (((uint 4).encode as.length ++ as.flatMap f.encode) ++ rest)).bind fun r =>
      f.decodeTimes r.1 r.2) = _
    rw [List.append_assoc, hlen]
    exact f.decodeTimes_flatMap as h.2 rest

/-! ## Readers that refuse

Where the bytes start as another format wrote them, a reader gets as far as both formats agree.
-/

lemma pair_decode_eq_none_left {f : Format α} {bs : List UInt8} (h : f.decode bs = none)
    (g : Format β) : (f.pair g).decode bs = none := by
  show (f.decode bs).bind _ = none
  rw [h]
  rfl

lemma pair_decode_eq_none_right {f : Format α} {a : α} (hfits : f.Fits a) {g : Format β}
    {rest : List UInt8} (h : g.decode rest = none) :
    (f.pair g).decode (f.encode a ++ rest) = none := by
  show (f.decode (f.encode a ++ rest)).bind _ = none
  rw [f.decode_encode a hfits]
  show (g.decode rest).bind _ = none
  rw [h]
  rfl

lemma iso_decode_eq_none {f : Format α} {bs : List UInt8} (h : f.decode bs = none) (e : α ≃ β) :
    (f.iso e).decode bs = none := by
  show (f.decode bs).map _ = none
  rw [h]
  rfl

lemma bytes_decode_eq_none {n : ℕ} {bs : List UInt8} (h : bs.length < n) :
    (bytes n).decode bs = none := if_neg (by omega)

lemma uint_decode_eq_none {n : ℕ} {bs : List UInt8} (h : bs.length < n) :
    (uint n).decode bs = none := if_neg (by omega)

lemma parse_eq_none {f : Format α} {bs : List UInt8} (h : f.decode bs = none) : f.parse bs = none := by
  rw [parse, h]

end Format
