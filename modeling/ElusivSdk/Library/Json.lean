import ElusivSdk.Library.Program

/-!
# JSON values

A value that was parsed from a JSON text, and the ways in which a script looks at it: it reads properties, asks
for types and turns values into text.  What numbers are is left open.

* `Json.get` — reading a property; of `null` and of what is missing nothing can be read.
* `Json.text`, `Json.stringify` — a value as text, and as JSON again.
* **`Json.throws_get`**, **`Json.throws_text`** — what is thrown says that something *cannot* be done.
-/

/-- A value; of several fields of one name the last one counts. -/
inductive Json (N : Type)
  | null
  | bool (b : Bool)
  | number (n : N)
  | string (s : String)
  | array (items : List (Json N))
  | object (fields : List (String × Json N))

/-- How numbers are written, as text and in JSON. -/
structure NumberFormat (N : Type) where
  text : N → String
  json : N → String

namespace Json

open Program

variable {N : Type}

/-! ## Looking at values -/

def field (fields : List (String × Json N)) (name : String) : Option (Json N) :=
  (fields.reverse.find? fun f => f.1 == name).map Prod.snd

def cannotRead (value name : String) : String :=
  "Cannot " ++ ("read properties of " ++ value ++ " (reading '" ++ name ++ "')")

/-- `value[name]`, for a property that only objects have. -/
def get (value : Option (Json N)) (name : String) : Except String (Option (Json N)) :=
  match value with
  | none => .error (cannotRead "undefined" name)
  | some null => .error (cannotRead "null" name)
  | some (object fields) => .ok (field fields name)
  | some _ => .ok none

def isString : Option (Json N) → Bool
  | some (string _) => true
  | _ => false

def isNumber : Option (Json N) → Bool
  | some (number _) => true
  | _ => false

def isNull : Json N → Bool
  | null => true
  | _ => false

def number? : Json N → Option N
  | number n => some n
  | _ => none

/-! ## Text -/

/-- A character in a JSON string. -/
def quoteChar (c : Char) : String :=
  if c.toNat = 34 then "\\\""
  else if c.toNat = 92 then "\\\\"
  else if c.toNat = 8 then "\\b"
  else if c.toNat = 9 then "\\t"
  else if c.toNat = 10 then "\\n"
  else if c.toNat = 12 then "\\f"
  else if c.toNat = 13 then "\\r"
  else if c.toNat < 32 then
    "\\u00" ++ String.ofList [Nat.digitChar (c.toNat / 16), Nat.digitChar (c.toNat % 16)]
  else String.singleton c

def quote (s : String) : String := "\"" ++ String.join (s.toList.map quoteChar) ++ "\""

section Text

variable (format : NumberFormat N)

mutual

/-- The value as JSON. -/
def stringify : Json N → String
  | null => "null"
  | bool b => toString b
  | number n => format.json n
  | string s => quote s
  | array items => "[" ++ ",".intercalate (stringifyItems items) ++ "]"
  | object fields => "\x7b" ++ ",".intercalate (stringifyFields fields) ++ "\x7d"

def stringifyItems : List (Json N) → List String
  | [] => []
  | item :: items => stringify item :: stringifyItems items

def stringifyFields : List (String × Json N) → List String
  | [] => []
  | (name, value) :: fields => (quote name ++ ":" ++ stringify value) :: stringifyFields fields

end

def CANNOT_CONVERT : String := "Cannot " ++ "convert object to primitive value"

mutual

/-- The value as a string.  An object is asked for its `toString`, which a field of that name hides. -/
def text : Json N → Except String String
  | null => .ok "null"
  | bool b => .ok (toString b)
  | number n => .ok (format.text n)
  | string s => .ok s
  | array items => do
      let texts ← itemTexts items
      pure (",".intercalate texts)
  | object fields =>
      if (field fields "toString").isSome then .error CANNOT_CONVERT else .ok "[object Object]"

/-- In an array `null` is empty. -/
def itemTexts : List (Json N) → Except String (List String)
  | [] => .ok []
  | item :: items => do
      let written := if item.isNull then .ok "" else text item
      let itemText ← written
      let texts ← itemTexts items
      pure (itemText :: texts)

end

end Text

/-! ## What is thrown -/

/-- A message that says what cannot be done. -/
def Cannot (message : String) : Prop := ∃ rest, message = "Cannot " ++ rest

/-- What is missing, and `null`, cannot be read. -/
lemma throws_get (value : Option (Json N)) (name : String) : Throws Cannot (get value name) := by
  cases value with
  | none => exact Throws.error ⟨_, rfl⟩
  | some value =>
      cases value with
      | null => exact Throws.error ⟨_, rfl⟩
      | _ => exact Throws.ok _

mutual

/-- An object that hides its `toString` cannot be converted. -/
lemma throws_text (format : NumberFormat N) : ∀ value : Json N, Throws Cannot (text format value)
  | null => Throws.ok _
  | bool _ => Throws.ok _
  | number _ => Throws.ok _
  | string _ => Throws.ok _
  | array items => (throws_itemTexts format items).bind fun _ _ => Throws.ok _
  | object fields => by
      rw [text]
      split_ifs
      · exact Throws.error ⟨_, rfl⟩
      · exact Throws.ok _

lemma throws_itemTexts (format : NumberFormat N) :
    ∀ items : List (Json N), Throws Cannot (itemTexts format items)
  | [] => Throws.ok _
  | item :: items => by
      have hitem : Throws Cannot (if item.isNull then .ok "" else text format item) := by
        split_ifs
        · exact Throws.ok _
        · exact throws_text format item
      rw [itemTexts]
      exact hitem.bind fun _ _ => (throws_itemTexts format items).bind fun _ _ => Throws.ok _

end

end Json
