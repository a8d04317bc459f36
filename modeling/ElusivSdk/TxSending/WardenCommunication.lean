import ElusivSdk.Encoding.Text

/-!
# Error codes of wardens

A warden passes the error of a node on as text, and the code of the error is cut out of it: from a place in
the text on, after a marker, up to a delimiter.

* `WardenCommunicator.getErrorCode` — the translated reader.
* `FollowedBy` — what follows the first marker after the first place.
* **`WardenCommunicator.getErrorCode_iff`** — the code of a failed transaction is read; that of a failed
  simulation is read exactly when a space comes after it; and without a code the answer is `-1` exactly
  when there is no marker, or `-1` stands after it.
-/

namespace ElusivSdk

open FirstMatch BigIntText Text

structure WardenError where
  message : String

/-- How a code is written: in which base, between which marker and which delimiter. -/
structure CodeFormat where
  place : List Char
  marker : List Char
  delimiter : Char
  radix : ℕ
  length_marker : 2 ≤ marker.length
  notMem_place : ∀ c ∈ marker.head?, c ∉ place
  one_lt_radix : 1 < radix
  radix_le : radix ≤ 16
  radix_le_delimiter : radix ≤ digitValue delimiter

lemma simulation_notMem_place : ∀ c ∈ "0x".toList.head?, c ∉ "custom program error".toList := by
  intro c hc
  obtain rfl : '0' = c := Option.some.inj hc
  decide

lemma transaction_notMem_place : ∀ c ∈ "Custom(".toList.head?, c ∉ "InstructionError".toList := by
  intro c hc
  obtain rfl : 'C' = c := Option.some.inj hc
  decide

def simulationFormat : CodeFormat where
  place := "custom program error".toList
  marker := "0x".toList
  delimiter := ' '
  radix := 16
  length_marker := by decide
  notMem_place := simulation_notMem_place
  one_lt_radix := by decide
  radix_le := by decide
  radix_le_delimiter := by decide

def transactionFormat : CodeFormat where
  place := "InstructionError".toList
  marker := "Custom(".toList
  delimiter := ')'
  radix := 10
  length_marker := by decide
  notMem_place := transaction_notMem_place
  one_lt_radix := by decide
  radix_le := by decide
  radix_le_delimiter := by decide

namespace CodeFormat

/-- The number after the marker. -/
def readCode (format : CodeFormat) (message : List Char) : Number :=
  let errSlice := slice message (indexOf message format.place)
  let strIndex := indexOf errSlice format.marker
  let stringSlice := slice errSlice (strIndex + format.marker.length)
  if strIndex = -1 then .int (-1)
  else parseInt (substring stringSlice 0 (indexOf stringSlice [format.delimiter])) format.radix

end CodeFormat

namespace WardenCommunicator

def isSimulationError (err : WardenError) : Bool :=
  includes err.message.toList "Transaction simulation failed".toList &&
    !includes err.message.toList "TransactionError".toList

def isTransactionError (err : WardenError) : Bool :=
  !includes err.message.toList "Transaction simulation failed".toList &&
    includes err.message.toList "TransactionError".toList

def getErrorCode (err : WardenError) : Number :=
  if isSimulationError err then simulationFormat.readCode err.message.toList
  else transactionFormat.readCode err.message.toList

end WardenCommunicator

/-! ## Where a code stands -/

/-- The first marker after the first place is followed by the text; what stands between place and marker
(`: `, `(1, `) does not matter. -/
def FollowedBy (format : CodeFormat) (message text : List Char) : Prop :=
  ∃ before rest middle, First format.place message before rest ∧ First format.marker rest middle text

lemma FollowedBy.unique {format : CodeFormat} {message text text' : List Char}
    (h : FollowedBy format message text) (h' : FollowedBy format message text') : text = text' := by
  obtain ⟨before, rest, middle, hplace, hmarker⟩ := h
  obtain ⟨before', rest', middle', hplace', hmarker'⟩ := h'
  obtain ⟨-, rfl⟩ := hplace.unique hplace'
  exact (hmarker.unique hmarker').2

/-- Found in this order. -/
lemma followedBy_of_position {format : CodeFormat} {message : List Char} {i j : ℕ}
    (hplace : position format.place message = some i)
    (hmarker : position format.marker (message.drop (i + format.place.length)) = some j) :
    FollowedBy format message
      ((message.drop (i + format.place.length)).drop (j + format.marker.length)) :=
  ⟨_, _, _, first_of_position hplace, first_of_position hmarker⟩

/-- After the marker there is no digit. -/
def NoCode (format : CodeFormat) (message : List Char) : Prop :=
  ∀ text, FollowedBy format message text → NoDigitFirst format.radix text

namespace CodeFormat

variable {format : CodeFormat} {message text : List Char}

lemma exists_marker_eq_cons (format : CodeFormat) :
    ∃ c tail, format.marker = c :: tail ∧ c ∉ format.place := by
  cases hmarker : format.marker with
  | nil =>
      have hlen := format.length_marker
      rw [hmarker] at hlen
      exact absurd hlen (by decide)
  | cons c tail => exact ⟨c, tail, rfl, format.notMem_place c (by rw [hmarker]; rfl)⟩

/-- A place is no part of a marker. -/
lemma first_marker_iff {rest before : List Char} : First format.marker (format.place ++ rest) before text ↔
    ∃ middle, before = format.place ++ middle ∧ First format.marker rest middle text := by
  obtain ⟨c, tail, hmarker, hc⟩ := exists_marker_eq_cons format
  rw [hmarker]
  exact first_append_iff hc

lemma slice_of_first {pattern before after : List Char} (h : First pattern message before after) :
    slice message (indexOf message pattern) = pattern ++ after := by
  rw [indexOf_of_first h, slice_natCast, h.eq, List.append_assoc, List.drop_left]

/-- What is read is the part before the delimiter. -/
lemma readCode_of_followedBy (h : FollowedBy format message text) : format.readCode message
    = parseInt (if format.delimiter ∈ text then text.takeWhile (· ≠ format.delimiter) else [])
      format.radix := by
  obtain ⟨before, rest, middle, hplace, hmarker⟩ := h
  have hfirst := first_marker_iff.mpr ⟨middle, rfl, hmarker⟩
  have hslice : slice (format.place ++ rest) ((format.place ++ middle).length + format.marker.length) = text := by
    rw [← Int.natCast_add, slice_natCast, ← List.length_append, hfirst.eq, List.drop_left]
  rw [readCode, slice_of_first hplace, indexOf_of_first hfirst]
  rw [hslice, if_neg (by omega), substring_zero_indexOf]

/-- A place that is not found leaves a text too short for a marker. -/
lemma readCode_of_not_followedBy (h : ∀ text, ¬FollowedBy format message text) :
    format.readCode message = .int (-1) := by
  have hnone : ¬∃ before after,
      First format.marker (slice message (indexOf message format.place)) before after := by
    rintro ⟨before, after, hmarker⟩
    by_cases hplace : ∃ before rest, First format.place message before rest
    · obtain ⟨before', rest, hplace⟩ := hplace
      rw [slice_of_first hplace] at hmarker
      obtain ⟨middle, -, hmarker⟩ := first_marker_iff.mp hmarker
      exact h after ⟨before', rest, middle, hplace, hmarker⟩
    · rw [indexOf_of_not_first hplace] at hmarker
      have hshort := @length_slice_neg_one message
      have hlong := format.length_marker
      rw [hmarker.eq, List.length_append, List.length_append] at hshort
      omega
  rw [readCode]
  rw [indexOf_of_not_first hnone, if_pos rfl]

/-- Digits after the marker are read up to the delimiter. -/
lemma readCode_toDigits {c : ℕ} {suffix : List Char}
    (h : FollowedBy format message (Nat.toDigits format.radix c ++ suffix))
    (hsuffix : NoDigitFirst format.radix suffix) (hdelimiter : format.delimiter ∈ suffix) :
    format.readCode message = signed false (if format.radix = 16 ∧ c = 0 then
        (afterX (suffix.takeWhile (· ≠ format.delimiter))).elim (some 0) (leadingDigits 16)
      else some c) := by
  have hdigits : ∀ d ∈ Nat.toDigits format.radix c, decide (d ≠ format.delimiter) = true := by
    intro d hd
    have hlt := (ofDigits_toDigits_of_le format.one_lt_radix format.radix_le c).1 d hd
    refine decide_eq_true ?_
    rintro rfl
    exact absurd hlt (not_lt.mpr format.radix_le_delimiter)
  have hcut : NoDigitFirst format.radix (suffix.takeWhile (· ≠ format.delimiter)) := by
    cases suffix with
    | nil => exact hsuffix
    | cons d suffix =>
        rw [List.takeWhile_cons]
        split_ifs
        · exact hsuffix
        · intro _ hmem
          contradiction
  rw [readCode_of_followedBy h, if_pos (List.mem_append_right _ hdelimiter),
    List.takeWhile_append_of_pos hdigits, parseInt_toDigits_append_eq format.one_lt_radix format.radix_le,
    readDigits_toDigits_append format.one_lt_radix format.radix_le c hcut]

/-- Without a delimiter nothing is read. -/
lemma readCode_of_notMem (h : FollowedBy format message text) (hdelimiter : format.delimiter ∉ text) :
    format.readCode message = .nan := by
  rw [readCode_of_followedBy h, if_neg hdelimiter, parseInt_nil]

/-- The answer is `-1` without a marker, or when that is the number after it. -/
lemma readCode_eq_neg_one_iff : format.readCode message = .int (-1) ↔
    (∀ text, ¬FollowedBy format message text) ∨ ∃ text, FollowedBy format message text ∧
      format.delimiter ∈ text ∧ ∃ rest,
        (text.takeWhile (· ≠ format.delimiter)).dropWhile isWhiteSpace = '-' :: rest ∧
        readDigits format.radix rest = some 1 := by
  by_cases hfollowed : ∃ text, FollowedBy format message text
  · obtain ⟨text, h⟩ := hfollowed
    by_cases hdelimiter : format.delimiter ∈ text
    · rw [readCode_of_followedBy h, if_pos hdelimiter, parseInt_eq_neg_one_iff]
      constructor
      · intro hread
        exact .inr ⟨text, h, hdelimiter, hread⟩
      · rintro (hnone | ⟨text', h', -, hread⟩)
        · exact absurd h (hnone text)
        · obtain rfl := h.unique h'
          exact hread
    · rw [readCode_of_notMem h hdelimiter]
      refine iff_of_false Number.noConfusion ?_
      rintro (hnone | ⟨text', h', hmem, -⟩)
      · exact hnone text h
      · obtain rfl := h.unique h'
        exact hdelimiter hmem
  · have hnone := not_exists.mp hfollowed
    exact iff_of_true (readCode_of_not_followedBy hnone) (.inl hnone)

end CodeFormat

namespace WardenCommunicator

variable {err : WardenError}

def codeFormat (err : WardenError) : CodeFormat :=
  if isSimulationError err then simulationFormat else transactionFormat

lemma getErrorCode_eq : getErrorCode err = (codeFormat err).readCode err.message.toList := by
  rw [getErrorCode, codeFormat]
  split_ifs <;> rfl

lemma codeFormat_of_isTransactionError (h : isTransactionError err = true) :
    codeFormat err = transactionFormat := by
  rw [isTransactionError, Bool.and_eq_true, Bool.not_eq_true'] at h
  rw [codeFormat, isSimulationError, h.1]
  rfl

/-- Where the text is cut makes no difference to an `x` and the digits after it. -/
lemma elim_afterX_takeWhile (suffix : List Char) :
    (afterX (suffix.takeWhile (· ≠ ' '))).elim (some 0) (leadingDigits 16)
      = (afterX suffix).elim (some 0) (leadingDigits 16) := by
  have hcut : ∀ rest : List Char, leadingDigits 16 (rest.takeWhile (· ≠ ' ')) = leadingDigits 16 rest := by
    intro rest
    rw [leadingDigits, List.takeWhile_takeWhile, leadingDigits]
    congr 2
    funext c
    have hspace : 16 ≤ digitValue ' ' := by decide
    by_cases hc : c = ' '
    · subst hc
      decide
    · simp [hc]
  cases suffix with
  | nil => rfl
  | cons c suffix =>
      by_cases hx : c = 'x' ∨ c = 'X'
      · rcases hx with rfl | rfl
        all_goals
          rw [List.takeWhile_cons_of_pos (by decide)]
          exact hcut suffix
      · have hnone : ∀ rest, afterX (c :: rest) = none := by
          intro rest
          rw [afterX]
          · rintro _ h
            injection h with h _
            exact hx (.inl h)
          · rintro _ h
            injection h with h _
            exact hx (.inr h)
        rw [List.takeWhile_cons]
        split_ifs
        · rw [hnone, hnone]
        · rw [hnone]
          rfl

/-- The code of a failed simulation comes with a space somewhere after it, and a 0 without a prefix. -/
lemma readCode_simulation_iff {message : List Char} {c : ℕ} {suffix : List Char}
    (h : FollowedBy simulationFormat message (Nat.toDigits 16 c ++ suffix))
    (hsuffix : NoDigitFirst 16 suffix) : simulationFormat.readCode message = .int c ↔
      ' ' ∈ suffix ∧ Number.ofNat false c = .int c ∧
        (c = 0 → ∀ rest ∈ afterX suffix, leadingDigits 16 rest = some 0) := by
  by_cases hspace : ' ' ∈ suffix
  · have hread : simulationFormat.readCode message
        = signed false (if simulationFormat.radix = 16 ∧ c = 0 then
            (afterX suffix).elim (some 0) (leadingDigits 16) else some c) := by
      rw [← elim_afterX_takeWhile]
      exact CodeFormat.readCode_toDigits h hsuffix hspace
    rw [hread, and_iff_right hspace]
    rcases Nat.eq_zero_or_pos c with rfl | hc
    · rw [if_pos ⟨rfl, rfl⟩, and_iff_right ((Number.ofNat_false_eq_iff (by decide)).mpr rfl),
        signed_false_eq_iff (by decide)]
      cases hx : afterX suffix with
      | none => simp
      | some rest => simp
    · rw [if_neg fun h => hc.ne' h.2]
      have hzero : c = 0 → ∀ rest ∈ afterX suffix, leadingDigits 16 rest = some 0 :=
        fun h => absurd h hc.ne'
      exact (and_iff_left hzero).symm
  · have hmem : ' ' ∉ Nat.toDigits 16 c ++ suffix := by
      intro hmem
      rcases List.mem_append.mp hmem with hdigit | hmem
      · have hlt := (@ofDigits_toDigits_of_le 16 (by decide) le_rfl c).1 _ hdigit
        exact absurd hlt (by decide)
      · exact hspace hmem
    rw [CodeFormat.readCode_of_notMem h hmem]
    exact iff_of_false Number.noConfusion fun hread => hspace hread.1

/-- The code of a failed transaction is closed by its delimiter. -/
lemma readCode_transaction {message : List Char} {c : ℕ} {suffix : List Char}
    (h : FollowedBy transactionFormat message (Nat.toDigits 10 c ++ ')' :: suffix)) :
    transactionFormat.readCode message = Number.ofNat false c := by
  have hclosed : NoDigitFirst 10 (')' :: suffix) := by
    intro d hd
    obtain rfl := Option.some.inj hd
    decide
  rw [CodeFormat.readCode_toDigits h hclosed List.mem_cons_self, if_neg fun hradix => by
    exact absurd hradix.1 (by decide)]
  rfl

/-- **When the code is read**: of a failed simulation, if a space comes after it (and what looks like a
prefix after a 0 says 0 as well); of a failed transaction, always; and if there is none, `-1` is the answer
if there is no marker, or if `-1` stands there. -/
theorem getErrorCode_iff (err : WardenError) :
    (isSimulationError err = true → ∀ (c : ℕ) (suffix : List Char),
      FollowedBy simulationFormat err.message.toList (Nat.toDigits 16 c ++ suffix) →
      NoDigitFirst 16 suffix →
      (getErrorCode err = .int c ↔ ' ' ∈ suffix ∧ Number.ofNat false c = .int c ∧
        (c = 0 → ∀ rest ∈ afterX suffix, leadingDigits 16 rest = some 0))) ∧
    (isTransactionError err = true → ∀ (c : ℕ) (suffix : List Char),
      FollowedBy transactionFormat err.message.toList (Nat.toDigits 10 c ++ ')' :: suffix) →
      (getErrorCode err = .int c ↔ Number.ofNat false c = .int c)) ∧
    (NoCode (codeFormat err) err.message.toList →
      (getErrorCode err = .int (-1) ↔
        (∀ text, ¬FollowedBy (codeFormat err) err.message.toList text) ∨
        ∃ text, FollowedBy (codeFormat err) err.message.toList text ∧ (codeFormat err).delimiter ∈ text ∧
          ∃ rest, (text.takeWhile (· ≠ (codeFormat err).delimiter)).dropWhile isWhiteSpace = '-' :: rest ∧
            readDigits (codeFormat err).radix rest = some 1)) := by
  refine ⟨?_, ?_, ?_⟩
  · intro hsimulation c suffix h hsuffix
    rw [getErrorCode, if_pos hsimulation]
    exact readCode_simulation_iff h hsuffix
  · intro htransaction c suffix h
    rw [getErrorCode_eq, codeFormat_of_isTransactionError htransaction, readCode_transaction h]
  · intro _
    rw [getErrorCode_eq]
    exact CodeFormat.readCode_eq_neg_one_iff

def simulationError (suffix : String) : WardenError :=
  ⟨"Transaction simulation failed: Error processing Instruction 2: custom program error: 0x69" ++ suffix⟩

def transactionError : WardenError := ⟨"TransactionError(InstructionError(1, Custom(105)))"⟩

def otherError : WardenError := ⟨"TransactionError(AccountNotFound)"⟩

theorem getErrorCode_iff_pyth : getErrorCode (simulationError ", see the log") = .int 105 ∧
    getErrorCode transactionError = .int 105 ∧ getErrorCode otherError = .int (-1) := by
  have hnumber : Number.ofNat false 105 = .int 105 := (Number.ofNat_false_eq_iff (by decide)).mpr rfl
  have hother : ∀ text, ¬FollowedBy (codeFormat otherError) otherError.message.toList text := by
    rintro text ⟨before, rest, -, hplace, -⟩
    have hposition := hplace.position_eq
    have hnone : position (codeFormat otherError).place otherError.message.toList = none := by decide
    rw [hnone] at hposition
    contradiction
  refine ⟨((getErrorCode_iff _).1 (by decide) 105 ", see the log".toList ?_ (by decide)).mpr
    ⟨by decide, hnumber, by decide⟩, ((getErrorCode_iff _).2.1 (by decide) 105 "))".toList ?_).mpr hnumber,
    ((getErrorCode_iff _).2.2 fun text h => absurd h (hother text)).mpr (.inl hother)⟩
  · exact followedBy_of_position (i := 63) (j := 2) (by decide) (by decide)
  · exact followedBy_of_position (i := 17) (j := 4) (by decide) (by decide)

/-- The code stands at the end of the message, and is not read. -/
theorem getErrorCode_lost_at_end : isSimulationError (simulationError "") = true ∧
    FollowedBy simulationFormat (simulationError "").message.toList (Nat.toDigits 16 105 ++ []) ∧
    NoDigitFirst 16 [] ∧ getErrorCode (simulationError "") = .nan ∧ Number.nan ≠ .int 105 := by
  refine ⟨by decide, ?_, by decide, by decide, by decide⟩
  exact followedBy_of_position (i := 63) (j := 2) (by decide) (by decide)

end WardenCommunicator

end ElusivSdk
