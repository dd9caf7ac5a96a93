import Genrt.User.Stdio

/-!
# What a format says

A format is a list of items: bytes that stand for themselves and conversions with their
arguments. Each item spells a part of the format string, takes its arguments and has an
output. Nothing here depends on how the formatter computes it.
-/

namespace Genrt.Stdio

open CString

/-- The flag and the digits of a width. A zero in front of the width is the flag. -/
structure Field where
  zero : Bool
  digits : List (Fin 10)
  flag : zero = false → digits.head? ≠ some 0

/-- The value of further decimal digits. -/
def decimalFrom (value : Nat) : List (Fin 10) → Nat
  | [] => value
  | digit :: digits => decimalFrom (value * 10 + digit) digits

def Field.width (field : Field) : Nat := decimalFrom 0 field.digits

inductive Item where
  | literal (byte : UInt8) (ordinary : byte ≠ 0 ∧ byte ≠ 0x25)
  | percent
  | char (field : Field) (value : BitVec 64)
  | string (field : Field) (text : Option Text)
  | signed (field : Field) (length : LengthModifier) (letterI : Bool) (value : BitVec 64)
  | unsigned (field : Field) (length : LengthModifier) (value : BitVec 64)
  | hex (field : Field) (length : LengthModifier) (uppercase : Bool) (value : BitVec 64)
  | pointer (field : Field) (value : BitVec 64)

/-! ### The format string -/

def digitByte (digit : Fin 10) : UInt8 := UInt8.ofNat (0x30 + digit)

def LengthModifier.spelling : LengthModifier → List UInt8
  | .default => []
  | .long => [0x6c]
  | .longLong => [0x6c, 0x6c]
  | .size => [0x7a]

/-- A conversion behind its `%`. -/
def spell (field : Field) (length : LengthModifier) (letter : UInt8) : List UInt8 :=
  (if field.zero then [0x30] else []) ++ field.digits.map digitByte ++ length.spelling ++ [letter]

def Item.spelling : Item → List UInt8
  | .literal byte _ => [byte]
  | .percent => [0x25, 0x25]
  | .char field _ => 0x25 :: spell field .default 0x63
  | .string field _ => 0x25 :: spell field .default 0x73
  | .signed field length letterI _ => 0x25 :: spell field length (if letterI then 0x69 else 0x64)
  | .unsigned field length _ => 0x25 :: spell field length 0x75
  | .hex field length uppercase _ => 0x25 :: spell field length (if uppercase then 0x58 else 0x78)
  | .pointer field _ => 0x25 :: spell field .default 0x70

theorem Item.length_spelling_pos (item : Item) : 0 < item.spelling.length := by
  cases item <;> exact Nat.zero_lt_succ _

def Item.args : Item → List Arg
  | .literal _ _ | .percent => []
  | .string _ text => [.string text]
  | .char _ value | .signed _ _ _ value | .unsigned _ _ value | .hex _ _ _ value
  | .pointer _ value => [.word value]

/-! ### The output -/

/-- The digits of a number, the lowest first; zero has one digit. -/
def lowDigits (base value : Nat) : List Nat := if value = 0 then [0] else Nat.digits base value

/-- The numeral of a number. -/
def numeral (table : List UInt8) (base value : Nat) : List UInt8 :=
  ((lowDigits base value).map fun digit => table.getD digit 0).reverse

/-- Fill up to a width on the left: with spaces, or with zeros behind the sign. -/
def padTo (zero : Bool) (width : Nat) (sign digits : List UInt8) : List UInt8 :=
  let padding := width - (sign.length + digits.length)
  if zero then sign ++ List.replicate padding 0x30 ++ digits
  else List.replicate padding 0x20 ++ sign ++ digits

def Field.pad (field : Field) (sign digits : List UInt8) : List UInt8 :=
  padTo field.zero field.width sign digits

/-- Strings and characters are filled with spaces only. -/
def Field.padText (field : Field) (text : List UInt8) : List UInt8 :=
  List.replicate (field.width - text.length) 0x20 ++ text

/-- The value of an `int`, or of a wider type. -/
def signedValue (length : LengthModifier) (bits : BitVec 64) : Int :=
  if length = .default then (bits.setWidth 32).toInt else bits.toInt

def unsignedValue (length : LengthModifier) (bits : BitVec 64) : Nat :=
  if length = .default then (bits.setWidth 32).toNat else bits.toNat

/-- The sign of a number; only negative ones have one. -/
def signOf (value : Int) : List UInt8 := if value < 0 then [0x2d] else []

def Item.output : Item → List UInt8
  | .literal byte _ => [byte]
  | .percent => [0x25]
  | .char field value => field.padText [UInt8.ofNat ((value.setWidth 32).toInt % 2 ^ 8).toNat]
  | .string field text => field.padText (text.getD nullText).val
  | .signed field length _ value =>
    field.pad (signOf (signedValue length value))
      (numeral lower 10 (signedValue length value).natAbs)
  | .unsigned field length value => field.pad [] (numeral lower 10 (unsignedValue length value))
  | .hex field length uppercase value =>
    field.pad [] (numeral (if uppercase then upper else lower) 16 (unsignedValue length value))
  | .pointer field value => field.pad hexStart.val (numeral lower 16 value.toNat)

/-- The bytes of the format string of a list of items. -/
def spelling (items : List Item) : List UInt8 := items.flatMap Item.spelling

def args (items : List Item) : List Arg := items.flatMap Item.args

def output (items : List Item) : List UInt8 := items.flatMap Item.output

/-! ### Numerals -/

theorem ofDigits_lowDigits (base value : Nat) :
    Nat.ofDigits base (lowDigits base value) = value := by
  unfold lowDigits
  split
  · next zero => simp [zero]
  · exact Nat.ofDigits_digits base value

theorem lowDigits_lt {base value digit : Nat} (positive : 1 < base)
    (member : digit ∈ lowDigits base value) : digit < base := by
  unfold lowDigits at member
  split at member
  · rw [List.mem_singleton.mp member]
    omega
  · exact Nat.digits_lt_base positive member

/-- A padded field is as wide as its width or its content. -/
theorem length_pad (field : Field) (sign digits : List UInt8) :
    (field.pad sign digits).length = max field.width (sign.length + digits.length) := by
  unfold Field.pad padTo
  dsimp only
  split <;> simp only [List.length_append, List.length_replicate] <;> omega

theorem length_padText (field : Field) (text : List UInt8) :
    (field.padText text).length = max field.width text.length := by
  unfold Field.padText
  rw [List.length_append, List.length_replicate]
  omega

/-! ### Reading a numeral back -/

/-- The value of a digit of either case. -/
def digitValue (byte : UInt8) : Option Nat :=
  if 0x30 ≤ byte ∧ byte ≤ 0x39 then some (byte.toNat - 0x30)
  else if 0x61 ≤ byte ∧ byte ≤ 0x66 then some (byte.toNat - 0x61 + 10)
  else if 0x41 ≤ byte ∧ byte ≤ 0x46 then some (byte.toNat - 0x41 + 10)
  else none

/-- The number that a row of digits denotes, the highest digit first. -/
def readNumeral (base : Nat) (digits : List UInt8) : Option Nat :=
  digits.foldlM (fun value byte => (digitValue byte).map (value * base + ·)) 0

theorem readNumeral_reverse {table : List UInt8} {base : Nat}
    (faithful : ∀ digit < base, digitValue (table.getD digit 0) = some digit) {digits : List Nat}
    (below : ∀ digit ∈ digits, digit < base) :
    readNumeral base (digits.map fun digit => table.getD digit 0).reverse =
      some (Nat.ofDigits base digits) := by
  induction digits with
  | nil => rfl
  | cons digit digits ih =>
    have rest := ih fun digit member => below digit (.tail _ member)
    unfold readNumeral at rest ⊢
    rw [List.map_cons, List.reverse_cons, List.foldlM_append, rest, Option.bind_eq_bind,
      Option.bind_some, List.foldlM_cons, faithful digit (below digit (.head _)),
      Option.map_some, Option.bind_eq_bind, Option.bind_some, List.foldlM_nil, Nat.ofDigits_cons]
    exact congrArg some (by rw [Nat.mul_comm, Nat.add_comm])

theorem readNumeral_numeral {table : List UInt8} {base : Nat} (positive : 1 < base)
    (faithful : ∀ digit < base, digitValue (table.getD digit 0) = some digit) (value : Nat) :
    readNumeral base (numeral table base value) = some value := by
  rw [numeral, readNumeral_reverse faithful fun digit => lowDigits_lt positive, ofDigits_lowDigits]

theorem digitValue_lower : ∀ digit < 16, digitValue (lower.getD digit 0) = some digit := by
  decide

theorem digitValue_upper : ∀ digit < 16, digitValue (upper.getD digit 0) = some digit := by
  decide

theorem readNumeral_decimal (value : Nat) : readNumeral 10 (numeral lower 10 value) = some value :=
  readNumeral_numeral (by decide) (fun digit small => digitValue_lower digit (by omega)) value

theorem readNumeral_hex (uppercase : Bool) (value : Nat) :
    readNumeral 16 (numeral (if uppercase then upper else lower) 16 value) = some value := by
  cases uppercase with
  | true => exact readNumeral_numeral (by decide) digitValue_upper value
  | false => exact readNumeral_numeral (by decide) digitValue_lower value

/-- An integer as a conversion prints it: behind a sign or `0x`, in a base. -/
structure Integer where
  field : Field
  base : Nat
  lead : List UInt8
  value : Int

/-- The integer of an integer conversion. -/
def Item.integer : Item → Option Integer
  | .signed field length _ value =>
    some ⟨field, 10, signOf (signedValue length value), signedValue length value⟩
  | .unsigned field length value => some ⟨field, 10, [], unsignedValue length value⟩
  | .hex field length _ value => some ⟨field, 16, [], unsignedValue length value⟩
  | .pointer field value => some ⟨field, 16, hexStart.val, value.toNat⟩
  | .literal _ _ | .percent | .char _ _ | .string _ _ => none

/-- The output is the integer: a minus sign for a negative one only, digits that read back as
its magnitude, and padding on the left to the width. -/
structure Integer.PrintedAs (number : Integer) (printed : List UInt8) : Prop where
  sign : 0x2d ∈ number.lead ↔ number.value < 0
  digits : ∃ digits, readNumeral number.base digits = some number.value.natAbs ∧
    printed = number.field.pad number.lead digits ∧
    printed.length = max number.field.width (number.lead.length + digits.length)

theorem integer_printed {item : Item} {number : Integer} (integer : item.integer = some number) :
    number.PrintedAs item.output := by
  cases item with
  | literal | percent | char | string => cases integer
  | signed field length letterI value =>
    cases integer
    refine ⟨?_, _, readNumeral_decimal _, rfl, length_pad ..⟩
    dsimp only
    unfold signOf
    split <;> simp_all
  | unsigned field length value =>
    cases integer
    exact ⟨by simp, _, readNumeral_decimal _, rfl, length_pad ..⟩
  | hex field length uppercase value =>
    cases integer
    exact ⟨by simp, _, readNumeral_hex uppercase _, rfl, length_pad ..⟩
  | pointer field value =>
    cases integer
    have plain : (0x2d : UInt8) ∉ hexStart.val := by decide
    exact ⟨by simp [plain], _, readNumeral_hex false _, rfl, length_pad ..⟩

/-! ### The format as a string -/

theorem digitByte_ne_zero (digit : Fin 10) : digitByte digit ≠ 0 := by
  revert digit
  decide

theorem zero_not_mem_spell (field : Field) (length : LengthModifier) {letter : UInt8}
    (visible : letter ≠ 0) : 0 ∉ 0x25 :: spell field length letter := by
  have flag : (0 : UInt8) ∉ (if field.zero then [0x30] else [] : List UInt8) := by
    split <;> decide
  have modifier : (0 : UInt8) ∉ length.spelling := by
    cases length <;> decide
  simp only [spell, List.mem_cons, List.mem_append, List.mem_map, List.not_mem_nil, or_false, flag,
    modifier, false_or, visible.symm, not_or]
  refine ⟨by decide, ?_⟩
  rintro ⟨digit, -, zero⟩
  exact digitByte_ne_zero digit zero

theorem zero_not_mem_spelling (items : List Item) : 0 ∉ spelling items := by
  intro member
  obtain ⟨item, -, inside⟩ := List.mem_flatMap.mp member
  cases item with
  | literal byte ordinary => exact ordinary.1 (List.mem_singleton.mp inside).symm
  | percent => exact absurd inside (by decide)
  | char field | string field | unsigned field length | pointer field =>
    exact zero_not_mem_spell field _ (by decide) inside
  | signed field length letterI =>
    exact zero_not_mem_spell field _ (by cases letterI <;> decide) inside
  | hex field length uppercase =>
    exact zero_not_mem_spell field _ (by cases uppercase <;> decide) inside

/-- The format string of a list of items. -/
def formatOf (items : List Item) : Text := ⟨spelling items, zero_not_mem_spelling items⟩

end Genrt.Stdio
