import Genrt.Foundation.CString

/-!
# Formatted output

`vsnprintf` and `vdprintf` share one formatter that sends characters, repeated characters
and strings to a sink. A memory sink stores what fits and counts the rest; a descriptor
sink collects chunks and writes them out. The results of the write calls come from
outside: `writes` gives the result of each call for the number of bytes it asks for.

A computation that leaves an array, or takes an argument of the wrong type, has no result.
-/

namespace Genrt.Stdio

open CString

def writeChunk : Nat := 256

def intMax : Nat := 2 ^ 31 - 1

def einval : Int := -22
def eio : Int := -5
def eoverflow : Int := -75

inductive LengthModifier where
  | default
  | long
  | longLong
  | size
deriving DecidableEq, Repr

inductive OutputKind where
  | memory
  | fd
deriving DecidableEq, Repr

/-- The sink. `buffer` is the memory from the caller's pointer on, `chunk` the used part of
the chunk, and `sent` what the descriptor has taken in `calls` write calls. -/
structure Output where
  kind : OutputKind
  buffer : Buffer
  size : Nat
  stored : Nat
  chunk : List UInt8
  count : Nat
  error : Int
  sent : List UInt8
  calls : Nat

/-- What a call of `write` returns, by the number of calls before it and the number of
bytes it is given. -/
abbrev Writes := Nat → Nat → Int

/-- The loop of `flush_chunk` over the bytes that are left. -/
def flushLoop (writes : Writes) (pending sent : List UInt8) (calls : Nat) :
    Int × List UInt8 × Nat :=
  if pending = [] then (0, sent, calls)
  else
    let result := writes calls pending.length
    if result < 0 then (result, sent, calls + 1)
    else if bad : result.toNat = 0 ∨ pending.length < result.toNat then (eio, sent, calls + 1)
    else flushLoop writes (pending.drop result.toNat) (sent ++ pending.take result.toNat)
      (calls + 1)
termination_by pending.length
decreasing_by
  rw [List.length_drop]
  have : pending.length ≠ 0 := fun zero => ‹¬ pending = []› (List.length_eq_zero_iff.mp zero)
  omega

/-- `flush_chunk` -/
def flushChunk (writes : Writes) (out : Output) : Int × Output :=
  let (error, sent, calls) := flushLoop writes out.chunk out.sent out.calls
  (error, { out with chunk := if error = 0 then [] else out.chunk, sent := sent, calls := calls })

/-- `output_count` -/
def outputCount (out : Output) (count : Nat) : Output :=
  if out.error ≠ 0 then out
  else if intMax - out.count < count then { out with error := eoverflow }
  else { out with count := out.count + count }

/-- Add a byte to the chunk and flush it when it is full. -/
def pushChunk (writes : Writes) (out : Output) (character : UInt8) : Option Output :=
  if writeChunk ≤ out.chunk.length then none
  else
    let out := { out with chunk := out.chunk ++ [character] }
    if out.chunk.length = writeChunk then
      let (error, out) := flushChunk writes out
      some { out with error := error }
    else some out

/-- `output_character` -/
def outputCharacter (writes : Writes) (out : Output) (character : UInt8) : Option Output :=
  let out := outputCount out 1
  if out.error ≠ 0 then some out
  else
    if out.kind = .memory then
      if out.stored + 1 < out.size then do
        let buffer ← store out.buffer out.stored character
        some { out with buffer := buffer, stored := out.stored + 1 }
      else some out
    else pushChunk writes out character

/-- The room that is left in the buffer in front of its last byte. -/
def available (out : Output) (count : Nat) : Nat :=
  min (if out.stored + 1 < out.size then out.size - out.stored - 1 else 0) count

/-- The characters of the loops over a chunk, until one fails. -/
def pushAll (writes : Writes) (out : Output) : List UInt8 → Option Output
  | [] => some out
  | character :: rest =>
    if out.error ≠ 0 then some out
    else do
      let out ← pushChunk writes out character
      pushAll writes out rest

/-- The common body of `output_repeat` and `output_text`: the memory sink copies what
fits, the descriptor sink takes the bytes one after the other. -/
def outputBytes (writes : Writes) (out : Output) (bytes : List UInt8) : Option Output :=
  let out := outputCount out bytes.length
  if out.error ≠ 0 then some out
  else
    if out.kind = .memory then
      let count := available out bytes.length
      if count ≠ 0 then do
        let buffer ← memcpy out.buffer out.stored bytes count
        some { out with buffer := buffer, stored := out.stored + count }
      else some out
    else pushAll writes out bytes

/-- `output_repeat` -/
def outputRepeat (writes : Writes) (out : Output) (character : UInt8) (count : Nat) :
    Option Output := outputBytes writes out (List.replicate count character)

/-- `output_text` -/
def outputText (writes : Writes) (out : Output) (text : Text) : Option Output :=
  outputBytes writes out text.val

def isDigit (byte : UInt8) : Bool := 0x30 ≤ byte ∧ byte ≤ 0x39

/-- `parse_width`, from a value on: the width and the rest of the format. -/
def parseWidth (value : Nat) : List UInt8 → Except Int (Nat × List UInt8)
  | [] => .ok (value, [])
  | byte :: rest =>
    if isDigit byte then
      let digit := byte.toNat - 0x30
      if (intMax - digit) / 10 < value then .error eoverflow
      else parseWidth (value * 10 + digit) rest
    else .ok (value, byte :: rest)

/-- The length modifier at the start of the format, and the rest. -/
def parseLength : List UInt8 → LengthModifier × List UInt8
  | 0x6c :: 0x6c :: rest => (.longLong, rest)
  | 0x6c :: rest => (.long, rest)
  | 0x7a :: rest => (.size, rest)
  | rest => (.default, rest)

/-- `unsigned_digits`; the bases are ten and sixteen. -/
def unsignedDigits (value base : Nat) : Nat :=
  if larger : 1 < base ∧ base ≤ value then unsignedDigits (value / base) base + 1 else 1
termination_by value
decreasing_by exact Nat.div_lt_self (by omega) larger.1

/-- `"0123456789abcdef"` -/
def lower : List UInt8 :=
  [0x30, 0x31, 0x32, 0x33, 0x34, 0x35, 0x36, 0x37, 0x38, 0x39, 0x61, 0x62, 0x63, 0x64, 0x65, 0x66]

/-- `"0123456789ABCDEF"` -/
def upper : List UInt8 :=
  [0x30, 0x31, 0x32, 0x33, 0x34, 0x35, 0x36, 0x37, 0x38, 0x39, 0x41, 0x42, 0x43, 0x44, 0x45, 0x46]

/-- The digits of a value, the lowest first. -/
def reversedDigits (digits : List UInt8) (base : Nat) : Nat → Nat → List UInt8
  | 0, _ => []
  | count + 1, value => digits.getD (value % base) 0 :: reversedDigits digits base count
      (value / base)

/-- The bits of a `uintmax_t`, which bound the array of digits. -/
def uintmaxBits : Nat := 64

/-- Send characters one by one. -/
def outputCharacters (writes : Writes) (out : Output) (characters : List UInt8) : Option Output :=
  characters.foldlM (outputCharacter writes) out

/-- `output_repeat` under a condition. -/
def outputPadding (writes : Writes) (out : Output) (pads : Bool) (character : UInt8)
    (count : Nat) : Option Output :=
  if pads then outputRepeat writes out character count else some out

/-- `output_unsigned`; there is no sign if `sign` is empty. -/
def outputUnsigned (writes : Writes) (out : Output) (value base : Nat) (uppercase : Bool)
    (width : Nat) (zeroPad : Bool) (sign : Option UInt8) : Option Output := do
  let digits := if uppercase then upper else lower
  let digitCount := unsignedDigits value base
  let contentCount := digitCount + if sign = none then 0 else 1
  let padding := if contentCount < width then width - contentCount else 0
  let out ← outputPadding writes out (!zeroPad) 0x20 padding
  let out ← outputCharacters writes out sign.toList
  let out ← outputPadding writes out zeroPad 0x30 padding
  if uintmaxBits < digitCount then none
  else outputCharacters writes out (reversedDigits digits base digitCount value).reverse

/-- The value of an `intmax_t` as a `uintmax_t`. -/
def toUintmax (value : Int) : Nat := (value % 2 ^ 64).toNat

/-- `output_signed` -/
def outputSigned (writes : Writes) (out : Output) (value : Int) (width : Nat) (zeroPad : Bool) :
    Option Output :=
  let magnitude := if value < 0 then (2 ^ 64 - toUintmax value) % 2 ^ 64 else toUintmax value
  outputUnsigned writes out magnitude 10 false width zeroPad (if value < 0 then some 0x2d else none)

/-- An argument: a register, or a pointer to a string that may be null. -/
inductive Arg where
  | word (bits : BitVec 64)
  | string (text : Option Text)

/-- `va_arg` for an `int` or a `long`, and the arguments that are left. -/
def argSigned (length : LengthModifier) : List Arg → Option (Int × List Arg)
  | .word bits :: args =>
    some (if length = .default then (bits.setWidth 32).toInt else bits.toInt, args)
  | _ => none

def argUnsigned (length : LengthModifier) : List Arg → Option (Nat × List Arg)
  | .word bits :: args =>
    some (if length = .default then (bits.setWidth 32).toNat else bits.toNat, args)
  | _ => none

/-- `"(null)"` -/
def nullText : Text := ⟨[0x28, 0x6e, 0x75, 0x6c, 0x6c, 0x29], by decide⟩

/-- `"0x"` -/
def hexStart : Text := ⟨[0x30, 0x78], by decide⟩

/-- The switch on the conversion character. -/
def convert (writes : Writes) (out : Output) (character : UInt8) (zeroPad : Bool) (width : Nat)
    (length : LengthModifier) (args : List Arg) : Option (Output × List Arg) :=
  let fail := some ({ out with error := einval }, args)
  if character = 0x25 then
    if length ≠ .default ∨ width ≠ 0 ∨ zeroPad then fail
    else do
      let out ← outputCharacter writes out 0x25
      some (out, args)
  else if character = 0x63 then
    if length ≠ .default then fail
    else do
      let out ← outputRepeat writes out 0x20 (if 1 < width then width - 1 else 0)
      let (value, args) ← argSigned .default args
      let out ← outputCharacter writes out (UInt8.ofNat (value % 2 ^ 8).toNat)
      some (out, args)
  else if character = 0x73 then
    if length ≠ .default then fail
    else
      match args with
      | .string text :: args => do
          let text := text.getD nullText
          let size := text.val.length
          let out ← outputRepeat writes out 0x20 (if size < width then width - size else 0)
          let out ← outputText writes out text
          some (out, args)
      | _ => none
  else if character = 0x64 ∨ character = 0x69 then do
    let (value, args) ← argSigned length args
    let out ← outputSigned writes out value width zeroPad
    some (out, args)
  else if character = 0x75 then do
    let (value, args) ← argUnsigned length args
    let out ← outputUnsigned writes out value 10 false width zeroPad none
    some (out, args)
  else if character = 0x78 ∨ character = 0x58 then do
    let (value, args) ← argUnsigned length args
    let out ← outputUnsigned writes out value 16 (character = 0x58) width zeroPad none
    some (out, args)
  else if character = 0x70 then
    if length ≠ .default then fail
    else do
      let (pointer, args) ← argUnsigned .long args
      let digits := unsignedDigits pointer 16
      let out ← outputPadding writes out (!zeroPad) 0x20
        (if digits + 2 < width then width - digits - 2 else 0)
      let out ← outputText writes out hexStart
      let out ← outputUnsigned writes out pointer 16 false
        (if zeroPad ∧ 2 < width then width - 2 else 0) zeroPad none
      some (out, args)
  else fail

/-- The part of the loop of `format_output` behind a `%`. -/
def directive (writes : Writes) (out : Output) (format : List UInt8) (args : List Arg) :
    Option (Output × List UInt8 × List Arg) :=
  match format with
  | [] => some ({ out with error := einval }, [], args)
  | first :: rest =>
    let zeroPad : Bool := first = 0x30
    match parseWidth 0 (if zeroPad then rest else first :: rest) with
    | .error error => some ({ out with error := error }, [], args)
    | .ok (width, format) =>
      let (length, format) := parseLength format
      match format with
      | [] => some ({ out with error := einval }, [], args)
      | character :: rest => do
          let (out, args) ← convert writes out character zeroPad width length args
          some (out, rest, args)

/-- The loop of `format_output`. Every round uses up a byte of the format, so its length
bounds the rounds. -/
def formatLoop (writes : Writes) : Nat → Output → List UInt8 → List Arg → Option Output
  | fuel, out, format, args =>
    if out.error ≠ 0 then some out
    else
      match fuel, format with
      | _, [] => some out
      | 0, _ :: _ => none
      | fuel + 1, character :: rest =>
        if character ≠ 0x25 then do
          let out ← outputCharacter writes out character
          formatLoop writes fuel out rest args
        else do
          let (out, rest, args) ← directive writes out rest args
          formatLoop writes fuel out rest args

/-- `format_output` of a format that is not null. -/
def formatOutput (writes : Writes) (out : Output) (format : Text) (args : List Arg) :
    Option Output := formatLoop writes format.val.length out format.val args

/-- `vsnprintf` into the memory from a pointer on; the result and the memory after it. -/
def vsnprintf (buffer : Buffer) (size : Nat) (format : Text) (args : List Arg) :
    Option (Int × Buffer) := do
  let out ← formatOutput (fun _ _ => 0) ⟨.memory, buffer, size, 0, [], 0, 0, [], 0⟩ format args
  let result := if out.error ≠ 0 then out.error else out.count
  if size = 0 then some (result, out.buffer)
  else
    let buffer ← store out.buffer out.stored 0
    some (result, buffer)

/-- `vdprintf`; the result and what the descriptor has taken. -/
def vdprintf (writes : Writes) (format : Text) (args : List Arg) : Option (Int × List UInt8) := do
  let out ← formatOutput writes ⟨.fd, [], 0, 0, [], 0, 0, [], 0⟩ format args
  if out.error ≠ 0 then some (out.error, out.sent)
  else
    let (error, out) := flushChunk writes out
    some (if error ≠ 0 then error else out.count, out.sent)

end Genrt.Stdio
