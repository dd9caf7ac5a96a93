import Genrt.User.Format

/-!
# The formatter produces what the format says

Each primitive of the sink produces its bytes. A memory sink has stored as much of the
output as fits in front of the last byte, and has not touched the memory behind it; a
descriptor sink has sent a part of the output and holds the rest in its chunk. The digits
and the padding are those of the format, so the loop produces the output of its items.
-/

namespace Genrt.Stdio

open CString

/-- Where the output goes: to the memory from a pointer on, or to a descriptor. -/
inductive Sink where
  | memory (initial : Buffer) (size : Nat)
  | fd

/-- Every write takes at least a byte, and no more than it is given. -/
def Progresses (writes : Writes) : Prop :=
  ∀ calls size, 0 < size → 0 < writes calls size ∧ writes calls size ≤ size

/-- The state of a sink after some output. -/
structure Produced (sink : Sink) (out : Output) (bytes : List UInt8) : Prop where
  error : out.error = 0
  count : out.count = bytes.length
  state :
    match sink with
    | .memory initial size => out.kind = .memory ∧ out.size = size ∧ size ≤ initial.length ∧
        out.stored = min bytes.length (size - 1) ∧
        out.buffer = bytes.take out.stored ++ initial.drop out.stored
    | .fd => out.kind = .fd ∧ out.chunk.length < writeChunk ∧ out.sent ++ out.chunk = bytes

/-- The call adds bytes to the output, if the length of the whole output is an `int`. -/
abbrev Yields (sink : Sink) (bytes new : List UInt8) (call : Option Output) : Prop :=
  (bytes ++ new).length ≤ intMax → ∃ after, call = some after ∧ Produced sink after (bytes ++ new)

variable {writes : Writes} {sink : Sink} {out : Output} {bytes new : List UInt8}

/-- Calls one after the other add their bytes one after the other. -/
theorem Yields.bind {call : Option Output} {next : Output → Option Output} {more : List UInt8}
    (first : Yields sink bytes new call) (second : ∀ middle, Produced sink middle (bytes ++ new) →
      Yields sink (bytes ++ new) more (next middle)) :
    Yields sink bytes (new ++ more) (call.bind next) := by
  intro fits
  rw [← List.append_assoc] at fits ⊢
  obtain ⟨middle, called, produced⟩ := first (Nat.le_trans (List.prefix_append ..).length_le fits)
  rw [called, Option.bind_some]
  exact second middle produced fits

/-! ### Descriptors -/

section

variable (progress : Progresses writes)

include progress

theorem flushLoop_eq (pending sent : List UInt8) (calls : Nat) :
    ∃ calls', flushLoop writes pending sent calls = (0, sent ++ pending, calls') := by
  induction pending, sent, calls using flushLoop.induct writes with
  | case1 sent calls =>
    rw [flushLoop, if_pos rfl, List.append_nil]
    exact ⟨calls, rfl⟩
  | case2 pending sent calls some_left result failed =>
    have size := List.length_pos_iff.mpr some_left
    have taken := (progress calls pending.length size).1
    exact absurd failed (by omega)
  | case3 pending sent calls some_left result worked bad =>
    have size := List.length_pos_iff.mpr some_left
    have taken := progress calls pending.length size
    omega
  | case4 pending sent calls some_left result worked good ih =>
    obtain ⟨calls', rest⟩ := ih
    refine ⟨calls', ?_⟩
    rw [flushLoop, if_neg some_left]
    dsimp only
    rw [if_neg worked, dif_neg good, rest, List.append_assoc, List.take_append_drop]

theorem flushChunk_eq (out : Output) :
    ∃ calls, flushChunk writes out =
      (0, { out with chunk := [], sent := out.sent ++ out.chunk, calls := calls }) := by
  obtain ⟨calls, flushed⟩ := flushLoop_eq progress out.chunk out.sent out.calls
  rw [flushChunk, flushed]
  exact ⟨calls, rfl⟩

/-- The parts of the sink that a descriptor sink keeps. -/
structure Pushed (out after : Output) (bytes : List UInt8) : Prop where
  error : after.error = 0
  count : after.count = out.count
  kind : after.kind = out.kind
  room : after.chunk.length < writeChunk
  bytes : after.sent ++ after.chunk = out.sent ++ out.chunk ++ bytes

theorem pushChunk_eq (clean : out.error = 0) (room : out.chunk.length < writeChunk)
    (character : UInt8) :
    ∃ after, pushChunk writes out character = some after ∧ Pushed out after [character] := by
  rw [pushChunk, if_neg (Nat.not_le.mpr room)]
  dsimp only
  rw [List.length_append, List.length_singleton]
  by_cases full : out.chunk.length + 1 = writeChunk
  · rw [if_pos full]
    obtain ⟨calls, flushed⟩ :=
      flushChunk_eq progress { out with chunk := out.chunk ++ [character] }
    rw [flushed]
    refine ⟨_, rfl, rfl, rfl, rfl, Nat.zero_lt_succ _, ?_⟩
    dsimp only
    rw [List.append_nil, List.append_assoc]
  · rw [if_neg full]
    refine ⟨_, rfl, clean, rfl, rfl, ?_, by rw [List.append_assoc]⟩
    rw [List.length_append, List.length_singleton]
    omega

theorem pushAll_eq (clean : out.error = 0) (room : out.chunk.length < writeChunk)
    (characters : List UInt8) :
    ∃ after, pushAll writes out characters = some after ∧ Pushed out after characters := by
  induction characters generalizing out with
  | nil => exact ⟨out, rfl, clean, rfl, rfl, room, by rw [List.append_nil]⟩
  | cons character rest ih =>
    obtain ⟨middle, first, pushed⟩ := pushChunk_eq progress clean room character
    obtain ⟨after, others, all⟩ := ih pushed.error pushed.room
    refine ⟨after, ?_, all.error, all.count.trans pushed.count, all.kind.trans pushed.kind,
      all.room, ?_⟩
    · rw [pushAll, if_neg (not_not.mpr clean), first]
      exact others
    · rw [all.bytes, pushed.bytes, List.append_assoc, List.singleton_append]

end

/-! ### The primitives -/

variable {count base value : Nat} {character letter : UInt8} {rest : List UInt8}

theorem outputCount_eq (clean : out.error = 0) (fits : out.count + count ≤ intMax) :
    outputCount out count = { out with count := out.count + count } := by
  rw [outputCount, if_neg (not_not.mpr clean), if_neg (by omega)]

/-- A character is a string of one byte. -/
theorem outputCharacter_eq (clean : out.error = 0) (counts : out.count + 1 ≤ intMax)
    (character : UInt8) :
    outputCharacter writes out character = outputBytes writes out [character] := by
  unfold outputCharacter outputBytes
  rw [List.length_singleton, outputCount_eq clean counts]
  dsimp only
  rw [if_neg (not_not.mpr clean), if_neg (not_not.mpr clean)]
  by_cases memory : out.kind = .memory
  · rw [if_pos memory, if_pos memory]
    by_cases room : out.stored + 1 < out.size
    · have one : available { out with count := out.count + 1 } 1 = 1 := by
        simp only [available, if_pos room]
        omega
      rw [if_pos room, one, if_pos Nat.one_ne_zero]
      unfold store memcpy
      by_cases inside : out.stored < out.buffer.length
      · rw [if_pos inside, if_pos ⟨inside, le_rfl⟩]
        simp [List.set_eq_take_append_cons_drop, inside]
      · rw [if_neg inside, if_neg fun both => inside both.1]
    · have zero : available { out with count := out.count + 1 } 1 = 0 := by
        simp only [available, if_neg room, Nat.zero_min]
      rw [if_neg room, zero, if_neg (not_not.mpr rfl)]
  · rw [if_neg memory, if_neg memory]
    dsimp only [pushAll]
    rw [if_neg (not_not.mpr clean)]
    cases pushChunk writes { out with count := out.count + 1 } character <;> rfl

section

variable (h : Produced sink out bytes) (progress : sink = .fd → Progresses writes)

include h progress

theorem Produced.outputBytes : Yields sink bytes new (outputBytes writes out new) := by
  intro fits
  have counted : (bytes ++ new).length = out.count + new.length := by
    rw [List.length_append, h.count]
  unfold Stdio.outputBytes
  rw [outputCount_eq h.error (by omega)]
  dsimp only
  rw [if_neg (not_not.mpr h.error)]
  cases sink with
  | memory initial size =>
    obtain ⟨kind, same, room, stored, buffer⟩ := h.state
    obtain ⟨total, start⟩ : out.stored + available out new.length =
        min (bytes.length + new.length) (size - 1) ∧
          (available out new.length ≠ 0 → out.stored = bytes.length) := by
      unfold available
      rw [same]
      split <;> omega
    have kept : available { out with count := out.count + new.length } new.length =
        available out new.length := rfl
    rw [if_pos kind, kept]
    by_cases none_left : available out new.length = 0
    · rw [if_neg (not_not.mpr none_left)]
      rw [none_left, Nat.add_zero] at total
      refine ⟨_, rfl, h.error, counted.symm, kind, same, room, ?_, ?_⟩
      · rw [List.length_append]
        exact total
      · dsimp only
        rw [buffer, List.take_append_of_le_length (by omega)]
    · rw [if_pos none_left]
      have whole : bytes.take out.stored = bytes := by rw [start none_left, List.take_length]
      have bound : available out new.length ≤ new.length := Nat.min_le_right _ _
      have inside : available out new.length ≤ (initial.drop out.stored).length := by
        rw [List.length_drop]
        omega
      have copied : memcpy out.buffer out.stored new (available out new.length) =
          some (bytes ++ new.take (available out new.length) ++
            (initial.drop out.stored).drop (available out new.length)) := by
        rw [buffer, whole, start none_left]
        exact memcpy_append bytes _ new (start none_left ▸ inside) bound
      rw [copied]
      refine ⟨_, rfl, h.error, counted.symm, kind, same, room, ?_, ?_⟩
      · rw [List.length_append]
        exact total
      · dsimp only
        rw [List.drop_drop, start none_left, List.take_length_add_append]
  | fd =>
    obtain ⟨kind, room, content⟩ := h.state
    obtain ⟨after, pushed, all⟩ :=
      @pushAll_eq writes { out with count := out.count + new.length } (progress rfl) h.error room
        new
    rw [if_neg (by rw [kind]; decide)]
    refine ⟨after, pushed, all.error, all.count.trans counted.symm, all.kind.trans kind, all.room,
      ?_⟩
    rw [all.bytes]
    dsimp only
    rw [content]

theorem Produced.outputCharacter :
    Yields sink bytes [character] (outputCharacter writes out character) := by
  intro fits
  rw [outputCharacter_eq h.error (by rw [h.count]; simpa using fits)]
  exact h.outputBytes progress fits

theorem Produced.outputCharacters : Yields sink bytes new (outputCharacters writes out new) := by
  induction new generalizing out bytes with
  | nil => exact fun _ => ⟨out, rfl, by rwa [List.append_nil]⟩
  | cons character rest ih => exact (h.outputCharacter progress).bind fun _ produced => ih produced

theorem Produced.outputRepeat :
    Yields sink bytes (List.replicate count character) (outputRepeat writes out character count) :=
  h.outputBytes progress

/-- Padding that may be left out. -/
theorem Produced.outputPadding {pads : Bool} :
    Yields sink bytes (if pads then List.replicate count character else [])
      (outputPadding writes out pads character count) := by
  unfold Stdio.outputPadding
  cases pads with
  | true => exact h.outputRepeat progress
  | false => exact fun _ => ⟨out, rfl, by simpa using h⟩

end

/-! ### Numbers -/

/-- The loop over the digits of a value gives its lowest digits first. -/
theorem reversedDigits_eq (table : List UInt8) (positive : 1 < base) (value : Nat) :
    reversedDigits table base (unsignedDigits value base) value =
      (lowDigits base value).map fun digit => table.getD digit 0 := by
  induction value using Nat.strongRecOn with
  | ind value ih =>
    rw [unsignedDigits]
    by_cases larger : base ≤ value
    · have nonzero : value ≠ 0 := by omega
      have quotient : value / base ≠ 0 := Nat.ne_of_gt (Nat.div_pos larger (by omega))
      have smaller : value / base < value := Nat.div_lt_self (by omega) positive
      rw [dif_pos ⟨positive, larger⟩, reversedDigits, ih _ smaller]
      unfold lowDigits
      rw [if_neg quotient, if_neg nonzero,
        Nat.digits_def' positive (Nat.pos_of_ne_zero nonzero), List.map_cons]
    · rw [dif_neg fun both => larger both.2]
      have small : value < base := Nat.lt_of_not_le larger
      simp only [reversedDigits, Nat.mod_eq_of_lt small]
      unfold lowDigits
      split
      · next zero => rw [zero, List.map_singleton]
      · next nonzero => rw [Nat.digits_of_lt base value nonzero small, List.map_singleton]

theorem length_reversedDigits (table : List UInt8) (base count value : Nat) :
    (reversedDigits table base count value).length = count := by
  induction count generalizing value with
  | zero => rfl
  | succ count ih => rw [reversedDigits, List.length_cons, ih]

theorem numeral_eq (table : List UInt8) (positive : 1 < base) (value : Nat) :
    (reversedDigits table base (unsignedDigits value base) value).reverse =
      numeral table base value := by
  rw [reversedDigits_eq table positive, numeral]

theorem length_numeral (table : List UInt8) (positive : 1 < base) (value : Nat) :
    (numeral table base value).length = unsignedDigits value base := by
  rw [← numeral_eq table positive, List.length_reverse, length_reversedDigits]

/-- A number has no more digits than bits. -/
theorem unsignedDigits_le (positive : 1 < base) {bits : Nat} (fits : value < 2 ^ bits)
    (some : 0 < bits) : unsignedDigits value base ≤ bits := by
  induction bits generalizing value with
  | zero => exact absurd some (Nat.lt_irrefl 0)
  | succ bits ih =>
    rw [unsignedDigits]
    split
    · next larger =>
      have two : 2 ≤ value := by omega
      have left : 0 < bits := by
        refine Nat.pos_of_ne_zero fun zero => ?_
        rw [zero] at fits
        omega
      have half : value / base < 2 ^ bits := by
        rw [Nat.div_lt_iff_lt_mul (by omega)]
        calc value < 2 ^ bits * 2 := by rwa [← Nat.pow_succ]
          _ ≤ 2 ^ bits * base := Nat.mul_le_mul_left _ positive
      exact Nat.succ_le_succ (ih half left)
    · omega

/-- The parts of a padded number. -/
theorem padTo_eq (zero : Bool) (width : Nat) (sign digits : List UInt8) :
    padTo zero width sign digits =
      (if !zero then List.replicate (width - (sign.length + digits.length)) 0x20 else []) ++
      (sign ++
      ((if zero then List.replicate (width - (sign.length + digits.length)) 0x30 else []) ++
      digits)) := by
  unfold padTo
  cases zero <;> simp

theorem Produced.outputUnsigned (h : Produced sink out bytes)
    (progress : sink = .fd → Progresses writes) (positive : 1 < base)
    (word : value < 2 ^ uintmaxBits) (uppercase zero : Bool) (width : Nat) (sign : Option UInt8) :
    Yields sink bytes
      (padTo zero width sign.toList (numeral (if uppercase then upper else lower) base value))
      (outputUnsigned writes out value base uppercase width zero sign) := by
  generalize table_eq : (if uppercase then upper else lower) = table
  have count : unsignedDigits value base + (if sign = none then 0 else 1) =
      sign.toList.length + (numeral table base value).length := by
    rw [length_numeral table positive]
    cases sign <;> simp [Nat.add_comm]
  have padding : (if unsignedDigits value base + (if sign = none then 0 else 1) < width then
      width - (unsignedDigits value base + if sign = none then 0 else 1) else 0) =
      width - (sign.toList.length + (numeral table base value).length) := by
    rw [count]
    split <;> omega
  have short := Nat.not_lt.mpr (unsignedDigits_le positive word (by decide))
  unfold Stdio.outputUnsigned
  simp only [table_eq, padding, if_neg short, numeral_eq table positive, Option.bind_eq_bind]
  rw [padTo_eq]
  exact (h.outputPadding progress).bind fun _ spaced => (spaced.outputCharacters progress).bind
    fun _ signed => (signed.outputPadding progress).bind fun _ zeros =>
      zeros.outputCharacters progress

theorem signedValue_bounds (length : LengthModifier) (bits : BitVec 64) :
    -2 ^ 63 ≤ signedValue length bits ∧ signedValue length bits < 2 ^ 63 := by
  unfold signedValue
  split
  · have low := BitVec.le_toInt (bits.setWidth 32)
    have high := @BitVec.toInt_lt 32 (bits.setWidth 32)
    simp only [Nat.reduceSub] at low high
    omega
  · have low := BitVec.le_toInt bits
    have high := @BitVec.toInt_lt 64 bits
    simp only [Nat.reduceSub] at low high
    omega

theorem unsignedValue_lt (length : LengthModifier) (bits : BitVec 64) :
    unsignedValue length bits < 2 ^ uintmaxBits := by
  unfold unsignedValue uintmaxBits
  split
  · exact Nat.lt_trans (bits.setWidth 32).isLt (by decide)
  · exact bits.isLt

/-! ### Reading a conversion -/

theorem isDigit_digitByte (digit : Fin 10) : isDigit (digitByte digit) = true := by
  revert digit
  decide

theorem digitByte_toNat (digit : Fin 10) : (digitByte digit).toNat - 0x30 = digit := by
  revert digit
  decide

theorem eq_zero_of_digitByte (digit : Fin 10) : digitByte digit = 0x30 → digit = 0 := by
  revert digit
  decide

theorem le_decimalFrom (digits : List (Fin 10)) (value : Nat) :
    value ≤ decimalFrom value digits := by
  induction digits generalizing value with
  | nil => exact le_rfl
  | cons digit digits ih =>
    have step := ih (value * 10 + digit)
    rw [decimalFrom]
    omega

/-- A width that fits is read up to the first byte that is not a digit. -/
theorem parseWidth_eq (digits : List (Fin 10)) (ends : ∀ byte ∈ rest.head?, isDigit byte = false)
    (fits : decimalFrom value digits ≤ intMax) :
    parseWidth value (digits.map digitByte ++ rest) = .ok (decimalFrom value digits, rest) := by
  induction digits generalizing value with
  | nil =>
    cases rest with
    | nil => rfl
    | cons byte rest =>
      have stop := ends byte rfl
      rw [List.map_nil, List.nil_append, parseWidth, stop]
      rfl
  | cons digit digits ih =>
    rw [decimalFrom] at fits ⊢
    have next := Nat.le_trans (le_decimalFrom digits (value * 10 + digit)) fits
    rw [List.map_cons, List.cons_append, parseWidth, if_pos (isDigit_digitByte digit)]
    dsimp only
    rw [digitByte_toNat, if_neg (by omega), ih fits]

theorem parseLength_eq (length : LengthModifier) (rest : List UInt8)
    (other : letter ≠ 0x6c ∧ letter ≠ 0x7a) :
    parseLength (length.spelling ++ letter :: rest) = (length, letter :: rest) := by
  cases length with
  | default =>
    rw [LengthModifier.spelling, List.nil_append, parseLength]
    all_goals simp_all
  | long =>
    rw [LengthModifier.spelling, List.singleton_append, parseLength]
    simp_all
  | longLong => rfl
  | size => rfl

/-- Without the flag the first byte is not a zero. -/
theorem head_ne_zero {field : Field} (unset : field.zero = false)
    (ends : ∀ byte ∈ rest.head?, isDigit byte = false) :
    ∀ byte ∈ (field.digits.map digitByte ++ rest).head?, byte ≠ 0x30 := by
  intro byte first zero
  subst zero
  have flag := field.flag unset
  cases digits : field.digits with
  | nil =>
    rw [digits] at first
    exact absurd (ends _ first) (by decide)
  | cons digit digits' =>
    rw [digits] at first flag
    have same : digitByte digit = 0x30 := by simpa using first
    exact flag (congrArg some (eq_zero_of_digitByte digit same))

/-- The part of the loop behind a `%` reads the field and the modifier. -/
theorem directive_eq (field : Field) (length : LengthModifier) (rest : List UInt8) {args : List Arg}
    (other : letter ≠ 0x6c ∧ letter ≠ 0x7a) (ends : isDigit letter = false)
    (fits : field.width ≤ intMax) : directive writes out (spell field length letter ++ rest) args =
      (convert writes out letter field.zero field.width length args).bind
        fun result => some (result.1, rest, result.2) := by
  have tail : spell field length letter ++ rest = (if field.zero then [0x30] else []) ++
      (field.digits.map digitByte ++ (length.spelling ++ letter :: rest)) := by
    simp [spell]
  have stops : ∀ byte ∈ (length.spelling ++ letter :: rest).head?, isDigit byte = false := by
    intro byte first
    cases length with
    | default =>
      cases first
      exact ends
    | long | longLong | size =>
      cases first
      decide
  have width := parseWidth_eq field.digits stops fits
  have modifier := parseLength_eq length rest other
  rw [tail]
  cases zero : field.zero with
  | true =>
    simp only [if_true, List.singleton_append, directive, decide_true, width, modifier]
    rfl
  | false =>
    have nonzero := head_ne_zero zero stops
    cases text : field.digits.map digitByte ++ (length.spelling ++ letter :: rest) with
    | nil => simp at text
    | cons first others =>
      rw [text] at nonzero width
      have differs : decide (first = 0x30) = false := decide_eq_false (nonzero first rfl)
      simp only [Bool.false_eq_true, if_false, List.nil_append, directive, differs, width,
        modifier]
      rfl

/-! ### Items -/

/-- The conversion of an item produces its output and takes its arguments. -/
def Converts (writes : Writes) (sink : Sink) (out : Output) (bytes : List UInt8) (field : Field)
    (length : LengthModifier) (letter : UInt8) (taken : List Arg) (new : List UInt8) : Prop :=
  ∀ args, ∃ call, convert writes out letter field.zero field.width length (taken ++ args) =
    call.bind (fun out => some (out, args)) ∧ Yields sink bytes new call

/-- No flag and no width. -/
def Field.plain : Field := ⟨false, [], nofun⟩

/-- Behind `0x` the number is padded to what is left of the width. -/
theorem padTo_hexStart (zero : Bool) (width : Nat) (digits : List UInt8) :
    padTo zero width hexStart.val digits =
      (if !zero then List.replicate (width - (digits.length + 2)) 0x20 else []) ++ (hexStart.val ++
        padTo zero (if zero ∧ 2 < width then width - 2 else 0) [] digits) := by
  have start : hexStart.val.length = 2 := rfl
  unfold padTo
  cases zero with
  | true =>
    have left : (if True ∧ 2 < width then width - 2 else 0) - digits.length =
        width - (2 + digits.length) := by
      simp only [true_and]
      split <;> omega
    simp [start, ← left]
  | false => simp [start, Nat.add_comm]

/-- A round of the loop that deals with a part of the format. -/
def Rounds (writes : Writes) (sink : Sink) (out : Output) (bytes : List UInt8)
    (part : List UInt8) (taken : List Arg) (new : List UInt8) : Prop :=
  ∀ fuel rest args, ∃ call, formatLoop writes (fuel + 1) out (part ++ rest) (taken ++ args) =
    call.bind (fun out => formatLoop writes fuel out rest args) ∧ Yields sink bytes new call

theorem Converts.rounds {field : Field} {length : LengthModifier} {taken : List Arg}
    (converts : Converts writes sink out bytes field length letter taken new)
    (clean : out.error = 0) (other : letter ≠ 0x6c ∧ letter ≠ 0x7a) (ends : isDigit letter = false)
    (width : field.width ≤ intMax) :
    Rounds writes sink out bytes (0x25 :: spell field length letter) taken new := by
  intro fuel rest args
  obtain ⟨call, converted, yields⟩ := converts args
  refine ⟨call, ?_, yields⟩
  rw [List.cons_append, formatLoop, if_neg (not_not.mpr clean), if_neg (not_not.mpr rfl),
    directive_eq field length rest other ends width, converted]
  simp only [Option.bind_eq_bind, Option.bind_assoc, Option.bind_some]

section

variable (h : Produced sink out bytes) (progress : sink = .fd → Progresses writes)

include h progress

theorem converts_percent :
    Converts writes sink out bytes .plain .default 0x25 [] Item.percent.output := by
  refine fun args => ⟨_, ?_, h.outputCharacter progress⟩
  unfold convert
  rw [if_pos rfl, if_neg (by decide)]
  rfl

section

variable (field : Field)

include field

/-- The spaces in front of a text. -/
theorem Produced.padText {text : List UInt8} {put : Output → Option Output}
    (yields : ∀ middle bytes, Produced sink middle bytes → Yields sink bytes text (put middle)) :
    Yields sink bytes (field.padText text) ((Stdio.outputRepeat writes out 0x20
      (if text.length < field.width then field.width - text.length else 0)).bind put) := by
  have count : (if text.length < field.width then field.width - text.length else 0) =
      field.width - text.length := by
    split <;> omega
  rw [count]
  exact (h.outputRepeat progress).bind fun middle produced => yields middle _ produced

theorem converts_char (value : BitVec 64) :
    Converts writes sink out bytes field .default 0x63 [.word value]
      (Item.char field value).output := by
  refine fun args => ⟨_, ?_, h.padText progress field fun _ _ padded =>
    padded.outputCharacter progress⟩
  unfold convert
  rw [if_neg (by decide), if_pos rfl, if_neg (by decide)]
  simp only [argSigned, List.singleton_append, Option.bind_eq_bind, Option.bind_assoc,
    Option.bind_some, if_true, List.length_singleton]

theorem converts_string (text : Option Text) :
    Converts writes sink out bytes field .default 0x73 [.string text]
      (Item.string field text).output := by
  refine fun args => ⟨_, ?_, h.padText progress field fun _ _ padded =>
    padded.outputBytes progress⟩
  unfold convert
  rw [if_neg (by decide), if_neg (by decide), if_pos rfl, if_neg (by decide), List.singleton_append]
  simp only [Option.bind_eq_bind, Option.bind_assoc, outputText]

theorem converts_signed (length : LengthModifier) (letterI : Bool) (value : BitVec 64) :
    Converts writes sink out bytes field length (if letterI then 0x69 else 0x64) [.word value]
      (Item.signed field length letterI value).output := by
  intro args
  obtain ⟨low, high⟩ := signedValue_bounds length value
  have sign : signOf (signedValue length value) =
      (if signedValue length value < 0 then some 0x2d else none : Option UInt8).toList := by
    unfold signOf
    split <;> rfl
  have word : (signedValue length value).natAbs < 2 ^ uintmaxBits := by
    unfold uintmaxBits
    omega
  -- the magnitude of the value, the smallest one included
  have magnitude : (if signedValue length value < 0 then
      (2 ^ 64 - toUintmax (signedValue length value)) % 2 ^ 64
      else toUintmax (signedValue length value)) = (signedValue length value).natAbs := by
    unfold toUintmax
    split <;> omega
  rw [Item.output, sign]
  refine ⟨_, ?_, h.outputUnsigned progress (by decide) word false field.zero field.width _⟩
  unfold convert
  have letters : (if letterI then 0x69 else 0x64 : UInt8) = 0x64 ∨
      (if letterI then 0x69 else 0x64 : UInt8) = 0x69 := by cases letterI <;> decide
  rw [if_neg (by cases letterI <;> decide), if_neg (by cases letterI <;> decide),
    if_neg (by cases letterI <;> decide), if_pos letters, ← magnitude]
  rfl

theorem converts_unsigned (length : LengthModifier) (value : BitVec 64) :
    Converts writes sink out bytes field length 0x75 [.word value]
      (Item.unsigned field length value).output := by
  refine fun args => ⟨_, ?_, h.outputUnsigned progress (by decide)
    (unsignedValue_lt length value) false field.zero field.width none⟩
  unfold convert
  rw [if_neg (by decide), if_neg (by decide), if_neg (by decide), if_neg (by decide), if_pos rfl]
  rfl

theorem converts_hex (length : LengthModifier) (uppercase : Bool) (value : BitVec 64) :
    Converts writes sink out bytes field length (if uppercase then 0x58 else 0x78) [.word value]
      (Item.hex field length uppercase value).output := by
  refine fun args => ⟨_, ?_, h.outputUnsigned progress (by decide)
    (unsignedValue_lt length value) uppercase field.zero field.width none⟩
  unfold convert
  have letters : (if uppercase then 0x58 else 0x78 : UInt8) = 0x78 ∨
      (if uppercase then 0x58 else 0x78 : UInt8) = 0x58 := by cases uppercase <;> decide
  have upper_letter : decide ((if uppercase then 0x58 else 0x78 : UInt8) = 0x58) = uppercase := by
    cases uppercase <;> decide
  rw [if_neg (by cases uppercase <;> decide), if_neg (by cases uppercase <;> decide),
    if_neg (by cases uppercase <;> decide), if_neg (by cases uppercase <;> decide),
    if_neg (by cases uppercase <;> decide), if_pos letters, upper_letter]
  rfl

theorem converts_pointer (value : BitVec 64) :
    Converts writes sink out bytes field .default 0x70 [.word value]
      (Item.pointer field value).output := by
  intro args
  rw [Item.output, Field.pad, padTo_hexStart]
  refine ⟨_, ?_, (h.outputPadding progress).bind fun _ padded => (padded.outputBytes progress).bind
    fun _ started => started.outputUnsigned progress (by decide) value.isLt false field.zero _ none⟩
  have count : (if unsignedDigits value.toNat 16 + 2 < field.width then
      field.width - unsignedDigits value.toNat 16 - 2 else 0) =
      field.width - ((numeral lower 16 value.toNat).length + 2) := by
    rw [length_numeral lower (by decide)]
    split <;> omega
  have pointer : argUnsigned .long (.word value :: args) = some (value.toNat, args) := rfl
  unfold convert
  rw [if_neg (by decide), if_neg (by decide), if_neg (by decide), if_neg (by decide),
    if_neg (by decide), if_neg (by decide), if_pos rfl, if_neg (by decide)]
  simp only [List.singleton_append, pointer, count, outputText, Option.bind_eq_bind,
    Option.bind_assoc, Option.bind_some]

end

/-! ### The loop -/

theorem Produced.item (item : Item) (fits : item.output.length ≤ intMax) :
    Rounds writes sink out bytes item.spelling item.args item.output := by
  have padded : ∀ field sign digits, item.output = Field.pad field sign digits →
      field.width ≤ intMax := fun field sign digits printed =>
    Nat.le_trans (Nat.le_max_left ..) (by rwa [printed, length_pad] at fits)
  have spaced : ∀ field text, item.output = Field.padText field text → field.width ≤ intMax :=
    fun field text printed =>
      Nat.le_trans (Nat.le_max_left ..) (by rwa [printed, length_padText] at fits)
  cases item with
  | literal byte ordinary =>
    refine fun fuel rest args => ⟨_, ?_, h.outputCharacter progress⟩
    rw [Item.spelling, List.singleton_append, formatLoop, if_neg (not_not.mpr h.error),
      if_pos ordinary.2]
    rfl
  | percent =>
    exact (converts_percent h progress).rounds h.error (by decide) (by decide) (Nat.zero_le _)
  | char field value =>
    exact (converts_char h progress field value).rounds h.error (by decide) (by decide)
      (spaced _ _ rfl)
  | string field text =>
    exact (converts_string h progress field text).rounds h.error (by decide) (by decide)
      (spaced _ _ rfl)
  | signed field length letterI value =>
    exact (converts_signed h progress field length letterI value).rounds h.error
      (by cases letterI <;> decide) (by cases letterI <;> decide) (padded _ _ _ rfl)
  | unsigned field length value =>
    exact (converts_unsigned h progress field length value).rounds h.error (by decide) (by decide)
      (padded _ _ _ rfl)
  | hex field length uppercase value =>
    exact (converts_hex h progress field length uppercase value).rounds h.error
      (by cases uppercase <;> decide) (by cases uppercase <;> decide) (padded _ _ _ rfl)
  | pointer field value =>
    exact (converts_pointer h progress field value).rounds h.error (by decide) (by decide)
      (padded _ _ _ rfl)

/-- The whole loop produces the output of the items. -/
theorem Produced.formatLoop (items : List Item) (extra : List Arg) {fuel : Nat}
    (enough : (spelling items).length ≤ fuel) : Yields sink bytes (output items)
      (formatLoop writes fuel out (spelling items) (args items ++ extra)) := by
  induction items generalizing out bytes fuel with
  | nil =>
    refine fun _ => ⟨out, ?_, by simpa [output] using h⟩
    rw [spelling, List.flatMap_nil, formatLoop, if_neg (not_not.mpr h.error)]
  | cons item items ih =>
    have split : spelling (item :: items) = item.spelling ++ spelling items := List.flatMap_cons
    have taken : args (item :: items) = item.args ++ args items := List.flatMap_cons
    have made : output (item :: items) = item.output ++ output items := List.flatMap_cons
    rw [split, List.length_append] at enough
    have some_spelled : 0 < item.spelling.length := item.length_spelling_pos
    obtain ⟨left, rfl⟩ : ∃ left, fuel = left + 1 := ⟨fuel - 1, by omega⟩
    intro fits
    have short : item.output.length ≤ intMax := by
      rw [made, List.length_append, List.length_append] at fits
      omega
    obtain ⟨call, round, yields⟩ :=
      h.item progress item short left (spelling items) (args items ++ extra)
    rw [split, taken, List.append_assoc, round]
    rw [made] at fits ⊢
    exact yields.bind (fun _ produced => ih produced (by omega)) fits

end

theorem store_exact (start : List UInt8) (initial : Buffer)
    (room : start.length < initial.length) (byte : UInt8) :
    store (start ++ initial.drop start.length) start.length byte =
      some (start ++ byte :: initial.drop (start.length + 1)) := by
  have inside : start.length < (start ++ initial.drop start.length).length := by
    rw [List.length_append, List.length_drop]
    omega
  rw [store, if_pos inside, List.set_append_right _ _ le_rfl, Nat.sub_self,
    List.drop_eq_getElem_cons room, List.set_cons_zero]

/-- Into memory go the first bytes of the output and a NUL behind them. -/
theorem vsnprintf_eq (items : List Item) (fits : (output items).length ≤ intMax) (extra : List Arg)
    (buffer : Buffer) {size : Nat} (inside : size ≤ buffer.length) :
    vsnprintf buffer size (formatOf items) (args items ++ extra) =
      some (((output items).length : Int),
        if size = 0 then buffer
        else
          let stored := min (output items).length (size - 1)
          (output items).take stored ++ 0 :: buffer.drop (stored + 1)) := by
  have start : Produced (.memory buffer size) ⟨.memory, buffer, size, 0, [], 0, 0, [], 0⟩ [] :=
    ⟨rfl, rfl, rfl, rfl, inside, (Nat.zero_min _).symm, rfl⟩
  have none_needed : Sink.memory buffer size = .fd → Progresses fun _ _ => 0 := nofun
  obtain ⟨after, looped, produced⟩ := start.formatLoop none_needed items extra
    le_rfl fits
  obtain ⟨-, -, -, stored, written⟩ := produced.state
  have counted := produced.count
  rw [List.nil_append] at stored written counted
  rw [vsnprintf, formatOutput]
  change ((formatLoop _ (spelling items).length _ (spelling items) _).bind _) = _
  rw [looped, Option.bind_some, if_neg (not_not.mpr produced.error), counted]
  by_cases empty : size = 0
  · have nothing : after.stored = 0 := by omega
    rw [if_pos empty, if_pos empty, written, nothing, List.take_zero, List.nil_append,
      List.drop_zero]
  · have taken : ((output items).take after.stored).length = after.stored :=
      List.length_take_of_le (by omega)
    have ended := store_exact ((output items).take after.stored) buffer (by omega) 0
    rw [taken, ← written] at ended
    rw [if_neg empty, if_neg empty, ended, stored]
    rfl

/-- Formatted output is exact. Into memory of any size go the first bytes of the output and a
NUL behind them, every other byte stays, and the result is the length of the whole output; a
descriptor takes the whole output in order, however short its writes are. Every integer in
the output reads back as the value of its argument. -/
theorem formatted_output_exact (items : List Item) (fits : (output items).length ≤ intMax)
    (extra : List Arg) :
    (∀ buffer size, size ≤ buffer.length →
      vsnprintf buffer size (formatOf items) (args items ++ extra) =
        some (((output items).length : Int),
          if size = 0 then buffer
          else
            let stored := min (output items).length (size - 1)
            (output items).take stored ++ 0 :: buffer.drop (stored + 1))) ∧
    (∀ writes, Progresses writes →
      vdprintf writes (formatOf items) (args items ++ extra) =
        some (((output items).length : Int), output items)) ∧
    ∀ item ∈ items, ∀ number, item.integer = some number → number.PrintedAs item.output := by
  refine ⟨fun buffer _ => vsnprintf_eq items fits extra buffer, ?_,
    fun item _ number => integer_printed⟩
  intro writes progress
  have start : Produced .fd ⟨.fd, [], 0, 0, [], 0, 0, [], 0⟩ [] :=
    ⟨rfl, rfl, rfl, Nat.zero_lt_succ _, rfl⟩
  obtain ⟨after, looped, produced⟩ := start.formatLoop (fun _ => progress) items extra
    le_rfl fits
  obtain ⟨-, -, sent⟩ := produced.state
  obtain ⟨calls, flushed⟩ := flushChunk_eq progress after
  have counted := produced.count
  rw [List.nil_append] at sent counted
  rw [vdprintf, formatOutput]
  change ((formatLoop _ (spelling items).length _ (spelling items) _).bind _) = _
  rw [looped, Option.bind_some, if_neg (not_not.mpr produced.error), flushed]
  dsimp only
  rw [if_neg (not_not.mpr rfl), sent, counted]

/-- The smallest `int`, padded with zeros to twelve places, in a buffer of six bytes. -/
theorem formatted_output_exact_minimum :
    let items := [Item.signed ⟨true, [1, 2], nofun⟩ .default false 0x80000000]
    vsnprintf [1, 2, 3, 4, 5, 6, 7] 6 (formatOf items) (args items) =
        some (12, [0x2d, 0x30, 0x32, 0x31, 0x34, 0, 7]) ∧
      vdprintf (fun _ _ => 1) (formatOf items) (args items) =
        some (12, [0x2d, 0x30, 0x32, 0x31, 0x34, 0x37, 0x34, 0x38, 0x33, 0x36, 0x34, 0x38]) := by
  intro items
  have printed : output items =
      [0x2d, 0x30, 0x32, 0x31, 0x34, 0x37, 0x34, 0x38, 0x33, 0x36, 0x34, 0x38] := by
    simp [items, output, Item.output, Field.pad, padTo, Field.width, decimalFrom, signOf,
      signedValue, numeral, lowDigits, lower]
  have exact_output := formatted_output_exact items (by rw [printed]; decide) []
  rw [List.append_nil, printed] at exact_output
  exact ⟨exact_output.1 [1, 2, 3, 4, 5, 6, 7] 6 (by decide),
    exact_output.2.1 (fun _ _ => 1) fun _ _ some_left => ⟨Int.one_pos, Int.ofNat_le.mpr some_left⟩⟩

end Genrt.Stdio
