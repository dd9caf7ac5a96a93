import Mathlib

/-!
# Strings in buffers

A buffer is a fixed number of bytes. It holds a string if the bytes of the string stand
at its start and a zero byte ends them. The operations of the C library read and write
buffers; an access outside of a buffer has no result.
-/

namespace CString

abbrev Buffer := List UInt8

/-- The buffer holds the string. -/
structure Holds (buffer : Buffer) (text : List UInt8) : Prop where
  nonzero : 0 ∉ text
  content : text ++ [0] <+: buffer

/-- A string that a pointer may be handed. -/
abbrev Text := { bytes : List UInt8 // 0 ∉ bytes }

/-- The bytes of a string with the zero that ends them. -/
def Text.buffer (text : Text) : Buffer := text.val ++ [0]

def load (buffer : Buffer) (index : Nat) : Option UInt8 := buffer[index]?

def store (buffer : Buffer) (index : Nat) (byte : UInt8) : Option Buffer :=
  if index < buffer.length then some (buffer.set index byte) else none

/-- The number of bytes in front of the first zero byte. -/
def strlen : Buffer → Option Nat
  | [] => none
  | byte :: rest => if byte = 0 then some 0 else (strlen rest).map (· + 1)

/-- The same, but no byte from `limit` on is read. -/
def strnlen : Buffer → Nat → Option Nat
  | _, 0 => some 0
  | [], _ + 1 => none
  | byte :: rest, limit + 1 => if byte = 0 then some 0 else (strnlen rest limit).map (· + 1)

/-- `memcpy` of the first bytes of a source to an offset in a buffer. -/
def memcpy (buffer : Buffer) (offset : Nat) (source : Buffer) (size : Nat) : Option Buffer :=
  if offset + size ≤ buffer.length ∧ size ≤ source.length then
    some (buffer.take offset ++ source.take size ++ buffer.drop (offset + size))
  else none

/-- Whether `strcmp` finds no difference. -/
def strcmp : Buffer → Buffer → Option Bool
  | left :: lefts, right :: rights =>
    if left ≠ right then some false else if left = 0 then some true else strcmp lefts rights
  | _, _ => none

/-- Whether `strncmp` finds no difference in the first `limit` bytes. -/
def strncmp : Buffer → Buffer → Nat → Option Bool
  | _, _, 0 => some true
  | left :: lefts, right :: rights, limit + 1 =>
    if left ≠ right then some false else if left = 0 then some true
    else strncmp lefts rights limit
  | _, _, _ + 1 => none

/-- The number of bytes at the start of a buffer that are passed over. -/
def skip (pass : UInt8 → Bool) : Buffer → Option Nat
  | [] => none
  | byte :: rest => if pass byte then (skip pass rest).map (· + 1) else some 0

/-- Whether all bytes of a string pass a test. -/
def all (test : UInt8 → Bool) : Buffer → Option Bool
  | [] => none
  | byte :: rest => if byte = 0 then some true else if test byte then all test rest else some false

/-- The number of bytes at the start of two lists that agree. -/
def commonLength : List UInt8 → List UInt8 → Nat
  | left :: lefts, right :: rights => if left = right then commonLength lefts rights + 1 else 0
  | _, _ => 0

variable {buffer other : Buffer} {text string : List UInt8}

theorem commonLength_le (left right : List UInt8) : commonLength left right ≤ left.length := by
  induction left, right using commonLength.induct with
  | case1 left lefts rights ih =>
    rw [commonLength, if_pos rfl, List.length_cons]
    omega
  | case2 left lefts right rights differ =>
    rw [commonLength, if_neg differ]
    exact Nat.zero_le _
  | case3 left right _ =>
    rw [commonLength]
    · exact Nat.zero_le _
    · assumption

theorem isPrefix_take_commonLength (start left right : List UInt8) :
    start <+: left.take (commonLength left right) ↔ start <+: left ∧ start <+: right := by
  induction left, right using commonLength.induct generalizing start with
  | case1 left lefts rights ih =>
    rw [commonLength, if_pos rfl, List.take_succ_cons]
    cases start with
    | nil => simp
    | cons byte bytes =>
      simp only [List.cons_prefix_cons, ih]
      tauto
  | case2 left lefts right rights differ =>
    rw [commonLength, if_neg differ, List.take_zero, List.prefix_nil]
    cases start with
    | nil => simp
    | cons byte bytes =>
      simp only [List.cons_prefix_cons]
      constructor
      · nofun
      · rintro ⟨⟨same, _⟩, ⟨other, _⟩⟩
        exact absurd (same.symm.trans other) differ
  | case3 left right shapes =>
    rw [commonLength, List.take_zero, List.prefix_nil]
    · constructor
      · rintro rfl
        exact ⟨List.nil_prefix, List.nil_prefix⟩
      · rintro ⟨first, second⟩
        cases left with
        | nil => exact List.prefix_nil.mp first
        | cons l ls =>
          cases right with
          | nil => exact List.prefix_nil.mp second
          | cons r rs => exact absurd rfl (shapes l ls r rs rfl)
    · assumption

/-! ### Writing behind the start of a buffer -/

theorem store_starts {start : List UInt8} (content : start <+: buffer) (byte : UInt8)
    (room : start.length < buffer.length) :
    ∃ written, store buffer start.length byte = some written ∧ start ++ [byte] <+: written ∧
      written.length = buffer.length := by
  obtain ⟨rest, rfl⟩ := content
  cases rest with
  | nil => simp at room
  | cons old rest =>
    refine ⟨_, if_pos room, ⟨rest, ?_⟩, List.length_set⟩
    simp

theorem memcpy_starts {start bytes : List UInt8} (content : start <+: buffer)
    (source : bytes <+: other) (room : start.length + bytes.length ≤ buffer.length) :
    ∃ written, memcpy buffer start.length other bytes.length = some written ∧
      start ++ bytes <+: written ∧ written.length = buffer.length := by
  have taken : other.take bytes.length = bytes := (List.prefix_iff_eq_take.mp source).symm
  have kept : buffer.take start.length = start := (List.prefix_iff_eq_take.mp content).symm
  refine ⟨_, if_pos ⟨room, source.length_le⟩, ?_, ?_⟩
  · rw [taken, kept]
    exact List.prefix_append ..
  · rw [taken, kept, List.length_append, List.length_append, List.length_drop]
    omega

/-- A copy behind the start of a buffer. -/
theorem memcpy_append (start rest source : Buffer) {size : Nat} (room : size ≤ rest.length)
    (enough : size ≤ source.length) : memcpy (start ++ rest) start.length source size =
      some (start ++ source.take size ++ rest.drop size) := by
  have fits : start.length + size ≤ (start ++ rest).length := by
    rw [List.length_append]
    omega
  rw [memcpy, if_pos ⟨fits, enough⟩, List.take_left' rfl, ← List.drop_drop, List.drop_left' rfl]

/-- A zero byte behind the start ends a string. -/
theorem store_end (content : text <+: buffer) (nonzero : 0 ∉ text)
    (room : text.length < buffer.length) :
    ∃ written, store buffer text.length 0 = some written ∧ Holds written text ∧
      written.length = buffer.length := by
  obtain ⟨written, stored, ended, size⟩ := store_starts content 0 room
  exact ⟨written, stored, ⟨nonzero, ended⟩, size⟩

theorem takeWhile_nonzero (nonzero : 0 ∉ text) {rest : Buffer} :
    (text ++ 0 :: rest).takeWhile (fun byte => decide (byte ≠ 0)) = text := by
  have passed : ∀ byte ∈ text, decide (byte ≠ 0) = true :=
    fun byte member => decide_eq_true fun zero => nonzero (zero ▸ member)
  rw [List.takeWhile_append_of_pos passed]
  simp

namespace Holds

theorem length_lt (h : Holds buffer text) : text.length < buffer.length := by
  have bound := h.content.length_le
  rwa [List.length_append, List.length_singleton] at bound

/-- The bytes after the string. -/
theorem eq_append (h : Holds buffer text) : ∃ rest, buffer = text ++ 0 :: rest := by
  obtain ⟨rest, split⟩ := h.content
  exact ⟨rest, by rw [← split, List.append_assoc, List.singleton_append]⟩

theorem of_append (nonzero : 0 ∉ text) (rest : Buffer) : Holds (text ++ 0 :: rest) text :=
  ⟨nonzero, rest, by rw [List.append_assoc, List.singleton_append]⟩

theorem buffer_text (text : Text) : Holds text.buffer text.val := of_append text.property []

/-- A buffer holds one string. -/
theorem unique (left : Holds buffer text) (right : Holds buffer string) : text = string := by
  obtain ⟨rest, split⟩ := left.eq_append
  obtain ⟨tail, same⟩ := right.eq_append
  rw [← takeWhile_nonzero left.nonzero, ← takeWhile_nonzero right.nonzero, ← split, ← same]

/-- The string behind some of its bytes. -/
theorem drop (h : Holds buffer text) {index : Nat} (bound : index ≤ text.length) :
    Holds (buffer.drop index) (text.drop index) := by
  obtain ⟨rest, rfl⟩ := h.eq_append
  rw [List.drop_append_of_le_length bound]
  exact of_append (fun member => h.nonzero (List.mem_of_mem_drop member)) rest

theorem strlen_eq (h : Holds buffer text) : strlen buffer = some text.length := by
  obtain ⟨rest, rfl⟩ := h.eq_append
  have nonzero := h.nonzero
  clear h
  induction text with
  | nil => simp [strlen]
  | cons byte bytes ih =>
    rw [List.mem_cons, not_or] at nonzero
    rw [List.cons_append, strlen, if_neg (Ne.symm nonzero.1), ih nonzero.2]
    rfl

theorem strnlen_eq (h : Holds buffer text) (limit : Nat) :
    strnlen buffer limit = some (min text.length limit) := by
  obtain ⟨rest, rfl⟩ := h.eq_append
  have nonzero := h.nonzero
  clear h
  induction text generalizing limit with
  | nil =>
    cases limit with
    | zero => rfl
    | succ limit => simp [strnlen]
  | cons byte bytes ih =>
    rw [List.mem_cons, not_or] at nonzero
    cases limit with
    | zero => rfl
    | succ limit =>
      rw [List.cons_append, strnlen, if_neg (Ne.symm nonzero.1), ih limit nonzero.2,
        List.length_cons, Nat.succ_min_succ]
      rfl

theorem strcmp_eq (left : Holds buffer text) (right : Holds other string) :
    strcmp buffer other = some (decide (text = string)) := by
  obtain ⟨rest, rfl⟩ := left.eq_append
  obtain ⟨tail, rfl⟩ := right.eq_append
  have nonzero := left.nonzero
  have nonzero' := right.nonzero
  clear left right
  induction text generalizing string with
  | nil =>
    cases string with
    | nil => simp [strcmp]
    | cons byte bytes =>
      rw [List.mem_cons, not_or] at nonzero'
      simp [strcmp, nonzero'.1]
  | cons byte bytes ih =>
    rw [List.mem_cons, not_or] at nonzero
    cases string with
    | nil => simp [strcmp, Ne.symm nonzero.1]
    | cons byte' bytes' =>
      rw [List.mem_cons, not_or] at nonzero'
      rw [List.cons_append, List.cons_append, strcmp]
      by_cases same : byte = byte'
      · rw [if_neg (not_not.mpr same), if_neg (Ne.symm nonzero.1), ih nonzero.2 nonzero'.2]
        simp [same]
      · rw [if_pos same]
        simp [same]

/-- A comparison of as many bytes as the second string has finds out whether it is the
start of the first. -/
theorem strncmp_eq (left : Holds buffer text) (right : Holds other string) :
    strncmp buffer other string.length = some (string.isPrefixOf text) := by
  obtain ⟨rest, rfl⟩ := left.eq_append
  obtain ⟨tail, rfl⟩ := right.eq_append
  have nonzero := right.nonzero
  clear left right
  induction string generalizing text with
  | nil => simp [strncmp]
  | cons byte bytes ih =>
    rw [List.mem_cons, not_or] at nonzero
    cases text with
    | nil => simp [strncmp, nonzero.1]
    | cons byte' bytes' =>
      rw [List.cons_append, List.cons_append, List.length_cons, strncmp]
      by_cases same : byte' = byte
      · subst same
        rw [if_neg (not_not.mpr rfl), if_neg (Ne.symm nonzero.1), ih nonzero.2]
        simp
      · rw [if_pos same]
        simp [List.isPrefixOf, Ne.symm same]

theorem skip_eq (h : Holds buffer text) {pass : UInt8 → Bool} (stops : pass 0 = false) :
    skip pass buffer = some (text.takeWhile pass).length := by
  obtain ⟨rest, rfl⟩ := h.eq_append
  clear h
  induction text with
  | nil => simp [skip, stops]
  | cons byte bytes ih =>
    rw [List.cons_append, skip, List.takeWhile_cons]
    split
    · rw [ih]
      rfl
    · rfl

/-- The byte that stops a skip is the end of the string if all of it is passed over. -/
theorem load_skip (h : Holds buffer text) (pass : UInt8 → Bool) :
    ∃ byte, load buffer (text.takeWhile pass).length = some byte ∧
      (byte = 0 ↔ text.all pass = true) := by
  obtain ⟨rest, rfl⟩ := h.eq_append
  have nonzero := h.nonzero
  clear h
  induction text with
  | nil => exact ⟨0, rfl, by simp⟩
  | cons first bytes ih =>
    rw [List.mem_cons, not_or] at nonzero
    rw [List.takeWhile_cons, List.all_cons]
    cases passed : pass first with
    | true =>
      obtain ⟨byte, loaded, stops⟩ := ih nonzero.2
      exact ⟨byte, loaded, by rw [Bool.true_and]; exact stops⟩
    | false => exact ⟨first, rfl, by simpa using Ne.symm nonzero.1⟩

theorem all_eq (h : Holds buffer text) (test : UInt8 → Bool) :
    all test buffer = some (text.all test) := by
  obtain ⟨rest, rfl⟩ := h.eq_append
  have nonzero := h.nonzero
  clear h
  induction text with
  | nil => simp [all]
  | cons byte bytes ih =>
    rw [List.mem_cons, not_or] at nonzero
    rw [List.cons_append, all, if_neg (Ne.symm nonzero.1), ih nonzero.2, List.all_cons]
    cases test byte <;> rfl

/-- A string is copied with the zero that ends it. -/
theorem memcpy_string (source : Holds other text) (room : text.length < buffer.length) :
    ∃ copied, memcpy buffer 0 other (text.length + 1) = some copied ∧
      Holds copied text ∧ copied.length = buffer.length := by
  have fits : 0 + (text ++ [0]).length ≤ buffer.length := by
    rw [List.length_append, List.length_singleton]
    omega
  obtain ⟨copied, copies, content, size⟩ := memcpy_starts List.nil_prefix source.content fits
  rw [List.length_append, List.length_singleton] at copies
  exact ⟨copied, copies, ⟨source.nonzero, content⟩, size⟩

/-- A byte is added, and a new zero behind it. -/
theorem store_push (h : Holds buffer text) {byte : UInt8} (nonzero : byte ≠ 0)
    (room : text.length + 1 < buffer.length) :
    ∃ written ended, store buffer text.length byte = some written ∧
      store written (text.length + 1) 0 = some ended ∧ Holds ended (text ++ [byte]) ∧
      ended.length = buffer.length := by
  have start : text <+: buffer := (List.prefix_append ..).trans h.content
  obtain ⟨written, first, pushed, size⟩ := store_starts start byte h.length_lt
  have inside : (text ++ [byte]).length < written.length := by
    rw [List.length_append, List.length_singleton, size]
    exact room
  have clean : 0 ∉ text ++ [byte] := by
    rw [List.mem_append, List.mem_singleton, not_or]
    exact ⟨h.nonzero, Ne.symm nonzero⟩
  obtain ⟨ended, second, holds, same⟩ := store_end pushed clean inside
  rw [List.length_append, List.length_singleton] at second
  exact ⟨written, ended, first, second, holds, same.trans size⟩

/-- The string is cut by a zero byte. -/
theorem store_cut (h : Holds buffer text) {size : Nat} (bound : size ≤ text.length) :
    ∃ written, store buffer size 0 = some written ∧ Holds written (text.take size) ∧
      written.length = buffer.length := by
  have length : (text.take size).length = size := List.length_take_of_le bound
  have start : text.take size <+: buffer :=
    ((List.take_prefix ..).trans (List.prefix_append ..)).trans h.content
  have clean : 0 ∉ text.take size := fun member => h.nonzero (List.mem_of_mem_take member)
  have room : (text.take size).length < buffer.length := by
    rw [length]
    exact Nat.lt_of_le_of_lt bound h.length_lt
  obtain ⟨written, stored, holds, same⟩ := store_end start clean room
  rw [length] at stored
  exact ⟨written, stored, holds, same⟩

end Holds

end CString
