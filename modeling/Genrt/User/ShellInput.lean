import Genrt.Foundation.CString

/-!
# The line editor of the shell

The editor keeps a line in a fixed buffer, a ring of remembered lines and a copy of the
line that the user left to look at the ring. Each byte from the terminal is fed to it.
Bytes of control sequences are recognized and dropped; the sequences of the two arrow
keys move through the ring. A computation that leaves a buffer has no result.
-/

namespace Genrt.Shell

open CString

def lineMax : Nat := 256

def historyCapacity : Nat := 16

def escapeMax : Nat := 16

inductive Action where
  | none
  | append
  | erase
  | redraw
  | complete
  | submit
deriving DecidableEq, Repr

/-- How far a control sequence has been read. -/
inductive Escape where
  | none
  | start
  | intermediate
  | csi
  | ss3
  | string
  | stringEnd
deriving DecidableEq, Repr

/-- `age` is zero on the draft and one on the newest entry of the ring. -/
structure Input where
  line : Buffer
  history : List Buffer
  draft : Buffer
  length : Nat
  count : Nat
  next : Nat
  age : Nat
  escapeBytes : Nat
  escape : Escape
  overflow : Bool
  draftOverflow : Bool
  skipLf : Bool

/-- Static storage is zero at first. -/
def Input.initial : Input where
  line := List.replicate (lineMax + 1) 0
  history := List.replicate historyCapacity (List.replicate (lineMax + 1) 0)
  draft := List.replicate (lineMax + 1) 0
  length := 0
  count := 0
  next := 0
  age := 0
  escapeBytes := 0
  escape := .none
  overflow := false
  draftOverflow := false
  skipLf := false

def space : UInt8 := 0x20
def tab : UInt8 := 0x09
def newline : UInt8 := 0x0a
def carriageReturn : UInt8 := 0x0d
def backspace : UInt8 := 0x08
def delete : UInt8 := 0x7f
def bell : UInt8 := 0x07
def backslash : UInt8 := 0x5c
def slash : UInt8 := 0x2f
def esc : UInt8 := 0x1b
def letterA : UInt8 := 0x41
def letterB : UInt8 := 0x42

def isBlank (byte : UInt8) : Bool := byte = space ∨ byte = tab

/-- `shell_input_reset` -/
def reset (input : Input) : Option Input := do
  let line ← store input.line 0 0
  some { input with
    line := line, length := 0, age := 0, overflow := false, escape := .none, escapeBytes := 0 }

/-- Whether the newest entry of the ring is the line. -/
def repeatsNewest (input : Input) : Option Bool :=
  if input.count = 0 then some false
  else do
    let newest ← input.history[(input.next + historyCapacity - 1) % historyCapacity]?
    strcmp newest input.line

/-- `shell_input_remember` -/
def remember (input : Input) : Option Input :=
  if input.overflow then some input
  else do
    let first ← skip isBlank input.line
    let byte ← load input.line first
    if byte = 0 then some input
    else do
      let same ← repeatsNewest input
      if same then some input
      else do
        let slot ← input.history[input.next]?
        let entry ← memcpy slot 0 input.line (input.length + 1)
        some { input with
          history := input.history.set input.next entry
          next := (input.next + 1) % historyCapacity
          count := if input.count < historyCapacity then input.count + 1 else input.count }

/-- The draft or the entry of the ring that `age` selects. -/
def selected (input : Input) : Option Buffer :=
  if input.age = 0 then some input.draft
  else input.history[(input.next + historyCapacity - input.age) % historyCapacity]?

/-- Show the selected line. -/
def retrieve (input : Input) : Option (Action × Input) := do
  let line ← selected input
  let length ← strlen line
  let copied ← memcpy input.line 0 line (length + 1)
  some (.redraw, { input with
    line := copied, length := length
    overflow := if input.age = 0 then input.draftOverflow else false })

/-- `shell_input_history` -/
def history (input : Input) (up : Bool) : Option (Action × Input) :=
  if up then
    if input.age = input.count then some (.none, input)
    else if input.age = 0 then do
      let draft ← memcpy input.draft 0 input.line (input.length + 1)
      retrieve { input with draft := draft, draftOverflow := input.overflow, age := input.age + 1 }
    else retrieve { input with age := input.age + 1 }
  else if input.age = 0 then some (.none, input)
  else retrieve { input with age := input.age - 1 }

/-- What the byte after `ESC` begins. -/
def afterEscape (ch : UInt8) : Escape :=
  if ch = 0x5b then .csi
  else if ch = 0x4f then .ss3
  else if ch = 0x5d ∨ ch = 0x50 ∨ ch = 0x58 ∨ ch = 0x5e ∨ ch = 0x5f then .string
  else if 0x20 ≤ ch ∧ ch ≤ 0x2f then .intermediate
  else .none

/-- Add a byte at the end of the line. -/
def append (input : Input) (ch : UInt8) : Option (Action × Input) :=
  if input.length = lineMax then some (.none, { input with overflow := true })
  else do
    let line ← store input.line input.length ch
    let line ← store line (input.length + 1) 0
    some (.append, { input with line := line, length := input.length + 1 })

/-- Remove the last byte of the line. -/
def erase (input : Input) : Option (Action × Input) :=
  if input.length = 0 then some (.none, input)
  else do
    let line ← store input.line (input.length - 1) 0
    some (.erase, { input with line := line, length := input.length - 1 })

/-- `shell_input_feed` -/
def feed (input : Input) (ch : UInt8) : Option (Action × Input) :=
  if input.skipLf ∧ ch = newline then some (.none, { input with skipLf := false })
  else
    let input := { input with skipLf := false }
    if ch = carriageReturn ∨ ch = newline then
      some (.submit, { input with skipLf := ch = carriageReturn, escape := .none })
    else if ch = backspace ∨ ch = delete then erase { input with escape := .none }
    else if ch = tab then some (.complete, { input with escape := .none })
    else if input.escape = .string ∨ input.escape = .stringEnd then
      if ch = bell ∨ (input.escape = .stringEnd ∧ ch = backslash) then
        some (.none, { input with escape := .none })
      else some (.none, { input with escape := if ch = esc then .stringEnd else .string })
    else if ch = esc then some (.none, { input with escape := .start, escapeBytes := 0 })
    else if input.escape = .start then some (.none, { input with escape := afterEscape ch })
    else if input.escape = .intermediate then
      if ch < 0x20 ∨ 0x2f < ch then some (.none, { input with escape := .none })
      else some (.none, input)
    else if input.escape ≠ .none then
      if 0x40 ≤ ch ∧ ch ≤ 0x7e then
        if input.escapeBytes = 0 ∧ (ch = letterA ∨ ch = letterB) then
          history { input with escape := .none } (ch = letterA)
        else some (.none, { input with escape := .none })
      else if input.escapeBytes < escapeMax then
        some (.none, { input with escapeBytes := input.escapeBytes + 1 })
      else some (.none, input)
    else if ch < space then some (.none, input)
    else append input ch

/-- Whether a byte may stand in a bare word. -/
def isBare (byte : UInt8) : Bool := ¬ (byte = space ∨ byte = tab ∨ byte = slash)

/-- `shell_input_prefix`: where the bare first word starts, if the line is one. -/
def inputPrefix (input : Input) : Option (Option Nat) :=
  if input.overflow then some none
  else do
    let start ← skip (fun byte => byte = space) input.line
    let bare ← all isBare (input.line.drop start)
    some (if bare then some start else none)

/-- The names that match, as far as they agree. The count stops at two. -/
structure Matches where
  common : Buffer
  length : Nat
  count : Nat

def Matches.initial : Matches := ⟨List.replicate (lineMax + 1) 0, 0, 0⟩

/-- Whether a byte may stand in a name. -/
def isNameByte (byte : UInt8) : Bool := ¬ (byte ≤ space ∨ 0x7e < byte ∨ byte = slash)

/-- Keep what a further name has in common with the ones before. -/
def Matches.take (found : Matches) (name : Buffer) (length : Nat) : Option Matches := do
  let count := if found.count < 2 then found.count + 1 else found.count
  if found.count = 0 then
    let common ← memcpy found.common 0 name (length + 1)
    some ⟨common, length, count⟩
  else
    let kept := commonLength (found.common.take found.length) (name.take length)
    let common ← store found.common kept 0
    some ⟨common, kept, count⟩

/-- `shell_match_add` -/
def matchAdd (found : Matches) (word name : Buffer) : Option (Bool × Matches) := do
  let length ← strnlen name (lineMax + 1)
  if length = 0 ∨ lineMax < length then some (false, found)
  else
    let wordLength ← strlen word
    let starts ← strncmp name word wordLength
    if ¬ starts then some (false, found)
    else if ¬ (name.take length).all isNameByte then some (false, found)
    else
      let found ← found.take name length
      some (true, found)

/-- Put the common part of the names in the place of the word. -/
def replaceWord (input : Input) (start : Nat) (found : Matches) : Option (Bool × Input) := do
  let line ← memcpy input.line start found.common found.length
  let length := start + found.length
  if found.count = 1 ∧ length < lineMax then
    let line ← store line length space
    let line ← store line (length + 1) 0
    some (length + 1 ≠ input.length, { input with line := line, length := length + 1 })
  else
    let line ← store line length 0
    some (length ≠ input.length, { input with line := line, length := length })

/-- `shell_input_complete` -/
def inputComplete (input : Input) (found : Matches) : Option (Bool × Input) := do
  match ← inputPrefix input with
  | none => some (false, input)
  | some start =>
    if found.count = 0 then some (false, input)
    else if lineMax - start < found.length then some (false, input)
    else
      let wordLength ← strlen (input.line.drop start)
      if found.length ≤ wordLength ∧ found.count ≠ 1 then some (false, input)
      else replaceWord input start found

/-- The part of `complete_input` that changes the line: the names are matched against the
first word one after the other. -/
def complete (input : Input) (names : List Text) : Option Input := do
  match ← inputPrefix input with
  | none => some input
  | some start =>
    let found ← names.foldlM (fun found name => do
      let (_, found) ← matchAdd found (input.line.drop start) name.buffer
      some found) Matches.initial
    let (_, input) ← inputComplete input found
    some input

/-- What the shell does with its editor. -/
inductive Op where
  | feed (ch : UInt8)
  | reset
  | remember
  | complete (names : List Text)

def step (input : Input) : Op → Option Input
  | .feed ch => (feed input ch).map Prod.snd
  | .reset => reset input
  | .remember => remember input
  | .complete names => complete input names

/-- The state after a sequence of operations. -/
def run (ops : List Op) : Option Input := ops.foldlM step Input.initial

end Genrt.Shell
