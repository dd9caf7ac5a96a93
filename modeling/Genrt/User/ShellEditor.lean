import Genrt.User.ShellInput

/-!
# What the line editor is for

The bytes of the terminal are keys: a scanner reads the control sequences and reports
what each byte means. The editor itself is a line, the list of all remembered lines and
a draft. It is stated for any alphabet whose symbols have byte codes, so that symbols
can carry where they come from.
-/

namespace Genrt.Shell

/-- What a byte means to the editor. -/
inductive Key where
  | ignored
  | submit
  | erase
  | complete
  | up
  | down
  | text
deriving DecidableEq, Repr

structure Scanner where
  escape : Escape
  escapeBytes : Nat
  skipLf : Bool
deriving DecidableEq, Repr

def Scanner.initial : Scanner := ⟨.none, 0, false⟩

/-- A key that ends a sequence of an arrow key, or nothing. -/
def arrowKey (escapeBytes : Nat) (ch : UInt8) : Key :=
  if escapeBytes = 0 ∧ ch = letterA then .up
  else if escapeBytes = 0 ∧ ch = letterB then .down
  else .ignored

def Scanner.scan (s : Scanner) (ch : UInt8) : Key × Scanner :=
  if s.skipLf ∧ ch = newline then (.ignored, { s with skipLf := false })
  else
    let s := { s with skipLf := false }
    if ch = carriageReturn ∨ ch = newline then
      (.submit, { s with skipLf := ch = carriageReturn, escape := .none })
    else if ch = backspace ∨ ch = delete then (.erase, { s with escape := .none })
    else if ch = tab then (.complete, { s with escape := .none })
    else
      match s.escape with
      | .string =>
        (.ignored, { s with
          escape := if ch = bell then .none else if ch = esc then .stringEnd else .string })
      | .stringEnd =>
        (.ignored, { s with
          escape := if ch = bell ∨ ch = backslash then .none
            else if ch = esc then .stringEnd else .string })
      | escape =>
        if ch = esc then (.ignored, { s with escape := .start, escapeBytes := 0 })
        else
          match escape with
          | .start => (.ignored, { s with escape := afterEscape ch })
          | .intermediate =>
            (.ignored, if ch < 0x20 ∨ 0x2f < ch then { s with escape := .none } else s)
          | .none => (if ch < space then .ignored else .text, s)
          | _ =>
            if 0x40 ≤ ch ∧ ch ≤ 0x7e then (arrowKey s.escapeBytes ch, { s with escape := .none })
            else if s.escapeBytes < escapeMax then
              (.ignored, { s with escapeBytes := s.escapeBytes + 1 })
            else (.ignored, s)

/-- The bytes a line is made of. -/
def Printable (byte : UInt8) : Prop := space ≤ byte ∧ byte ≠ delete

theorem Printable.ne_zero {byte : UInt8} (printable : Printable byte) : byte ≠ 0 := by
  rintro rfl
  exact absurd printable.1 (by decide)

/-- A text byte stands outside of all control sequences. -/
theorem Scanner.scan_text {s : Scanner} {ch : UInt8} (text : (s.scan ch).1 = .text) :
    Printable ch ∧ s.escape = .none ∧ ch ≠ esc := by
  unfold Scanner.scan at text
  split at text
  · cases text
  dsimp only at text
  split at text
  · cases text
  split at text
  · cases text
  next erases =>
  split at text
  · cases text
  split at text
  · cases text
  · cases text
  split at text
  · cases text
  next outside =>
  split at text
  · cases text
  · cases text
  · next free =>
    split at text
    · cases text
    · next above =>
      have high : space ≤ ch := UInt8.not_lt.mp above
      exact ⟨⟨high, fun deletes => erases (.inr deletes)⟩, free, outside⟩
  · split at text
    · dsimp only [arrowKey] at text
      split at text
      · cases text
      · split at text <;> cases text
    · split at text <;> cases text

/-! ### The editor -/

/-- Symbols with byte codes, and the one that stands for a space. -/
structure Alphabet (α : Type) where
  code : α → UInt8
  space : α
  code_space : code space = Shell.space

/-- The line that is edited and the lines it can be replaced by; the newest remembered
line comes first. -/
structure Editor (α : Type) where
  line : List α
  overflow : Bool
  remembered : List (List α)
  draft : List α
  draftOverflow : Bool
  age : Nat
  scanner : Scanner

namespace Editor

variable {α : Type}

def initial : Editor α := ⟨[], false, [], [], false, 0, .initial⟩

/-- The number of remembered lines that can be recalled. -/
def count (e : Editor α) : Nat := min e.remembered.length historyCapacity

def reset (e : Editor α) : Editor α :=
  { e with
    line := [], age := 0, overflow := false
    scanner := { e.scanner with escape := .none, escapeBytes := 0 } }

def retrieve (e : Editor α) : Editor α :=
  { e with
    line := if e.age = 0 then e.draft else e.remembered.getD (e.age - 1) []
    overflow := if e.age = 0 then e.draftOverflow else false }

def up (e : Editor α) : Editor α :=
  if e.age = e.count then e
  else if e.age = 0 then
    retrieve { e with draft := e.line, draftOverflow := e.overflow, age := e.age + 1 }
  else retrieve { e with age := e.age + 1 }

def down (e : Editor α) : Editor α :=
  if e.age = 0 then e else retrieve { e with age := e.age - 1 }

def append (e : Editor α) (a : α) : Editor α :=
  if e.line.length = lineMax then { e with overflow := true }
  else { e with line := e.line ++ [a] }

def erase (e : Editor α) : Editor α := { e with line := e.line.dropLast }

def press (e : Editor α) (a : α) : Key → Editor α
  | .ignored | .submit | .complete => e
  | .erase => e.erase
  | .up => e.up
  | .down => e.down
  | .text => e.append a

section Symbols

variable (A : Alphabet α)

def feed (e : Editor α) (a : α) : Editor α :=
  press { e with scanner := (e.scanner.scan (A.code a)).2 } a (e.scanner.scan (A.code a)).1

/-- The line is new: it fits, is not blank and is not the one remembered last. -/
def Worth (e : Editor α) : Prop :=
  e.overflow = false ∧ e.line.all (isBlank ∘ A.code) = false ∧
    e.remembered.head?.map (List.map A.code) ≠ some (e.line.map A.code)

instance (e : Editor α) : Decidable (e.Worth A) := inferInstanceAs (Decidable (_ ∧ _ ∧ _))

def remember (e : Editor α) : Editor α :=
  if e.Worth A then { e with remembered := e.line :: e.remembered } else e

/-- The names that can complete a word. -/
def Fits (word name : List α) : Prop :=
  name ≠ [] ∧ name.length ≤ lineMax ∧ (∀ a ∈ name, isNameByte (A.code a)) ∧
    word.map A.code <+: name.map A.code

instance (word name : List α) : Decidable (Fits A word name) :=
  inferInstanceAs (Decidable (_ ∧ _ ∧ _ ∧ _))

/-- What two names have in common. -/
def shared (left right : List α) : List α :=
  left.take (CString.commonLength (left.map A.code) (right.map A.code))

/-- The spaces in front of the first word. -/
def blanks (line : List α) : List α := line.takeWhile (fun a => decide (A.code a = space))

def word (line : List α) : List α := line.dropWhile (fun a => decide (A.code a = space))

/-- The line after the names that match have completed its first word. -/
def extend (line : List α) (names : List (List α)) : List α :=
  match names.filter (Fits A (word A line)) with
  | [] => line
  | first :: rest =>
    let common := rest.foldl (shared A) first
    let line' := blanks A line ++ common
    if lineMax < line'.length then line
    else if rest = [] ∧ line'.length < lineMax then line' ++ [A.space]
    else if rest ≠ [] ∧ common.length ≤ (word A line).length then line
    else line'

def complete (e : Editor α) (names : List (List α)) : Editor α :=
  if e.overflow = false ∧ (word A e.line).all (isBare ∘ A.code) then
    { e with line := extend A e.line names }
  else e

end Symbols

end Editor

/-- What is done with the editor. -/
inductive EditorOp (α : Type) where
  | feed (a : α)
  | reset
  | remember
  | complete (names : List (List α))

namespace Editor

variable {α : Type} (A : Alphabet α)

def step (e : Editor α) : EditorOp α → Editor α
  | .feed a => e.feed A a
  | .reset => e.reset
  | .remember => e.remember A
  | .complete names => e.complete A names

variable {A} {e : Editor α}

/-! ### The longest common start -/

theorem shared_isPrefix (left right : List α) : shared A left right <+: left :=
  List.take_prefix ..

theorem map_shared (left right : List α) : (shared A left right).map A.code =
    (left.map A.code).take (CString.commonLength (left.map A.code) (right.map A.code)) :=
  List.map_take

theorem foldl_shared_isPrefix (first : List α) (rest : List (List α)) :
    rest.foldl (shared A) first <+: first := by
  induction rest generalizing first with
  | nil => exact List.prefix_refl _
  | cons name rest ih => exact (ih _).trans (shared_isPrefix ..)

/-- What all names have in common is the longest start of all of them. -/
theorem isPrefix_foldl_shared (start : List UInt8) (first : List α) (rest : List (List α)) :
    start <+: (rest.foldl (shared A) first).map A.code ↔
      ∀ name ∈ first :: rest, start <+: name.map A.code := by
  induction rest generalizing first with
  | nil => simp
  | cons name rest ih =>
    rw [List.foldl_cons, ih]
    simp only [List.forall_mem_cons, map_shared, CString.isPrefix_take_commonLength]
    tauto

/-! ### Lines come from the keys and from the names -/

/-- A property of all lines the editor keeps. -/
structure Every (P : List α → Prop) (e : Editor α) : Prop where
  line : P e.line
  remembered : ∀ line ∈ e.remembered, P line
  draft : P e.draft

variable {P Q : List α → Prop}

section

variable (every : e.Every P)

include every

theorem Every.mono (imp : ∀ line, P line → Q line) : e.Every Q :=
  ⟨imp _ every.line, fun line member => imp line (every.remembered line member), imp _ every.draft⟩

theorem Every.retrieve (empty : P []) : e.retrieve.Every P := by
  refine ⟨?_, every.remembered, every.draft⟩
  dsimp only [Editor.retrieve]
  split
  · exact every.draft
  · rw [List.getD_eq_getElem?_getD]
    cases found : e.remembered[e.age - 1]? with
    | none => exact empty
    | some line => exact every.remembered line (List.mem_of_getElem? found)

theorem Every.up (empty : P []) : e.up.Every P := by
  unfold Editor.up
  split
  · exact every
  · split
    · have saved :
          Every P { e with draft := e.line, draftOverflow := e.overflow, age := e.age + 1 } :=
        ⟨every.line, every.remembered, every.line⟩
      exact saved.retrieve empty
    · have aged : Every P { e with age := e.age + 1 } := { every with }
      exact aged.retrieve empty

theorem Every.down (empty : P []) : e.down.Every P := by
  unfold Editor.down
  split
  · exact every
  · have aged : Every P { e with age := e.age - 1 } := { every with }
    exact aged.retrieve empty

theorem Every.feed (empty : P []) {a : α} (erased : P e.line.dropLast)
    (typed : (e.scanner.scan (A.code a)).1 = .text → e.line.length ≠ lineMax → P (e.line ++ [a])) :
    (e.feed A a).Every P := by
  have moved : Every P { e with scanner := (e.scanner.scan (A.code a)).2 } := { every with }
  unfold Editor.feed
  cases key : (e.scanner.scan (A.code a)).1 with
  | ignored | submit | complete => exact moved
  | erase => exact { moved with line := erased }
  | up => exact moved.up empty
  | down => exact moved.down empty
  | text =>
    dsimp only [Editor.press, Editor.append]
    split
    · exact { moved with }
    · next room => exact { moved with line := typed key room }

theorem Every.remember : (e.remember A).Every P := by
  unfold Editor.remember
  split
  · exact { every with remembered := List.forall_mem_cons.mpr ⟨every.line, every.remembered⟩ }
  · exact every

theorem Every.complete {names : List (List α)} (extended : P (extend A e.line names)) :
    (e.complete A names).Every P := by
  unfold Editor.complete
  split
  · exact { every with line := extended }
  · exact every

end

/-- A completed line is made of the old one, a space and names that fit. -/
theorem mem_extend {line : List α} {names : List (List α)} {a : α}
    (member : a ∈ extend A line names) :
    a ∈ line ∨ a = A.space ∨ ∃ name ∈ names, Fits A (word A line) name ∧ a ∈ name := by
  unfold extend at member
  split at member
  · exact .inl member
  · next first rest found =>
    have fits : first ∈ names ∧ Fits A (word A line) first := by
      simpa using (found ▸ .head _ : first ∈ names.filter (Fits A (word A line)))
    have part : a ∈ blanks A line ++ rest.foldl (shared A) first →
        a ∈ line ∨ a = A.space ∨ ∃ name ∈ names, Fits A (word A line) name ∧ a ∈ name := by
      intro member
      rcases List.mem_append.mp member with blank | common
      · exact .inl ((List.takeWhile_prefix _).subset blank)
      · exact .inr (.inr ⟨first, fits.1, fits.2, (foldl_shared_isPrefix ..).subset common⟩)
    dsimp only at member
    split at member
    · exact .inl member
    · split at member
      · rcases List.mem_append.mp member with old | new
        · exact part old
        · exact .inr (.inl (List.mem_singleton.mp new))
      · split at member
        · exact .inl member
        · exact part member

/-! ### Bounds -/

theorem length_extend_le {line : List α} (names : List (List α)) (bound : line.length ≤ lineMax) :
    (extend A line names).length ≤ lineMax := by
  unfold extend
  split
  · exact bound
  · dsimp only
    split
    · exact bound
    · next fits =>
      split
      · next unique =>
        rw [List.length_append, List.length_singleton]
        exact unique.2
      · split
        · exact bound
        · exact Nat.not_lt.mp fits

/-- Lines fit, and the selected line is there. -/
structure Bounded (e : Editor α) : Prop extends Every (fun line => line.length ≤ lineMax) e where
  age : e.age ≤ e.count

section

variable (bounded : e.Bounded)

include bounded

theorem Bounded.up : e.up.Bounded := by
  refine ⟨bounded.toEvery.up (Nat.zero_le _), ?_⟩
  unfold Editor.up
  split
  · exact bounded.age
  · next inside =>
    have aged : e.age + 1 ≤ e.count := Nat.lt_of_le_of_ne bounded.age inside
    split <;> exact aged

theorem Bounded.down : e.down.Bounded := by
  refine ⟨bounded.toEvery.down (Nat.zero_le _), ?_⟩
  unfold Editor.down
  split
  · exact bounded.age
  · exact Nat.le_trans (Nat.sub_le _ _) bounded.age

theorem Bounded.feed (a : α) : (e.feed A a).Bounded := by
  have line := bounded.line
  have moved : Bounded { e with scanner := (e.scanner.scan (A.code a)).2 } := { bounded with }
  refine ⟨bounded.toEvery.feed (Nat.zero_le _) ?_ fun _ room => ?_, ?_⟩
  · exact Nat.le_trans (List.dropLast_prefix _).length_le line
  · rw [List.length_append, List.length_singleton]
    omega
  · unfold Editor.feed
    cases (e.scanner.scan (A.code a)).1 with
    | ignored | submit | complete | erase => exact bounded.age
    | up => exact moved.up.age
    | down => exact moved.down.age
    | text =>
      dsimp only [Editor.press, Editor.append]
      split <;> exact bounded.age

theorem Bounded.remember : (e.remember A).Bounded := by
  have age := bounded.age
  refine ⟨bounded.toEvery.remember, ?_⟩
  unfold Editor.remember
  split
  · unfold Editor.count at age ⊢
    rw [List.length_cons]
    dsimp only
    omega
  · exact age

theorem Bounded.complete (names : List (List α)) : (e.complete A names).Bounded := by
  refine ⟨bounded.toEvery.complete (length_extend_le names bounded.line), ?_⟩
  unfold Editor.complete
  split <;> exact bounded.age

theorem Bounded.step (op : EditorOp α) : (e.step A op).Bounded := by
  cases op with
  | feed a => exact bounded.feed a
  | reset => exact ⟨{ bounded with line := Nat.zero_le _ }, Nat.zero_le _⟩
  | remember => exact bounded.remember
  | complete names => exact bounded.complete names

end

end Editor

end Genrt.Shell
