import Genrt.User.ShellRefinement

/-!
# The line editor is faithful

The symbols of the line are marked with where they come from: the index of the operation
that fed them or whose names they are from, or the space behind a unique name. Along every run
each byte of the line was fed outside of the control sequences or comes from a completion, the
ring holds the newest remembered lines, and the arrow keys lead back to the line they started
from.
-/

namespace Genrt.Shell

open CString

/-- The bytes themselves. -/
def plain : Alphabet UInt8 := ⟨id, space, rfl⟩

/-- Where a symbol comes from. -/
inductive Origin where
  | typed (index : Nat)
  | named (index : Nat)
  | blank
deriving DecidableEq, Repr

structure Symbol where
  byte : UInt8
  origin : Origin
deriving DecidableEq, Repr

def marking : Alphabet Symbol := ⟨Symbol.byte, ⟨space, .blank⟩, rfl⟩

/-- The operation at an index, with marked symbols. -/
def mark (index : Nat) : Op → EditorOp Symbol
  | .feed ch => .feed ⟨ch, .typed index⟩
  | .reset => .reset
  | .remember => .remember
  | .complete names => .complete (names.map fun name => name.val.map (⟨·, .named index⟩))

theorem marks_mark (index : Nat) (op : Op) : Marks marking op (mark index op) := by
  cases op with
  | feed ch => exact .feed (A := marking) ⟨ch, .typed index⟩
  | reset => exact .reset
  | remember => exact .remember
  | complete names =>
    refine .complete ?_
    unfold Spells
    rw [List.forall₂_map_right_iff, List.forall₂_same]
    intro name _
    rw [List.map_map]
    exact (List.map_id _).symm

/-- The operation on bytes. -/
def unmarked : Op → EditorOp UInt8
  | .feed ch => .feed ch
  | .reset => .reset
  | .remember => .remember
  | .complete names => .complete (names.map Subtype.val)

theorem marks_unmarked (op : Op) : Marks plain op (unmarked op) := by
  cases op with
  | feed ch => exact .feed (A := plain) ch
  | reset => exact .reset
  | remember => exact .remember
  | complete names =>
    refine .complete ?_
    unfold Spells
    rw [List.forall₂_map_right_iff, List.forall₂_same]
    intro name _
    exact (List.map_id _).symm

/-- The editor after a run. -/
def editor (ops : List Op) : Editor UInt8 :=
  (ops.map unmarked).foldl (Editor.step plain) .initial

/-- The editor with marked symbols after a run. -/
def markedEditor (ops : List Op) : Editor Symbol :=
  (ops.mapIdx mark).foldl (Editor.step marking) .initial

theorem bounded_initial {α : Type} : (Editor.initial : Editor α).Bounded :=
  ⟨⟨Nat.zero_le _, nofun, Nat.zero_le _⟩, Nat.zero_le _⟩

theorem represents_editor (ops : List Op) :
    ∃ input, run ops = some input ∧ Represents plain input (editor ops) ∧ (editor ops).Bounded := by
  refine represents_run ?_ represents_initial bounded_initial
  rw [List.forall₂_map_right_iff, List.forall₂_same]
  exact fun op _ => marks_unmarked op

theorem represents_marked (ops : List Op) :
    ∃ input, run ops = some input ∧ Represents marking input (markedEditor ops) ∧
      (markedEditor ops).Bounded := by
  refine represents_run ?_ represents_initial bounded_initial
  rw [List.forall₂_iff_get]
  refine ⟨List.length_mapIdx.symm, fun i inside _ => ?_⟩
  simp only [List.get_eq_getElem, List.getElem_mapIdx]
  exact marks_mark i _

/-! ### Where the bytes come from -/

/-- The byte was fed while no control sequence was being read, and starts none; or it is from a
name of a completion, or the space that a completion appends. -/
def Sourced (ops : List Op) (symbol : Symbol) : Prop :=
  match symbol.origin with
  | .typed index => ∃ before, ops[index]? = some (.feed symbol.byte) ∧
      run (ops.take index) = some before ∧ before.escape = .none ∧ symbol.byte ≠ esc
  | .named index => ∃ names name, ops[index]? = some (.complete names) ∧ name ∈ names ∧
      symbol.byte ∈ name.val
  | .blank => symbol.byte = space ∧ ∃ names, .complete names ∈ ops

theorem Sourced.concat {ops : List Op} {symbol : Symbol} (sourced : Sourced ops symbol) (op : Op) :
    Sourced (ops ++ [op]) symbol := by
  have found : ∀ {index : Nat} {old : Op}, ops[index]? = some old →
      (ops ++ [op])[index]? = some old := by
    intro index old found
    rw [List.getElem?_append_left (List.getElem?_eq_some_iff.mp found).1, found]
  obtain ⟨byte, origin⟩ := symbol
  cases origin with
  | typed index =>
    obtain ⟨before, fed, ran, free, ordinary⟩ := sourced
    have inside := (List.getElem?_eq_some_iff.mp fed).1
    refine ⟨before, found fed, ?_, free, ordinary⟩
    rw [List.take_append_of_le_length (Nat.le_of_lt inside), ran]
  | named index =>
    obtain ⟨names, name, completed, given, member⟩ := sourced
    exact ⟨names, name, found completed, given, member⟩
  | blank =>
    obtain ⟨byte, names, completed⟩ := sourced
    exact ⟨byte, names, List.mem_append_left _ completed⟩

theorem markedEditor_concat (ops : List Op) (op : Op) :
    markedEditor (ops ++ [op]) = (markedEditor ops).step marking (mark ops.length op) := by
  rw [markedEditor, List.mapIdx_concat, List.foldl_concat]
  rfl

theorem printable_of_isNameByte {byte : UInt8} (name : isNameByte byte) : Printable byte := by
  unfold isNameByte at name
  simp only [decide_eq_true_eq, not_or] at name
  refine ⟨UInt8.le_of_lt (UInt8.not_le.mp name.1), ?_⟩
  rintro rfl
  exact absurd name.2.1 (by decide)

/-- The symbols are printable and have a source. -/
def AllSourced (ops : List Op) (line : List Symbol) : Prop :=
  ∀ symbol ∈ line, Printable symbol.byte ∧ Sourced ops symbol

/-- Every symbol of the editor is printable and has a source. -/
theorem every_symbol (ops : List Op) : (markedEditor ops).Every (AllSourced ops) := by
  induction ops using List.reverseRecOn with
  | nil => exact ⟨nofun, nofun, nofun⟩
  | append_singleton ops op ih =>
    obtain ⟨input, ran, represents, _⟩ := represents_marked ops
    have kept : (markedEditor ops).Every (AllSourced (ops ++ [op])) :=
      ih.mono fun _ old s member => ⟨(old s member).1, (old s member).2.concat op⟩
    rw [markedEditor_concat]
    cases op with
    | feed ch =>
      refine kept.feed nofun ?_ fun text _ => ?_
      · exact fun s member => kept.line s (List.mem_of_mem_dropLast member)
      obtain ⟨printable, free, ordinary⟩ := Scanner.scan_text text
      have escape : input.escape = .none := (congrArg Scanner.escape represents.scanner).trans free
      refine List.forall_mem_append.mpr ⟨kept.line, List.forall_mem_singleton.mpr ⟨printable, ?_⟩⟩
      refine ⟨input, List.getElem?_concat_length, ?_, escape, ordinary⟩
      rw [List.take_left' rfl, ran]
    | reset => exact { kept with line := nofun }
    | remember => exact kept.remember
    | complete names =>
      have last : Op.complete names ∈ ops ++ [.complete names] := List.mem_concat_self
      refine kept.complete fun s member => ?_
      rcases Editor.mem_extend member with old | rfl | ⟨name, given, fits, inside⟩
      · exact kept.line s old
      · exact ⟨⟨UInt8.le_refl _, by decide⟩, rfl, names, last⟩
      · refine ⟨printable_of_isNameByte (fits.2.2.1 s inside), ?_⟩
        obtain ⟨text, original, rfl⟩ := List.mem_map.mp given
        obtain ⟨byte, present, rfl⟩ := List.mem_map.mp inside
        exact ⟨names, text, List.getElem?_concat_length, original, present⟩

/-! ### Arrow keys -/

/-- Terminals send an arrow key as a CSI or as an SS3 sequence. -/
inductive ArrowForm where
  | csi
  | ss3
deriving DecidableEq, Repr

def ArrowForm.introducer : ArrowForm → UInt8
  | .csi => 0x5b
  | .ss3 => 0x4f

def arrowLetter (up : Bool) : UInt8 := if up then letterA else letterB

/-- The three bytes of an arrow key; the action is that of the last byte. -/
def arrow (input : Input) (form : ArrowForm) (up : Bool) : Option (Action × Input) := do
  let (_, input) ← feed input esc
  let (_, input) ← feed input form.introducer
  feed input (arrowLetter up)

/-- Arrow keys one after the other, with the actions of all of them. -/
def arrows (input : Input) (up : Bool) : List ArrowForm → Option (List Action × Input)
  | [] => some ([], input)
  | form :: forms => do
      let (action, input) ← arrow input form up
      let (actions, input) ← arrows input up forms
      some (action :: actions, input)

/-- No sequence is being read. -/
def quiet : Scanner := ⟨.none, 0, false⟩

/-- Outside of string controls the bytes of an arrow key are its key. -/
theorem arrow_quiet {input : Input} (free : input.escape ≠ .string ∧ input.escape ≠ .stringEnd)
    (form : ArrowForm) (up : Bool) : arrow input form up = history (input.setScanner quiet) up := by
  have first : input.scanner.scan esc = (.ignored, ⟨.start, 0, false⟩) := by
    unfold Scanner.scan Input.scanner
    cases escape : input.escape <;> simp_all [esc, newline, carriageReturn, backspace, delete, tab]
  have second : Scanner.scan ⟨.start, 0, false⟩ form.introducer =
      (.ignored, ⟨if form = .csi then .csi else .ss3, 0, false⟩) := by
    cases form <;> decide
  have third : Scanner.scan ⟨if form = .csi then .csi else .ss3, 0, false⟩ (arrowLetter up) =
      (if up then .up else .down, quiet) := by
    cases form <;> cases up <;> decide
  have started : (input.setScanner ⟨.start, 0, false⟩).scanner = ⟨.start, 0, false⟩ := rfl
  unfold arrow
  rw [feed_eq, first]
  simp only [press, Option.bind_eq_bind, Option.bind_some]
  rw [feed_eq, started, second]
  simp only [press, Option.bind_some]
  rw [feed_eq, show ((input.setScanner ⟨.start, 0, false⟩).setScanner
    ⟨if form = .csi then .csi else .ss3, 0, false⟩).scanner =
      ⟨if form = .csi then .csi else .ss3, 0, false⟩ from rfl, third]
  cases up <;> rfl

/-- Inside of a string control an arrow key does not move. -/
theorem arrow_string {input after : Input} {action : Action}
    (inside : ¬ (input.escape ≠ .string ∧ input.escape ≠ .stringEnd)) {form : ArrowForm} {up : Bool}
    (pressed : arrow input form up = some (action, after)) : action = .none := by
  have first : (input.scanner.scan esc) = (.ignored, ⟨.stringEnd, input.escapeBytes, false⟩) := by
    unfold Scanner.scan Input.scanner
    cases escape : input.escape <;>
      simp_all [esc, newline, carriageReturn, backspace, delete, tab, bell, backslash]
  have second : Scanner.scan ⟨.stringEnd, input.escapeBytes, false⟩ form.introducer =
      (.ignored, ⟨.string, input.escapeBytes, false⟩) := by
    cases form <;> rfl
  have third : (Scanner.scan ⟨.string, input.escapeBytes, false⟩ (arrowLetter up)).1 =
      .ignored := by
    cases up <;> rfl
  unfold arrow at pressed
  rw [feed_eq, first] at pressed
  simp only [press, Option.bind_eq_bind, Option.bind_some] at pressed
  rw [feed_eq, show (input.setScanner ⟨.stringEnd, input.escapeBytes, false⟩).scanner =
    ⟨.stringEnd, input.escapeBytes, false⟩ from rfl, second] at pressed
  simp only [press, Option.bind_some] at pressed
  rw [feed_eq, show ((input.setScanner ⟨.stringEnd, input.escapeBytes, false⟩).setScanner
    ⟨.string, input.escapeBytes, false⟩).scanner = ⟨.string, input.escapeBytes, false⟩ from rfl,
    third] at pressed
  cases pressed
  rfl

/-- The editor has gone `lines` lines away from where it was. -/
structure Away (home : Editor UInt8) (e : Editor UInt8) (lines : Nat) : Prop where
  age : e.age = lines
  remembered : e.remembered = home.remembered
  line : lines = 0 → e.line = home.line ∧ e.overflow = home.overflow
  draft : lines ≠ 0 → e.draft = home.line ∧ e.draftOverflow = home.overflow ∧ e.scanner = quiet

variable {home e : Editor UInt8} {input after : Input} {age : Nat}

theorem Away.up (away : Away home e age) (moves : e.age ≠ e.count) :
    Away home (Editor.up { e with scanner := quiet }) (age + 1) := by
  have last :
      ¬ (Editor.age { e with scanner := quiet } = Editor.count { e with scanner := quiet }) :=
    moves
  unfold Editor.up
  rw [if_neg last]
  by_cases zero : age = 0
  · rw [if_pos (away.age.trans zero)]
    have line := away.line zero
    exact ⟨congrArg (· + 1) away.age, away.remembered, nofun, fun _ => ⟨line.1, line.2, rfl⟩⟩
  · rw [if_neg (by dsimp only; rw [away.age]; exact zero)]
    have draft := away.draft zero
    exact ⟨congrArg (· + 1) away.age, away.remembered, nofun, fun _ => ⟨draft.1, draft.2.1, rfl⟩⟩

theorem Away.down (away : Away home e (age + 1)) :
    Away home (Editor.down { e with scanner := quiet }) age := by
  have draft := away.draft (Nat.succ_ne_zero _)
  have moved : e.age - 1 = age := by rw [away.age, Nat.add_sub_cancel]
  unfold Editor.down
  rw [if_neg (by dsimp only; rw [away.age]; exact Nat.succ_ne_zero _)]
  refine ⟨moved, away.remembered, fun zero => ?_, fun _ => ⟨draft.1, draft.2.1, rfl⟩⟩
  unfold Editor.retrieve
  dsimp only
  rw [if_pos (moved.trans zero), if_pos (moved.trans zero)]
  exact ⟨draft.1, draft.2.1⟩

theorem bounded_quiet (bounded : e.Bounded) : Editor.Bounded { e with scanner := quiet } :=
  { bounded with }

/-- Up keys that all move go away from home, one line each. -/
theorem arrows_up (forms : List ArrowForm) {actions : List Action}
    (h : Represents plain input e) (bounded : e.Bounded) (away : Away home e age)
    (pressed : arrows input true forms = some (actions, after))
    (moved : ∀ action ∈ actions, action = .redraw) :
    ∃ e', Represents plain after e' ∧ e'.Bounded ∧ Away home e' (age + forms.length) := by
  induction forms generalizing input e age actions with
  | nil =>
    cases pressed
    exact ⟨e, h, bounded, away⟩
  | cons form forms ih =>
    rw [arrows, Option.bind_eq_bind, Option.bind_eq_some_iff] at pressed
    obtain ⟨⟨action, next⟩, first, rest⟩ := pressed
    dsimp only at rest
    rw [Option.bind_eq_bind, Option.bind_eq_some_iff] at rest
    obtain ⟨⟨others, last⟩, second, same⟩ := rest
    cases same
    have redraws := moved action (.head _)
    by_cases free : input.escape ≠ .string ∧ input.escape ≠ .stringEnd
    · obtain ⟨shown, follow, went, represents, moves⟩ :=
        (h.setScanner quiet).up (bounded_quiet bounded)
      rw [arrow_quiet free, went] at first
      cases first
      obtain ⟨e', final, bound, gone⟩ := ih represents (bounded_quiet bounded).up
        (away.up (moves.mp redraws)) second fun other member =>
          moved other (.tail _ member)
      refine ⟨e', final, bound, ?_⟩
      rwa [List.length_cons, Nat.add_comm forms.length, ← Nat.add_assoc]
    · rw [arrow_string free first] at redraws
      cases redraws

/-- As many Down keys lead back. -/
theorem arrows_down (forms : List ArrowForm) (h : Represents plain input e) (bounded : e.Bounded)
    (away : Away home e forms.length) :
    ∃ actions after e', arrows input false forms = some (actions, after) ∧
      Represents plain after e' ∧ Away home e' 0 := by
  induction forms generalizing input e with
  | nil => exact ⟨[], input, e, rfl, h, away⟩
  | cons form forms ih =>
    have scanner : input.scanner = quiet :=
      h.scanner.trans (away.draft (Nat.succ_ne_zero _)).2.2
    have escape : input.escape = .none := congrArg Scanner.escape scanner
    obtain ⟨action, next, went, represents, _⟩ :=
      (h.setScanner quiet).down (bounded_quiet bounded)
    obtain ⟨actions, after, e', pressed, final, home⟩ :=
      ih represents (bounded_quiet bounded).down away.down
    refine ⟨action :: actions, after, e', ?_, final, home⟩
    rw [arrows, arrow_quiet (by rw [escape]; exact ⟨nofun, nofun⟩), went, Option.bind_eq_bind,
      Option.bind_some]
    dsimp only
    rw [pressed]
    rfl

/-! ### Completion -/

/-- The bare first word of a line is completed: it is extended to the longest start of all
names that match it, if the line can hold it, and a unique name gets a space. -/
def Completed (overflow : Bool) (text : List UInt8) (names : List (List UInt8))
    (after : List UInt8) : Prop :=
  let blanks := Editor.blanks plain text
  let word := Editor.word plain text
  let matching := names.filter (Editor.Fits plain word)
  if overflow = false ∧ word.all isBare = true ∧ matching ≠ [] then
    ∃ common, (∀ start, start <+: common ↔ ∀ name ∈ matching, start <+: name) ∧ word <+: common ∧
      after = if lineMax < blanks.length + common.length then text
        else blanks ++ common ++
          if matching.length = 1 ∧ blanks.length + common.length < lineMax then [space] else []
  else after = text

theorem map_plain (bytes : List UInt8) : bytes.map plain.code = bytes := List.map_id _

theorem isPrefix_common (start first : List UInt8) (rest : List (List UInt8)) :
    start <+: rest.foldl (Editor.shared plain) first ↔ ∀ name ∈ first :: rest, start <+: name := by
  have general := Editor.isPrefix_foldl_shared (A := plain) start first rest
  simpa only [map_plain] using general

theorem completed_complete (e : Editor UInt8) (names : List (List UInt8)) :
    Completed e.overflow e.line names (e.complete plain names).line := by
  unfold Completed Editor.complete
  dsimp only
  by_cases bare : e.overflow = false ∧ (Editor.word plain e.line).all isBare = true
  · have bare' : e.overflow = false ∧
        (Editor.word plain e.line).all (isBare ∘ plain.code) = true := bare
    rw [if_pos bare']
    dsimp only [Editor.extend]
    cases matched : names.filter (Editor.Fits plain (Editor.word plain e.line)) with
    | nil => simp
    | cons first rest =>
      rw [if_pos ⟨bare.1, bare.2, List.cons_ne_nil _ _⟩]
      have fits : ∀ name ∈ first :: rest, Editor.word plain e.line <+: name := by
        intro name member
        rw [← matched, List.mem_filter, decide_eq_true_eq] at member
        have starts := member.2.2.2.2
        rwa [map_plain, map_plain] at starts
      have extends_word := (isPrefix_common _ first rest).mpr fits
      refine ⟨_, fun start => isPrefix_common start first rest, extends_word, ?_⟩
      dsimp only
      rw [List.length_append]
      by_cases long : lineMax < (Editor.blanks plain e.line).length +
          (rest.foldl (Editor.shared plain) first).length
      · rw [if_pos long, if_pos long]
      rw [if_neg long, if_neg long]
      by_cases single : rest = []
      · subst single
        by_cases room : (Editor.blanks plain e.line).length + first.length < lineMax
        · rw [if_pos ⟨rfl, room⟩, if_pos ⟨rfl, room⟩]
          rfl
        · rw [if_neg fun both => room both.2, if_neg fun both => both.1 rfl,
            if_neg fun both => room both.2, List.append_nil]
      · have many : (first :: rest).length ≠ 1 := fun one =>
          single (List.length_eq_zero_iff.mp (Nat.succ.inj one))
        rw [if_neg fun both => single both.1]
        by_cases short : (rest.foldl (Editor.shared plain) first).length ≤
            (Editor.word plain e.line).length
        · rw [if_pos ⟨single, short⟩, if_neg fun both => many both.1, List.append_nil,
            ← extends_word.eq_of_length_le short, blanks_append_word]
        · rw [if_neg fun both => short both.2, if_neg fun both => many both.1, List.append_nil]
  · have bare' : ¬ (e.overflow = false ∧
        (Editor.word plain e.line).all (isBare ∘ plain.code) = true) := bare
    rw [if_neg bare', if_neg fun all => bare ⟨all.1, all.2.1⟩]

/-- The line editor is safe and its history faithful. Every run has a result: no access
leaves a buffer. The line buffer holds the line of the editor, a string of the line's length
and of printable bytes, each of which was fed outside of all control sequences or comes from a
completion. The ring holds the newest remembered lines, newest first behind `next`, and the age
selects one of them. Up keys that all move and as many Down keys lead from the draft back to the
same line and overflow flag. A completion extends the first word to the longest start of the
names that match it. -/
theorem shell_editor_faithful (ops : List Op) : ∃ input, run ops = some input ∧
      (input.length ≤ lineMax ∧ input.length = (editor ops).line.length ∧
        Holds input.line (editor ops).line ∧ input.overflow = (editor ops).overflow ∧
        (editor ops).line = (markedEditor ops).line.map Symbol.byte ∧
        ∀ symbol ∈ (markedEditor ops).line, Printable symbol.byte ∧ Sourced ops symbol) ∧
      (input.count = min (editor ops).remembered.length historyCapacity ∧ input.age ≤ input.count ∧
        ∀ k line, k < historyCapacity → (editor ops).remembered[k]? = some line →
          ∃ slot, input.history[(input.next + historyCapacity - (k + 1)) % historyCapacity]? =
            some slot ∧ Holds slot line) ∧
      (∀ ups downs actions away text, input.age = 0 → ups.length = downs.length →
        arrows input true ups = some (actions, away) → (∀ action ∈ actions, action = .redraw) →
        Holds input.line text → ∃ actions' back, arrows away false downs = some (actions', back) ∧
          Holds back.line text ∧ back.length = input.length ∧ back.overflow = input.overflow) ∧
      (∀ names, ∃ text after text', Holds input.line text ∧
        complete input names = some after ∧ Holds after.line text' ∧ after.length = text'.length ∧
        Completed input.overflow text (names.map Subtype.val) text') := by
  obtain ⟨input, ran, represents, bounded⟩ := represents_editor ops
  obtain ⟨marked, same, marks, limits⟩ := represents_marked ops
  cases ran.symm.trans same
  have holds : Holds input.line (editor ops).line := by
    simpa only [map_plain] using represents.line
  refine ⟨input, ran, ⟨?_, represents.length, holds, represents.overflow,
    holds.unique marks.line, (every_symbol ops).line⟩, ⟨represents.count, ?_, ?_⟩, ?_, ?_⟩
  · rw [marks.length]
    exact limits.line
  · rw [represents.age, represents.count]
    exact bounded.age
  · intro k line inside found
    obtain ⟨slot, present, held⟩ := represents.ring k line inside found
    exact ⟨slot, present, by rwa [map_plain] at held⟩
  · intro ups downs actions away text draft same pressed moved shown
    have start : Away (editor ops) (editor ops) 0 :=
      ⟨represents.age.symm.trans draft, rfl, fun _ => ⟨rfl, rfl⟩, fun other => absurd rfl other⟩
    obtain ⟨e, gone, limit, far⟩ := arrows_up ups represents bounded start pressed moved
    rw [Nat.zero_add, same] at far
    obtain ⟨actions', back, e', returned, final, near⟩ := arrows_down downs gone limit far
    obtain ⟨line, overflow⟩ := near.line rfl
    refine ⟨actions', back, returned, ?_, ?_, ?_⟩
    · rw [shown.unique holds, ← line]
      simpa only [map_plain] using final.line
    · rw [final.length, line, represents.length]
    · rw [final.overflow, overflow, represents.overflow]
  · intro names
    have spells : Spells plain names (names.map Subtype.val) := by
      unfold Spells
      rw [List.forall₂_map_right_iff, List.forall₂_same]
      exact fun name _ => (map_plain _).symm
    obtain ⟨after, completed, shown⟩ := represents.complete bounded spells
    refine ⟨_, after, _, holds, completed, ?_, shown.length, ?_⟩
    · simpa only [map_plain] using shown.line
    · rw [represents.overflow]
      exact completed_complete (editor ops) _

/-- `l`, an arrow key and the completion to `ls `. -/
def typeAndComplete : List Op :=
  [.feed 0x6c, .feed esc, .feed 0x5b, .feed letterA, .complete [⟨[0x6c, 0x73], by decide⟩]]

theorem shell_editor_faithful_completed : ∃ input, run typeAndComplete = some input ∧
    Holds input.line [0x6c, 0x73, space] ∧
    (markedEditor typeAndComplete).line =
      [⟨0x6c, .named 4⟩, ⟨0x73, .named 4⟩, ⟨space, .blank⟩] := by
  obtain ⟨input, ran, ⟨-, -, holds, -⟩, -⟩ := shell_editor_faithful typeAndComplete
  rw [show (editor typeAndComplete).line = [0x6c, 0x73, space] by decide] at holds
  exact ⟨input, ran, holds, by decide⟩

end Genrt.Shell
