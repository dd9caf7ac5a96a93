import Genrt.User.ShellEditor

/-!
# The buffers hold the editor's lines

The code's state represents an abstract editor: the line buffer holds the line, the slots
of the ring hold the newest remembered lines, and the draft buffer holds the draft while
the user looks at the ring. Every operation of the code has a result, which represents
the result of the editor's operation.
-/

namespace Genrt.Shell

open CString Editor

namespace Input

def scanner (input : Input) : Scanner := ⟨input.escape, input.escapeBytes, input.skipLf⟩

def setScanner (input : Input) (scanner : Scanner) : Input :=
  { input with
    escape := scanner.escape, escapeBytes := scanner.escapeBytes, skipLf := scanner.skipLf }

end Input

/-- What the code does for a key. -/
def press (input : Input) (ch : UInt8) : Key → Option (Action × Input)
  | .ignored => some (.none, input)
  | .submit => some (.submit, input)
  | .erase => erase input
  | .complete => some (.complete, input)
  | .up => history input true
  | .down => history input false
  | .text => append input ch

/-- Feeding a byte is scanning it and pressing its key. -/
theorem feed_eq (input : Input) (ch : UInt8) :
    feed input ch = press (input.setScanner (input.scanner.scan ch).2) ch
      (input.scanner.scan ch).1 := by
  unfold feed Scanner.scan Input.scanner
  dsimp only
  by_cases skipped : input.skipLf = true ∧ ch = newline
  · rw [if_pos skipped, if_pos skipped]
    rfl
  rw [if_neg skipped, if_neg skipped]
  by_cases ends : ch = carriageReturn ∨ ch = newline
  · rw [if_pos ends, if_pos ends]
    rfl
  rw [if_neg ends, if_neg ends]
  by_cases erases : ch = backspace ∨ ch = delete
  · rw [if_pos erases, if_pos erases]
    rfl
  rw [if_neg erases, if_neg erases]
  by_cases completes : ch = tab
  · rw [if_pos completes, if_pos completes]
    rfl
  rw [if_neg completes, if_neg completes]
  cases escape : input.escape with
  | string =>
    by_cases rings : ch = bell <;> simp [rings, press, Input.setScanner]
  | stringEnd =>
    by_cases stops : ch = bell ∨ ch = backslash <;> simp [stops, press, Input.setScanner]
  | none =>
    by_cases escapes : ch = esc
    · simp [escapes, press, Input.setScanner]
    · by_cases low : ch < space <;>
        simp [escapes, low, press, Input.setScanner]
  | start =>
    by_cases escapes : ch = esc <;> simp [escapes, press, Input.setScanner]
  | intermediate =>
    by_cases escapes : ch = esc
    · simp [escapes, press, Input.setScanner]
    · by_cases final : ch < 0x20 ∨ 0x2f < ch <;>
        simp [escapes, final, press, Input.setScanner]
  | csi | ss3 =>
    by_cases escapes : ch = esc
    · simp [escapes, press, Input.setScanner]
    · by_cases final : 0x40 ≤ ch ∧ ch ≤ 0x7e
      · by_cases plain : input.escapeBytes = 0
        · by_cases above : ch = letterA
          · subst above
            simp [escapes, final, plain, arrowKey, press, Input.setScanner]
          · by_cases below : ch = letterB
            · subst below
              simp [escapes, final, plain, above, arrowKey, press, Input.setScanner]
            · simp [escapes, final, plain, above, below, arrowKey, press, Input.setScanner]
        · simp [escapes, final, plain, arrowKey, press, Input.setScanner]
      · by_cases room : input.escapeBytes < escapeMax <;>
          simp [escapes, final, room, press, Input.setScanner]

variable {α : Type} {A : Alphabet α} {input after : Input} {e : Editor α}

/-- The line and the ring represent those of the editor. The slot of the newest line is
the one in front of `next`. -/
structure Stored (A : Alphabet α) (input : Input) (e : Editor α) : Prop where
  scanner : input.scanner = e.scanner
  overflow : input.overflow = e.overflow
  age : input.age = e.age
  length : input.length = e.line.length
  line : Holds input.line (e.line.map A.code)
  lineSize : input.line.length = lineMax + 1
  draftSize : input.draft.length = lineMax + 1
  slots : input.history.length = historyCapacity
  slotSize : ∀ slot ∈ input.history, slot.length = lineMax + 1
  next : input.next = e.remembered.length % historyCapacity
  count : input.count = e.count
  ring : ∀ k line, k < historyCapacity → e.remembered[k]? = some line →
    ∃ slot, input.history[(input.next + historyCapacity - (k + 1)) % historyCapacity]? = some slot ∧
      Holds slot (line.map A.code)

/-- The draft buffer holds the draft. -/
def Drafted (A : Alphabet α) (input : Input) (e : Editor α) : Prop :=
  Holds input.draft (e.draft.map A.code) ∧ input.draftOverflow = e.draftOverflow

structure Represents (A : Alphabet α) (input : Input) (e : Editor α) : Prop extends
    Stored A input e where
  draft : e.age ≠ 0 → Drafted A input e

theorem represents_initial : Represents A Input.initial initial where
  scanner := rfl
  overflow := rfl
  age := rfl
  length := rfl
  line := .of_append List.not_mem_nil _
  lineSize := List.length_replicate
  draftSize := List.length_replicate
  slots := List.length_replicate
  slotSize slot member := by
    rw [List.eq_of_mem_replicate member]
    exact List.length_replicate
  next := rfl
  count := rfl
  ring k line _ found := by
    rw [show (initial : Editor α).remembered = [] from rfl, List.getElem?_nil] at found
    cases found
  draft away := absurd rfl away

/-- The scanner is not part of the line or the ring. -/
theorem Represents.setScanner (h : Represents A input e) (scanner : Scanner) :
    Represents A (input.setScanner scanner) { e with scanner := scanner } :=
  { h with scanner := rfl }

/-! ### Recalling a line -/

/-- The line to be shown stands in a buffer. -/
theorem Stored.selected (h : Stored A input e) (drafted : Drafted A input e)
    (aged : e.age ≤ e.count) :
    ∃ source, selected input = some source ∧ Holds source (e.retrieve.line.map A.code) ∧
      source.length = lineMax + 1 := by
  unfold Shell.selected Editor.retrieve
  rw [h.age]
  dsimp only
  by_cases zero : e.age = 0
  · rw [if_pos zero, if_pos zero]
    exact ⟨input.draft, rfl, drafted.1, h.draftSize⟩
  · rw [if_neg zero, if_neg zero]
    unfold Editor.count at aged
    have inside : e.age - 1 < e.remembered.length := by omega
    have found : e.remembered[e.age - 1]? = some e.remembered[e.age - 1] :=
      List.getElem?_eq_getElem inside
    obtain ⟨slot, present, holds⟩ := h.ring (e.age - 1) _ (by omega) found
    rw [Nat.sub_add_cancel (Nat.pos_of_ne_zero zero)] at present
    refine ⟨slot, present, ?_, h.slotSize slot (List.mem_of_getElem? present)⟩
    rw [List.getD_eq_getElem?_getD, found]
    exact holds

theorem Stored.retrieve (h : Stored A input e) (drafted : Drafted A input e)
    (aged : e.age ≤ e.count) :
    ∃ after, Shell.retrieve input = some (.redraw, after) ∧ Represents A after e.retrieve := by
  obtain ⟨source, found, holds, size⟩ := h.selected drafted aged
  have room : (e.retrieve.line.map A.code).length < input.line.length := by
    rw [h.lineSize, ← size]
    exact holds.length_lt
  obtain ⟨copied, copies, shown, same⟩ := holds.memcpy_string room
  refine ⟨{ input with
    line := copied, length := (e.retrieve.line.map A.code).length
    overflow := if input.age = 0 then input.draftOverflow else false }, ?_, ?_⟩
  · rw [Shell.retrieve, found]
    simp only [Option.bind_eq_bind, Option.bind_some, holds.strlen_eq, copies]
  · refine { h with
      overflow := ?_, length := List.length_map _, line := shown, lineSize := same.trans h.lineSize
      draft := fun _ => drafted }
    dsimp only [Editor.retrieve]
    rw [h.age, drafted.2]

theorem Stored.setAge (h : Stored A input e) (age : Nat) :
    Stored A { input with age := age } { e with age := age } :=
  { h with age := rfl }

section

variable (h : Represents A input e)

include h

theorem Represents.up (bounded : e.Bounded) :
    ∃ action after, history input true = some (action, after) ∧ Represents A after e.up ∧
      (action = .redraw ↔ e.age ≠ e.count) := by
  have age := bounded.age
  unfold history Editor.up
  rw [if_pos rfl]
  by_cases last : e.age = e.count
  · rw [if_pos (h.age.trans (last.trans h.count.symm)), if_pos last]
    exact ⟨.none, input, rfl, h, by simp [last]⟩
  rw [if_neg (by rwa [h.age, h.count]), if_neg last]
  have aged : e.age + 1 ≤ e.count := by omega
  by_cases zero : e.age = 0
  · rw [if_pos (h.age.trans zero), if_pos zero]
    have room : (e.line.map A.code).length < input.draft.length := by
      rw [h.draftSize, ← h.lineSize]
      exact h.line.length_lt
    obtain ⟨draft, copies, holds, size⟩ := h.line.memcpy_string room
    rw [List.length_map, ← h.length] at copies
    rw [copies]
    have stored : Stored A { input with
        draft := draft, draftOverflow := input.overflow, age := input.age + 1 }
        { e with draft := e.line, draftOverflow := e.overflow, age := e.age + 1 } :=
      { h with age := by rw [h.age], draftSize := size.trans h.draftSize }
    obtain ⟨after, recalled, shown⟩ := stored.retrieve ⟨holds, h.overflow⟩ aged
    exact ⟨.redraw, after, recalled, shown, by simp [last]⟩
  · rw [if_neg (by rwa [h.age]), if_neg zero]
    obtain ⟨after, recalled, shown⟩ :=
      (h.toStored.setAge (e.age + 1)).retrieve (h.draft zero) aged
    rw [← h.age] at recalled
    exact ⟨.redraw, after, recalled, shown, by simp [last]⟩

theorem Represents.down (bounded : e.Bounded) :
    ∃ action after, history input false = some (action, after) ∧ Represents A after e.down ∧
      (action = .redraw ↔ e.age ≠ 0) := by
  have age := bounded.age
  unfold history Editor.down
  rw [if_neg (by decide)]
  by_cases zero : e.age = 0
  · rw [if_pos (h.age.trans zero), if_pos zero]
    exact ⟨.none, input, rfl, h, by simp [zero]⟩
  · rw [if_neg (by rwa [h.age]), if_neg zero]
    have aged : e.age - 1 ≤ e.count := by omega
    obtain ⟨after, recalled, shown⟩ := (h.toStored.setAge (e.age - 1)).retrieve (h.draft zero) aged
    rw [← h.age] at recalled
    exact ⟨.redraw, after, recalled, shown, by simp [zero]⟩

/-! ### Keys -/

theorem Represents.append (bounded : e.Bounded) {a : α} (printable : Printable (A.code a)) :
    ∃ action after, append input (A.code a) = some (action, after) ∧
      Represents A after (e.append a) := by
  have room := bounded.line
  unfold Shell.append Editor.append
  rw [h.length]
  by_cases full : e.line.length = lineMax
  · rw [if_pos full, if_pos full]
    exact ⟨_, _, rfl, { h with overflow := rfl, length := rfl }⟩
  · rw [if_neg full, if_neg full]
    have inside : (e.line.map A.code).length + 1 < input.line.length := by
      rw [List.length_map, h.lineSize]
      omega
    obtain ⟨written, ended, first, second, holds, size⟩ :=
      h.line.store_push printable.ne_zero inside
    rw [List.length_map] at first second
    rw [first, Option.bind_eq_bind, Option.bind_some, second]
    refine ⟨_, _, rfl, { h with
      length := ?_, line := ?_, lineSize := size.trans h.lineSize }⟩
    · simp
    · rw [List.map_append]
      exact holds

theorem Represents.erase :
    ∃ action after, erase input = some (action, after) ∧ Represents A after e.erase := by
  unfold Shell.erase Editor.erase
  rw [h.length]
  by_cases empty : e.line.length = 0
  · rw [if_pos empty, List.length_eq_zero_iff.mp empty, List.dropLast_nil,
      ← List.length_eq_zero_iff.mp empty]
    exact ⟨_, _, rfl, h⟩
  · rw [if_neg empty]
    have inside : e.line.length - 1 ≤ (e.line.map A.code).length := by
      rw [List.length_map]
      omega
    obtain ⟨written, cut, holds, size⟩ := h.line.store_cut inside
    rw [cut]
    refine ⟨_, _, rfl, { h with
      length := ?_, line := ?_, lineSize := size.trans h.lineSize }⟩
    · simp
    · rw [List.dropLast_eq_take, List.map_take]
      exact holds

theorem Represents.press (bounded : e.Bounded) {a : α} {key : Key}
    (printable : key = .text → Printable (A.code a)) :
    ∃ action after, press input (A.code a) key = some (action, after) ∧
      Represents A after (e.press a key) := by
  cases key with
  | ignored | submit | complete => exact ⟨_, _, rfl, h⟩
  | erase => exact h.erase
  | up =>
    obtain ⟨action, after, moved, shown, _⟩ := h.up bounded
    exact ⟨action, after, moved, shown⟩
  | down =>
    obtain ⟨action, after, moved, shown, _⟩ := h.down bounded
    exact ⟨action, after, moved, shown⟩
  | text => exact h.append bounded (printable rfl)

theorem Represents.feed (bounded : e.Bounded) (a : α) :
    ∃ action after, feed input (A.code a) = some (action, after) ∧
      Represents A after (e.feed A a) := by
  rw [feed_eq, h.scanner]
  refine (h.setScanner _).press ?_ fun text => (Scanner.scan_text text).1
  exact { bounded with }

theorem Represents.reset : ∃ after, reset input = some after ∧ Represents A after e.reset := by
  obtain ⟨written, cut, holds, size⟩ := h.line.store_cut (Nat.zero_le _)
  rw [Shell.reset, cut]
  refine ⟨_, rfl, { h with
    scanner := ?_, overflow := rfl, age := rfl, length := rfl, line := holds
    lineSize := size.trans h.lineSize, draft := fun away => absurd rfl away }⟩
  have same := h.scanner
  unfold Editor.reset
  rw [← same]
  rfl

/-! ### Remembering a line -/

theorem Represents.repeatsNewest :
    repeatsNewest input = some (decide (e.remembered.head?.map (List.map A.code) =
      some (e.line.map A.code))) := by
  unfold Shell.repeatsNewest
  rw [h.count]
  cases remembered : e.remembered with
  | nil => simp [count, remembered]
  | cons newest older =>
    have found : e.remembered[0]? = some newest := by rw [remembered, List.getElem?_cons_zero]
    obtain ⟨slot, present, holds⟩ := h.ring 0 newest (by decide) found
    have some_line : e.count ≠ 0 := by
      rw [count, remembered, List.length_cons]
      unfold historyCapacity
      omega
    rw [if_neg some_line, present, Option.bind_eq_bind, Option.bind_some,
      holds.strcmp_eq h.line]
    simp

end

/-- The ring after the slot `next` has been overwritten. -/
theorem Stored.push (h : Stored A input e) {slot entry : Buffer}
    (present : input.history[input.next]? = some slot) (holds : Holds entry (e.line.map A.code))
    (size : entry.length = slot.length) :
    Stored A { input with
      history := input.history.set input.next entry
      next := (input.next + 1) % historyCapacity
      count := if input.count < historyCapacity then input.count + 1 else input.count }
      { e with remembered := e.line :: e.remembered } := by
  have next := h.next
  have below : input.next < historyCapacity := by
    rw [next]
    exact Nat.mod_lt _ (by decide)
  refine { h with slots := ?_, slotSize := ?_, next := ?_, count := ?_, ring := ?_ }
  · exact List.length_set.trans h.slots
  · intro other member
    rcases List.mem_or_eq_of_mem_set member with old | rfl
    · exact h.slotSize other old
    · exact size.trans (h.slotSize slot (List.mem_of_getElem? present))
  · dsimp only
    rw [next, List.length_cons, Nat.mod_add_mod]
  · have count := h.count
    unfold Editor.count at count ⊢
    dsimp only
    rw [List.length_cons]
    split <;> omega
  · intro k line inside found
    unfold historyCapacity at below inside ⊢
    cases k with
    | zero =>
      rw [List.getElem?_cons_zero] at found
      cases found
      have place : ((input.next + 1) % 16 + 16 - (0 + 1)) % 16 = input.next := by omega
      refine ⟨entry, ?_, holds⟩
      dsimp only
      rw [place]
      exact List.getElem?_set_self (List.getElem?_eq_some_iff.mp present).1
    | succ k =>
      rw [List.getElem?_cons_succ] at found
      obtain ⟨older, kept, held⟩ := h.ring k line (by unfold historyCapacity; omega) found
      have place : ((input.next + 1) % 16 + 16 - (k + 1 + 1)) % 16 =
          (input.next + 16 - (k + 1)) % 16 := by omega
      have apart : input.next ≠ (input.next + 16 - (k + 1)) % 16 := by omega
      refine ⟨older, ?_, held⟩
      dsimp only
      rw [place, List.getElem?_set_ne apart]
      exact kept

theorem Represents.remember (h : Represents A input e) :
    ∃ after, remember input = some after ∧ Represents A after (e.remember A) := by
  unfold Shell.remember Editor.remember
  by_cases overlong : e.overflow = true
  · rw [if_pos (h.overflow.trans overlong), if_neg fun worth => absurd (worth.1.symm.trans overlong)
      (by decide)]
    exact ⟨input, rfl, h⟩
  · have fits := Bool.eq_false_iff.mpr overlong
    obtain ⟨byte, loaded, blank⟩ := h.line.load_skip isBlank
    rw [List.all_map] at blank
    rw [if_neg (by rwa [h.overflow])]
    simp only [h.line.skip_eq (show isBlank 0 = false by decide), Option.bind_eq_bind,
      Option.bind_some, loaded, h.repeatsNewest]
    by_cases empty : e.line.all (isBlank ∘ A.code) = true
    · rw [if_pos (blank.mpr empty), if_neg fun worth => absurd (worth.2.1.symm.trans empty)
        (by decide)]
      exact ⟨input, rfl, h⟩
    rw [if_neg fun zero => empty (blank.mp zero)]
    by_cases same : e.remembered.head?.map (List.map A.code) = some (e.line.map A.code)
    · rw [if_pos (decide_eq_true same), if_neg fun worth => worth.2.2 same]
      exact ⟨input, rfl, h⟩
    have worth : e.Worth A := ⟨fits, Bool.eq_false_iff.mpr empty, same⟩
    rw [if_neg (by simpa using same), if_pos worth]
    have below : input.next < input.history.length := by
      rw [h.slots, h.next]
      exact Nat.mod_lt _ (by decide)
    have present := List.getElem?_eq_getElem below
    have room : (e.line.map A.code).length < input.history[input.next].length := by
      rw [h.slotSize _ (List.getElem_mem below), ← h.lineSize]
      exact h.line.length_lt
    obtain ⟨entry, copies, holds, size⟩ := h.line.memcpy_string room
    rw [List.length_map, ← h.length] at copies
    rw [present, Option.bind_some, copies, Option.bind_some]
    exact ⟨_, rfl, h.toStored.push present holds size, h.draft⟩

/-! ### Completing the first word -/

theorem map_blanks (line : List α) : (blanks A line).map A.code =
    (line.map A.code).takeWhile (fun byte => decide (byte = space)) := by
  rw [List.takeWhile_map]
  rfl

theorem blanks_append_word (line : List α) : blanks A line ++ word A line = line :=
  List.takeWhile_append_dropWhile

/-- The bytes from the start of the word on. -/
theorem Represents.word (h : Represents A input e) :
    Holds (input.line.drop (blanks A e.line).length) ((word A e.line).map A.code) := by
  have split : e.line.map A.code =
      (blanks A e.line).map A.code ++ (Editor.word A e.line).map A.code := by
    rw [← List.map_append, blanks_append_word]
  have bound : (blanks A e.line).length ≤ (e.line.map A.code).length := by
    rw [split, List.length_append, List.length_map]
    exact Nat.le_add_right _ _
  have dropped := h.line.drop bound
  rw [split, List.drop_left' (List.length_map _)] at dropped
  exact dropped

theorem Represents.inputPrefix (h : Represents A input e) :
    inputPrefix input = some (if e.overflow = false ∧
      (Editor.word A e.line).all (isBare ∘ A.code) = true then
        some (blanks A e.line).length else none) := by
  unfold Shell.inputPrefix
  by_cases overlong : e.overflow = true
  · rw [if_pos (h.overflow.trans overlong), if_neg fun fits => absurd (fits.1.symm.trans overlong)
      (by decide)]
  · have start : skip (fun byte => decide (byte = space)) input.line =
        some (blanks A e.line).length := by
      rw [h.line.skip_eq (by decide), ← map_blanks, List.length_map]
    rw [if_neg (by rwa [h.overflow]), start]
    simp only [Option.bind_eq_bind, Option.bind_some, h.word.all_eq, List.all_map]
    simp [overlong]

/-- What the names that match have in common. -/
def commonPart (A : Alphabet α) : List (List α) → List α
  | [] => []
  | first :: rest => rest.foldl (shared A) first

variable {matched : List (List α)}

theorem commonPart_concat (some : matched ≠ []) (name : List α) :
    commonPart A (matched ++ [name]) = shared A (commonPart A matched) name := by
  cases matched with
  | nil => exact absurd rfl some
  | cons first rest => simp [commonPart]

/-- The names matched so far. -/
structure Gathered (A : Alphabet α) (found : Matches) (matched : List (List α)) : Prop where
  size : found.common.length = lineMax + 1
  count : found.count = min matched.length 2
  length : matched ≠ [] → found.length = (commonPart A matched).length
  holds : matched ≠ [] → Holds found.common ((commonPart A matched).map A.code)

theorem gathered_initial : Gathered A Matches.initial [] where
  size := List.length_replicate
  count := rfl
  length absent := absurd rfl absent
  holds absent := absurd rfl absent

variable {buffer : Buffer}

/-- A name that fits is taken. -/
theorem Gathered.take {found : Matches} (h : Gathered A found matched) {name : List α}
    (holds : Holds buffer (name.map A.code)) (bound : name.length ≤ lineMax) :
    ∃ after, found.take buffer name.length = some after ∧ Gathered A after (matched ++ [name]) := by
  have count := h.count
  have appended : matched ++ [name] ≠ [] := by simp
  have counted : (if found.count < 2 then found.count + 1 else found.count) =
      min (matched ++ [name]).length 2 := by
    rw [List.length_append, List.length_singleton]
    split <;> omega
  unfold Matches.take
  cases matched with
  | nil =>
    have room : (name.map A.code).length < found.common.length := by
      rw [List.length_map, h.size]
      omega
    obtain ⟨copied, copies, held, size⟩ := holds.memcpy_string room
    rw [List.length_map] at copies
    have first : found.count = 0 := count
    dsimp only
    rw [if_pos first, copies, Option.bind_eq_bind, Option.bind_some]
    exact ⟨_, rfl, size.trans h.size, counted, fun _ => rfl, fun _ => held⟩
  | cons first rest =>
    have some_name : first :: rest ≠ [] := List.cons_ne_nil _ _
    have old := h.holds some_name
    have kept : commonLength (found.common.take found.length) (buffer.take name.length) =
        commonLength ((commonPart A (first :: rest)).map A.code) (name.map A.code) := by
      obtain ⟨left, same⟩ := old.eq_append
      obtain ⟨right, alike⟩ := holds.eq_append
      rw [h.length some_name, same, alike, List.take_left' (List.length_map _),
        List.take_left' (List.length_map _)]
    obtain ⟨written, cut, held, size⟩ := old.store_cut
      (commonLength_le ((commonPart A (first :: rest)).map A.code) (name.map A.code))
    have many : found.count ≠ 0 := by
      rw [count, List.length_cons]
      omega
    dsimp only
    rw [if_neg many, kept, cut, Option.bind_eq_bind, Option.bind_some]
    refine ⟨_, rfl, size.trans h.size, counted, fun _ => ?_, fun _ => ?_⟩
    · rw [commonPart_concat some_name, ← List.length_map A.code, map_shared]
      exact (List.length_take_of_le (commonLength_le ..)).symm
    · rw [commonPart_concat some_name, map_shared]
      exact held

variable {found : Matches}

/-- A name is taken if it fits and left out if it does not. -/
theorem Gathered.matchAdd (h : Gathered A found matched) {word name : List α} {text : Text}
    (held : Holds buffer (word.map A.code)) (named : text.val = name.map A.code) :
    ∃ taken after, matchAdd found buffer text.buffer = some (taken, after) ∧
      Gathered A after (matched ++ [name].filter (Fits A word)) := by
  have holds : Holds text.buffer (name.map A.code) := named ▸ Holds.buffer_text text
  have refuse : ¬ Fits A word name →
      Gathered A found (matched ++ [name].filter (Fits A word)) := by
    intro unfit
    rw [List.filter_singleton, decide_eq_false unfit]
    simpa using h
  unfold Shell.matchAdd
  simp only [holds.strnlen_eq, List.length_map, Option.bind_eq_bind, Option.bind_some,
    held.strlen_eq]
  by_cases sized : name.length = 0 ∨ lineMax < name.length
  · rw [if_pos (by omega)]
    refine ⟨false, found, rfl, refuse fun fits => ?_⟩
    have nonempty := List.length_pos_iff.mpr fits.1
    have short := fits.2.1
    omega
  rw [if_neg (by omega), Nat.min_eq_left (by omega)]
  have compared := holds.strncmp_eq held
  rw [List.length_map] at compared
  rw [compared, Option.bind_some]
  by_cases starts : word.map A.code <+: name.map A.code
  · rw [if_neg (by simpa using starts)]
    have taken : text.buffer.take name.length = name.map A.code := by
      obtain ⟨rest, same⟩ := holds.eq_append
      rw [same, List.take_left' (List.length_map _)]
    rw [taken, List.all_map]
    by_cases clean : name.all (isNameByte ∘ A.code) = true
    · rw [if_neg (not_not.mpr clean)]
      have fits : Fits A word name :=
        ⟨List.ne_nil_of_length_pos (by omega), by omega, List.all_eq_true.mp clean, starts⟩
      obtain ⟨after, took, gathered⟩ := h.take holds fits.2.1
      refine ⟨true, after, by rw [took, Option.bind_some], ?_⟩
      rw [List.filter_singleton, decide_eq_true fits]
      exact gathered
    · rw [if_pos clean]
      exact ⟨false, found, rfl, refuse fun fits => clean (List.all_eq_true.mpr fits.2.2.1)⟩
  · rw [if_pos (by simpa using starts)]
    exact ⟨false, found, rfl, refuse fun fits => starts fits.2.2.2⟩

/-- The texts of the names. -/
def Spells (A : Alphabet α) (texts : List Text) (names : List (List α)) : Prop :=
  List.Forall₂ (fun text name => text.val = name.map A.code) texts names

variable {names : List (List α)}

theorem Gathered.foldlM {word : List α} (held : Holds buffer (word.map A.code)) {texts : List Text}
    (spells : Spells A texts names) (h : Gathered A found matched) :
    ∃ after, texts.foldlM (fun found name => do
        let (_, found) ← Shell.matchAdd found buffer name.buffer
        some found) found = some after ∧
      Gathered A after (matched ++ names.filter (Fits A word)) := by
  induction spells generalizing found matched with
  | nil => exact ⟨found, rfl, by simpa using h⟩
  | @cons text name texts names named _ ih =>
    obtain ⟨taken, next, added, gathered⟩ := h.matchAdd held named
    obtain ⟨after, folded, all⟩ := ih gathered
    refine ⟨after, ?_, ?_⟩
    · rw [List.foldlM_cons, added]
      exact folded
    · rwa [List.append_assoc, ← List.filter_append, List.singleton_append] at all

section

variable (h : Represents A input e)

include h

/-- The bytes of the new line stand at the start of the buffer. -/
theorem Represents.copyCommon {part : List α} (held : Holds found.common (part.map A.code))
    (room : (blanks A e.line).length + part.length ≤ lineMax) :
    ∃ line, memcpy input.line (blanks A e.line).length found.common part.length = some line ∧
      (blanks A e.line ++ part).map A.code <+: line ∧ line.length = lineMax + 1 ∧
      0 ∉ (blanks A e.line ++ part).map A.code := by
  have start : (blanks A e.line).map A.code <+: input.line := by
    have whole : e.line.map A.code <+: input.line := (List.prefix_append ..).trans h.line.content
    refine List.IsPrefix.trans ?_ whole
    rw [map_blanks]
    exact List.takeWhile_prefix _
  have source : part.map A.code <+: found.common := (List.prefix_append ..).trans held.content
  have fits : ((blanks A e.line).map A.code).length + (part.map A.code).length ≤
      input.line.length := by
    rw [List.length_map, List.length_map, h.lineSize]
    omega
  obtain ⟨line, copies, content, size⟩ := memcpy_starts start source fits
  rw [List.length_map, List.length_map] at copies
  refine ⟨line, copies, by rwa [List.map_append], size.trans h.lineSize, ?_⟩
  rw [List.map_append, List.mem_append, not_or]
  refine ⟨fun member => h.line.nonzero ?_, held.nonzero⟩
  rw [map_blanks] at member
  exact (List.takeWhile_prefix _).subset member

/-- A new line takes the place of the old one. -/
theorem Represents.setLine {line : Buffer} {new : List α} (holds : Holds line (new.map A.code))
    (size : line.length = lineMax + 1) :
    Represents A { input with line := line, length := new.length } { e with line := new } :=
  { h with length := rfl, line := holds, lineSize := size }

theorem Represents.replaceWord {part : List α} (held : Holds found.common (part.map A.code))
    (length : found.length = part.length)
    (room : (blanks A e.line).length + part.length ≤ lineMax) :
    ∃ changed after,
      replaceWord input (blanks A e.line).length found = some (changed, after) ∧
      Represents A after { e with line := blanks A e.line ++ part ++
        if found.count = 1 ∧ (blanks A e.line).length + part.length < lineMax then [A.space]
        else [] } := by
  obtain ⟨line, copies, content, size, clean⟩ := h.copyCommon held room
  have total : ((blanks A e.line ++ part).map A.code).length =
      (blanks A e.line).length + part.length := by
    rw [List.length_map, List.length_append]
  have inside : ((blanks A e.line ++ part).map A.code).length < line.length := by
    rw [total, size]
    omega
  unfold Shell.replaceWord
  rw [length, copies, Option.bind_eq_bind, Option.bind_some]
  dsimp only
  by_cases unique : found.count = 1 ∧ (blanks A e.line).length + part.length < lineMax
  · rw [if_pos unique, if_pos unique]
    obtain ⟨written, first, pushed, same⟩ := store_starts content space inside
    have spaced : (blanks A e.line ++ part).map A.code ++ [space] =
        (blanks A e.line ++ part ++ [A.space]).map A.code := by
      simp [A.code_space]
    rw [spaced] at pushed
    have grown : ((blanks A e.line ++ part ++ [A.space]).map A.code).length =
        (blanks A e.line).length + part.length + 1 := by
      rw [List.length_map, List.length_append, List.length_append, List.length_singleton]
    have nonzero : 0 ∉ (blanks A e.line ++ part ++ [A.space]).map A.code := by
      rw [← spaced, List.mem_append, not_or]
      exact ⟨clean, by decide⟩
    obtain ⟨ended, second, holds, alike⟩ := store_end pushed nonzero (by
      rw [grown, same, size]
      omega)
    rw [total] at first
    rw [grown] at second
    rw [first, Option.bind_some, second, Option.bind_some]
    have shown := h.setLine holds (alike.trans (same.trans size))
    rw [← List.length_map A.code, grown] at shown
    exact ⟨_, _, rfl, shown⟩
  · rw [if_neg unique, if_neg unique, List.append_nil]
    obtain ⟨ended, stored, holds, same⟩ := store_end content clean inside
    rw [total] at stored
    rw [stored, Option.bind_some]
    have shown := h.setLine holds (same.trans size)
    rw [List.length_append] at shown
    exact ⟨_, _, rfl, shown⟩

/-- The code completes the word as the editor does. -/
theorem Represents.inputComplete (bounded : e.Bounded)
    (gathered : Gathered A found (names.filter (Editor.Fits A (Editor.word A e.line))))
    (bare : e.overflow = false ∧ (Editor.word A e.line).all (isBare ∘ A.code) = true) :
    ∃ changed after, inputComplete input found = some (changed, after) ∧
      Represents A after { e with line := extend A e.line names } := by
  have line := bounded.line
  have count := gathered.count
  have blank : (blanks A e.line).length ≤ lineMax :=
    Nat.le_trans (List.takeWhile_prefix _).length_le line
  unfold Shell.inputComplete extend
  rw [h.inputPrefix, if_pos bare, Option.bind_eq_bind, Option.bind_some]
  dsimp only
  cases matched : names.filter (Editor.Fits A (Editor.word A e.line)) with
  | nil =>
    rw [matched] at count
    have none_found : found.count = 0 := count
    rw [if_pos none_found]
    exact ⟨false, input, rfl, h⟩
  | cons first rest =>
    rw [matched] at gathered count
    have some_name : first :: rest ≠ [] := List.cons_ne_nil _ _
    have held := gathered.holds some_name
    have length := gathered.length some_name
    have many : found.count ≠ 0 := by
      rw [count, List.length_cons]
      omega
    have unique : found.count = 1 ↔ rest = [] := by
      rw [count, List.length_cons, ← List.length_eq_zero_iff]
      omega
    unfold commonPart at held length
    dsimp only at held length ⊢
    rw [if_neg many, length, List.length_append]
    by_cases long : lineMax < (blanks A e.line).length +
        (rest.foldl (shared A) first).length
    · rw [if_pos (by omega), if_pos long]
      exact ⟨false, input, rfl, h⟩
    rw [if_neg (by omega), if_neg long, h.word.strlen_eq, Option.bind_eq_bind, Option.bind_some,
      List.length_map]
    obtain ⟨changed, after, replaced, shown⟩ :=
      h.replaceWord held length (Nat.not_lt.mp long)
    by_cases single : rest = []
    · rw [if_neg fun both => both.2 (unique.mpr single), replaced]
      refine ⟨changed, after, rfl, ?_⟩
      by_cases room : (blanks A e.line).length +
          (rest.foldl (shared A) first).length < lineMax
      · rw [if_pos ⟨unique.mpr single, room⟩] at shown
        rwa [if_pos ⟨single, room⟩]
      · rw [if_neg fun both => room both.2, List.append_nil] at shown
        rwa [if_neg fun both => room both.2, if_neg fun both => both.1 single]
    · rw [if_neg fun both => single (unique.mp both.1), List.append_nil] at shown
      by_cases short : (rest.foldl (shared A) first).length ≤ (Editor.word A e.line).length
      · rw [if_pos ⟨short, fun one => single (unique.mp one)⟩, if_neg fun both => single both.1,
          if_pos ⟨single, short⟩]
        exact ⟨false, input, rfl, h⟩
      · rw [if_neg fun both => short both.1, if_neg fun both => single both.1,
          if_neg fun both => short both.2, replaced]
        exact ⟨changed, after, rfl, shown⟩

theorem Represents.complete (bounded : e.Bounded) {texts : List Text}
    (spells : Spells A texts names) :
    ∃ after, complete input texts = some after ∧ Represents A after (e.complete A names) := by
  unfold Shell.complete Editor.complete
  rw [h.inputPrefix, Option.bind_eq_bind, Option.bind_some]
  by_cases bare : e.overflow = false ∧ (Editor.word A e.line).all (isBare ∘ A.code) = true
  · rw [if_pos bare, if_pos bare]
    dsimp only
    obtain ⟨found, folded, gathered⟩ := gathered_initial.foldlM h.word spells
    rw [List.nil_append] at gathered
    obtain ⟨changed, after, completed, shown⟩ := h.inputComplete bounded gathered bare
    rw [folded, Option.bind_eq_bind, Option.bind_some, completed]
    exact ⟨after, rfl, shown⟩
  · rw [if_neg bare, if_neg bare]
    exact ⟨input, rfl, h⟩

/-! ### Whole runs -/

/-- The editor's operation does what the code's operation does. -/
inductive Marks (A : Alphabet α) : Op → EditorOp α → Prop where
  | feed (a : α) : Marks A (.feed (A.code a)) (.feed a)
  | reset : Marks A .reset .reset
  | remember : Marks A .remember .remember
  | complete {texts : List Text} {names : List (List α)} (spells : Spells A texts names) :
      Marks A (.complete texts) (.complete names)

theorem Represents.step (bounded : e.Bounded) {op : Op} {marked : EditorOp α}
    (marks : Marks A op marked) :
    ∃ after, step input op = some after ∧ Represents A after (e.step A marked) := by
  cases marks with
  | feed a =>
    obtain ⟨action, after, fed, shown⟩ := h.feed bounded a
    exact ⟨after, by rw [Shell.step, fed]; rfl, shown⟩
  | reset => exact h.reset
  | remember => exact h.remember
  | complete spells => exact h.complete bounded spells

end

/-- Every run of the code has a result, which represents the editor's. -/
theorem represents_run {ops : List Op} {marked : List (EditorOp α)}
    (marks : List.Forall₂ (Marks A) ops marked) (h : Represents A input e) (bounded : e.Bounded) :
    ∃ after, ops.foldlM step input = some after ∧
      Represents A after (marked.foldl (Editor.step A) e) ∧
      (marked.foldl (Editor.step A) e).Bounded := by
  induction marks generalizing input e with
  | nil => exact ⟨input, rfl, h, bounded⟩
  | @cons op mark ops marked first _ ih =>
    obtain ⟨next, stepped, shown⟩ := h.step bounded first
    obtain ⟨after, ran, represents, final⟩ := ih shown (bounded.step mark)
    exact ⟨after, by rw [List.foldlM_cons, stepped]; exact ran, represents, final⟩

end Genrt.Shell
