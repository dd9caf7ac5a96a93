import Genrt.User.ShellInput
import Genrt.User.StdioExact

/-!
# The commands of the shell

The shell cuts an accepted line into words in place and runs the program that the first
word names. A pointer is the memory from the byte on that it points to. The results of
the system calls come from outside.
-/

namespace Genrt.Shell

open CString Stdio

def argMax : Nat := 16

def pathMax : Nat := 128

def exitName : Text := ⟨[0x65, 0x78, 0x69, 0x74], by decide⟩

def cdName : Text := ⟨[0x63, 0x64], by decide⟩

def rootDir : Text := ⟨[slash], by decide⟩

/-- `/bin/`. -/
def binDir : Text := ⟨[slash, 0x62, 0x69, 0x6e, slash], by decide⟩

/-- `%s`. -/
def nameFormat : Text := ⟨[0x25, 0x73], by decide⟩

def binFormat : Text := ⟨binDir.val ++ nameFormat.val, by decide⟩

inductive Call where
  | print (text : String)
  | exit (code : Nat)
  | chdir (path : Buffer)
  | printFile (path : Buffer)
  | fork
  | execve (path : Buffer) (argv : List (Option Buffer))
  | waitpid
deriving DecidableEq, Repr

/-- The results of the system calls. -/
structure Answers where
  chdir : Int
  fork : Int
  waitpid : Int
  exited : Bool

def isWordByte (byte : UInt8) : Bool := byte ≠ 0 ∧ ¬ isBlank byte

/-- The rounds of the loop in `split_words`, with the bytes in front of the pointer and from it
on: the offsets of the words, if there is room for them, and the line. The check at the top
of a round is the one behind the blanks when there are none. -/
def splitWords (maxArgs : Nat) :
    Nat → Buffer → Buffer → List Nat → Option (Option (List Nat) × Buffer)
  | 0, _, _, _ => none
  | fuel + 1, front, back, argv => do
    let front := front ++ back.takeWhile isBlank
    let back := back.dropWhile isBlank
    if (← back.head?) = 0 then some (some argv, front ++ back)
    else if argv.length = maxArgs then some (none, front ++ back)
    else
      let argv := argv ++ [front.length]
      let front := front ++ back.takeWhile isWordByte
      let back := back.dropWhile isWordByte
      if (← back.head?) = 0 then splitWords maxArgs fuel front back argv
      else splitWords maxArgs fuel (front ++ [0]) (back.drop 1) argv

/-- The string that a pointer points to. -/
def textOf (buffer : Buffer) : Option Text :=
  let bytes := buffer.takeWhile (· ≠ 0)
  if bytes.length < buffer.length then
    some ⟨bytes, fun member => by simpa using List.mem_takeWhile_imp member⟩
  else none

/-- Whether the line is the name of a file to show. -/
def namesFile (word : Buffer) (argc : Nat) : Option Bool := do
  if (← load word 0) = slash ∧ argc = 1 then return !(← strncmp word binDir.buffer 5)
  else return false

/-- The path of a program in the buffer of the shell, if it is found to fit. -/
def buildPath (word path : Buffer) : Option (Option Buffer) := do
  let name ← textOf word
  if (← all (· ≠ slash) word) = false then
    let (_, path) ← vsnprintf path pathMax nameFormat [.string name]
    return some path
  else
    let (count, path) ← vsnprintf path pathMax binFormat [.string name]
    return if pathMax ≤ count then none else some path

def changeDirectory (answers : Answers) (target : Buffer) : List Call :=
  .chdir target :: if answers.chdir < 0 then [.print "cd: failed\n"] else []

def startProgram (answers : Answers) (path : Buffer) (argv : List (Option Buffer)) : List Call :=
  if answers.fork < 0 then [.fork, .print "fork failed\n"]
  else if answers.fork = 0 then
    -- `execve` comes back only if it fails
    [.fork, .execve path argv, .print "exec failed\n", .exit 127]
  else if answers.waitpid < 0 then [.fork, .waitpid, .print "wait failed\n"]
  else if answers.exited then [.fork, .waitpid]
  else [.fork, .waitpid, .print "command faulted\n"]

/-- The calls that `run_command` makes. -/
def runCommand (answers : Answers) (line path : Buffer) : Option (List Call) := do
  match ← splitWords argMax line.length [] line [] with
  | (none, _) => return [.print "too many args\n"]
  | (some [], _) => return []
  | (some (first :: rest), line) =>
    let word := line.drop first
    if ← strcmp word exitName.buffer then return [.exit 0]
    else if ← strcmp word cdName.buffer then
      return match rest with
        | [] => changeDirectory answers rootDir.buffer
        | [target] => changeDirectory answers (line.drop target)
        | _ => [.print "cd: usage\n"]
    else if ← namesFile word (rest.length + 1) then return [.printFile word]
    else match ← buildPath word path with
      | none => return [.print "command path too long\n"]
      | some path =>
        return startProgram answers path
          ((first :: rest).map (fun p => some (line.drop p)) ++ [none])

/-! ### What was typed -/

/-- The longest runs of characters other than space and tab. -/
def words (text : List UInt8) : List (List UInt8) := (text.splitOnP isBlank).filter (· ≠ [])

def commandPath (first : List UInt8) : List UInt8 :=
  if slash ∈ first then first else binDir.val ++ first

def Call.starts : Call → Bool
  | .fork | .execve _ _ => true
  | _ => false

/-- The calls run the command with these words. -/
def Runs (answers : Answers) (calls : List Call) : List (List UInt8) → Prop
  | [] => calls = []
  | first :: rest =>
    if first = exitName.val then calls = [.exit 0]
    else if first = cdName.val then ∀ call ∈ calls, call.starts = false
    else if first.head? = some slash ∧ rest = [] ∧ ¬ binDir.val <+: first then
      ∃ word, Holds word first ∧ calls = [.printFile word]
    else if pathMax ≤ (commandPath first).length then calls = [.print "command path too long\n"]
    else ∃ path argv, Holds path (commandPath first) ∧ List.Forall₂ Holds argv (first :: rest) ∧
      calls = startProgram answers path (argv.map some ++ [none])

/-- The line does not start a program by a path that is cut: the first word has no slash or is
shorter than the path buffer, or it is the name of a file to show. -/
def Uncut : List (List UInt8) → Prop
  | [] => True
  | first :: rest => slash ∈ first → first.length < pathMax ∨
      first.head? = some slash ∧ rest = [] ∧ ¬ binDir.val <+: first

/-! ### Cutting the line -/

theorem words_append {separator : UInt8} (blank : isBlank separator = true)
    (before after : List UInt8) :
    words (before ++ separator :: after) = words before ++ words after := by
  rw [words, List.splitOnP_append_cons _ _ blank, List.filter_append]
  rfl

theorem words_blanks {blanks : List UInt8} (blank : ∀ byte ∈ blanks, isBlank byte = true)
    (text : List UInt8) : words (blanks ++ text) = words text := by
  induction blanks with
  | nil => rfl
  | cons byte rest ih =>
    rw [List.forall_mem_cons] at blank
    rw [List.cons_append, ← ih blank.2]
    exact words_append blank.1 [] (rest ++ text)

theorem words_word {word tail : List UInt8} (bare : ∀ byte ∈ word, isBlank byte = false)
    (nonempty : word ≠ []) (ends : ∀ byte ∈ tail.head?, isBlank byte = true) :
    words (word ++ tail) = word :: words (tail.drop 1) := by
  have single : words word = [word] := by
    rw [words, List.splitOnP_eq_singleton bare]
    simp [nonempty]
  cases tail with
  | nil => rw [List.append_nil, single]; rfl
  | cons separator more => rw [words_append (ends separator rfl), single]; rfl

/-- A loop over the bytes of a string stops in the string or at its end. -/
theorem exists_while {pass : UInt8 → Bool} (stops : pass 0 = false) (text rest : Buffer) :
    ∃ front back, text = front ++ back ∧ (∀ byte ∈ front, pass byte = true) ∧
      (∀ byte ∈ back.head?, pass byte = false) ∧ (text ++ 0 :: rest).takeWhile pass = front ∧
      (text ++ 0 :: rest).dropWhile pass = back ++ 0 :: rest := by
  induction text with
  | nil => exact ⟨[], [], rfl, nofun, nofun, by simp [stops], by simp [stops]⟩
  | cons byte bytes ih =>
    obtain ⟨front, back, rfl, passed, ends, taken, dropped⟩ := ih
    cases passes : pass byte with
    | true => exact ⟨byte :: front, back, rfl, by simpa [passes] using passed, ends,
        by simp_all, by simp_all⟩
    | false => exact ⟨[], byte :: (front ++ back), rfl, nofun, by simpa using passes,
        by simp [passes], by simp [passes]⟩

/-- The rounds from a pointer on find the words behind it and do not touch what is in front. -/
theorem splitWords_eq {maxArgs fuel : Nat} {front text rest : Buffer} {argv : List Nat}
    (nonzero : 0 ∉ text) (enough : text.length < fuel)
    (few : argv.length + (words text).length ≤ maxArgs) :
    ∃ offsets line, splitWords maxArgs fuel front (text ++ 0 :: rest) argv =
        some (some (argv ++ offsets), line) ∧ front <+: line ∧
      List.Forall₂ (fun p word => Holds (line.drop p) word ∧ word.length ≤ text.length) offsets
        (words text) := by
  induction fuel generalizing front text argv with
  | zero => cases enough
  | succ fuel ih =>
    obtain ⟨lead, after, rfl, blank, begins, taken, dropped⟩ :=
      @exists_while isBlank (by decide) text rest
    obtain ⟨word, tail, rfl, passed, stops, taken', dropped'⟩ :=
      @exists_while isWordByte (by decide) after rest
    simp only [List.mem_append, not_or] at nonzero
    have bare : ∀ byte ∈ word, isBlank byte = false := by
      intro byte member
      simpa [isWordByte] using (show _ ∧ _ by simpa [isWordByte] using passed byte member).2
    have ends : ∀ byte ∈ tail.head?, isBlank byte = true := by
      intro byte head
      have zero : byte ≠ 0 := fun zero => nonzero.2.2 (zero ▸ List.mem_of_mem_head? head)
      simpa [isWordByte, zero] using stops byte head
    rw [words_blanks blank] at few ⊢
    rw [splitWords, taken, dropped, taken', dropped']
    cases word with
    | nil =>
      obtain rfl : tail = [] := by
        cases tail with
        | nil => rfl
        | cons byte _ => exact absurd ((begins byte rfl).symm.trans (ends byte rfl)) nofun
      refine ⟨[], front ++ lead ++ 0 :: rest, ?_, ?_, .nil⟩
      · rw [List.append_nil argv]
        rfl
      · rw [List.append_assoc]
        exact List.prefix_append ..
    | cons byte bytes =>
      rw [words_word bare nofun ends] at few ⊢
      have first : byte ≠ 0 := fun zero => by simp [zero] at nonzero
      have room : argv.length ≠ maxArgs := by
        rw [List.length_cons] at few
        omega
      have loaded : (byte :: bytes ++ tail ++ 0 :: rest).head? = some byte := rfl
      simp only [loaded, Option.bind_eq_bind, Option.bind_some, if_neg first, if_neg room]
      cases tail with
      | nil =>
        -- the line ends with the word, so the next round is the last
        obtain ⟨left, rfl⟩ : ∃ left, fuel = left + 1 := ⟨fuel - 1, by simp at enough; omega⟩
        refine ⟨[(front ++ lead).length], front ++ lead ++ (byte :: bytes ++ 0 :: rest), ?_, ?_,
          .cons ⟨?_, by simp⟩ .nil⟩
        · simp [splitWords, isBlank, space, tab]
        · rw [List.append_assoc]
          exact List.prefix_append ..
        · rw [List.drop_left]
          exact .of_append nonzero.2.1 rest
      | cons separator more =>
        have other : separator ≠ 0 := fun zero => by simp [zero] at nonzero
        obtain ⟨offsets, line, run, kept, found⟩ := @ih (front ++ lead ++ byte :: bytes ++ [0]) more
          (argv ++ [(front ++ lead).length]) (fun zero => nonzero.2.2 (List.mem_cons_of_mem _ zero))
          (by simp at enough; omega) (by simp at few ⊢; omega)
        refine ⟨(front ++ lead).length :: offsets, line, ?_, ?_,
          .cons ⟨?_, by simp; omega⟩ (found.imp fun _ _ old => ⟨old.1, by simp; omega⟩)⟩
        · rw [List.cons_append, List.head?_cons, Option.bind_some, if_neg other]
          rwa [List.append_assoc argv] at run
        · refine List.IsPrefix.trans ?_ kept
          simp only [List.append_assoc]
          exact List.prefix_append ..
        · obtain ⟨behind, rfl⟩ := kept
          rw [List.append_assoc, List.append_assoc (front ++ lead), List.drop_left]
          exact ⟨nonzero.2.1, behind, by simp⟩

/-! ### The path -/

theorem textOf_eq {buffer : Buffer} {text : List UInt8} (h : Holds buffer text) :
    textOf buffer = some ⟨text, h.nonzero⟩ := by
  obtain ⟨rest, rfl⟩ := h.eq_append
  simp only [textOf, takeWhile_nonzero h.nonzero]
  rw [if_pos (by simp)]

/-- A path that fits is written in full. -/
theorem vsnprintf_path {path : Buffer} (room : path.length = pathMax) (format : Text)
    (items : List Item) (taken : List Arg) {text : List UInt8}
    (spelled : spelling items = format.val)
    (needs : args items = taken) (printed : output items = text) (nonzero : 0 ∉ text)
    (small : text.length ≤ intMax) :
    ∃ built, vsnprintf path pathMax format taken = some ((text.length : Int), built) ∧
      (text.length < pathMax → Holds built text) := by
  obtain rfl : formatOf items = format := Subtype.ext spelled
  subst needs printed
  have exact_output := vsnprintf_eq items small [] path (Nat.le_of_eq room.symm)
  rw [List.append_nil] at exact_output
  refine ⟨_, exact_output, fun fits => ?_⟩
  rw [if_neg (by decide)]
  dsimp only
  rw [Nat.min_eq_left (Nat.le_sub_one_of_lt fits), List.take_length]
  exact .of_append nonzero _

variable {word path : Buffer} {first : List UInt8}

theorem buildPath_eq (h : Holds word first) (short : first.length ≤ lineMax)
    (room : path.length = pathMax) :
    ∃ built, ((commandPath first).length < pathMax → Holds built (commandPath first)) ∧
      buildPath word path = some
        (if slash ∉ first ∧ pathMax ≤ (commandPath first).length then none else some built) := by
  have bare : (first.all (· ≠ slash) = false) ↔ slash ∈ first := by simp
  have bound : lineMax + 5 ≤ intMax := by decide
  rw [buildPath, textOf_eq h]
  simp only [Option.bind_eq_bind, Option.bind_some, h.all_eq, bare]
  let name : Item := .string .plain (some ⟨first, h.nonzero⟩)
  have printed : name.output = first := by
    simp [name, Item.output, Field.padText, Field.plain, Field.width, decimalFrom]
  by_cases inside : slash ∈ first
  · obtain ⟨built, made, holds⟩ := vsnprintf_path room nameFormat [name]
      [.string (some ⟨first, h.nonzero⟩)] rfl rfl
      (by rw [output, List.flatMap_singleton, printed]) h.nonzero (by omega)
    have target : commandPath first = first := if_pos inside
    rw [target, if_pos inside]
    refine ⟨built, holds, ?_⟩
    rw [made, if_neg fun refused => refused.1 inside]
    rfl
  · obtain ⟨built, made, holds⟩ := vsnprintf_path room binFormat
      [.literal slash (by decide), .literal 0x62 (by decide), .literal 0x69 (by decide),
        .literal 0x6e (by decide), .literal slash (by decide), name]
      [.string (some ⟨first, h.nonzero⟩)] rfl rfl
      (show _ = binDir.val ++ first by simp [output, printed]; rfl)
      (by simp [h.nonzero, binDir.property]) (by simp [binDir]; omega)
    have target : commandPath first = binDir.val ++ first := if_neg inside
    rw [target, if_neg inside]
    refine ⟨built, holds, ?_⟩
    rw [made]
    simp only [Option.bind_some, Int.ofNat_le, inside, not_false_eq_true, true_and]
    rfl

theorem namesFile_eq (h : Holds word first) (argc : Nat) : namesFile word argc =
    some (decide (first.head? = some slash ∧ argc = 1 ∧ ¬ binDir.val <+: first)) := by
  have compared := h.strncmp_eq (Holds.buffer_text binDir)
  obtain ⟨rest, rfl⟩ := h.eq_append
  have begins : load (first ++ 0 :: rest) 0 = some (first.headD 0) := by
    cases first <;> rfl
  have leads : first.headD 0 = slash ↔ first.head? = some slash := by
    cases first <;> simp [slash]
  rw [namesFile, begins]
  simp only [Option.bind_eq_bind, Option.bind_some, leads]
  rw [show strncmp _ _ 5 = _ from compared]
  by_cases file : first.head? = some slash ∧ argc = 1
  · rw [if_pos file]
    simp [file, ← List.isPrefixOf_iff_prefix]
  · rw [if_neg file]
    simp [← and_assoc, file]

theorem startProgram_ne (answers : Answers) (path : Buffer) (argv : List (Option Buffer))
    (text : String) : startProgram answers path argv ≠ [.print text] := by
  unfold startProgram
  split_ifs <;> simp

theorem changeDirectory_starts (answers : Answers) (target : Buffer) :
    ∀ call ∈ changeDirectory answers target, call.starts = false := by
  unfold changeDirectory
  split <;> simp [Call.starts]

/-- An accepted line runs the command that was typed, if and only if its path is not cut. -/
theorem runs_typed_command (answers : Answers) {line : Buffer} {text : List UInt8}
    (holds : Holds line text) (accepted : text.length ≤ lineMax)
    (few : (words text).length ≤ argMax) (room : path.length = pathMax) :
    (∃ calls, runCommand answers line path = some calls ∧ Runs answers calls (words text)) ↔
      Uncut (words text) := by
  obtain ⟨rest, rfl⟩ := holds.eq_append
  obtain ⟨offsets, line, split, -, found⟩ := @splitWords_eq argMax (text ++ 0 :: rest).length []
    text rest [] holds.nonzero holds.length_lt (by simpa using few)
  rw [List.nil_append] at split
  rw [runCommand, split]
  generalize words text = typed at few found ⊢
  cases found with
  | nil => exact iff_of_true ⟨[], rfl, rfl⟩ trivial
  | @cons p first ps others begins found =>
    obtain ⟨begins, short⟩ := begins
    obtain ⟨built, made, path_eq⟩ := buildPath_eq begins (Nat.le_trans short accepted) room
    have alone : ps.length + 1 = 1 ↔ others = [] := by simp [found.length_eq]
    simp only [Option.bind_eq_bind, Option.bind_some, begins.strcmp_eq (Holds.buffer_text _),
      namesFile_eq begins, alone, path_eq, Runs, decide_eq_true_eq, Uncut]
    by_cases exits : first = exitName.val
    · simp only [if_pos exits]
      refine iff_of_true ⟨_, rfl, rfl⟩ fun inside => ?_
      subst exits
      exact absurd inside (by decide)
    simp only [if_neg exits]
    by_cases changes : first = cdName.val
    · simp only [if_pos changes]
      refine iff_of_true ⟨_, rfl, ?_⟩ fun inside => ?_
      · rcases ps with _ | ⟨target, _ | _⟩
        · exact changeDirectory_starts _ _
        · exact changeDirectory_starts _ _
        · simp [Call.starts]
      · subst changes
        exact absurd inside (by decide)
    simp only [if_neg changes]
    by_cases file : first.head? = some slash ∧ others = [] ∧ ¬ binDir.val <+: first
    · simp only [if_pos file]
      exact iff_of_true ⟨_, rfl, _, begins, rfl⟩ fun _ => .inr file
    simp only [if_neg file, or_iff_left file]
    by_cases long : pathMax ≤ (commandPath first).length
    · simp only [if_pos long, and_iff_left long]
      by_cases inside : slash ∈ first
      · -- the path is cut, and the program is started
        rw [commandPath, if_pos inside] at long
        refine iff_of_false ?_ fun fits => absurd (fits inside) (Nat.not_lt.mpr long)
        rw [if_neg (not_not.mpr inside)]
        rintro ⟨calls, started, rfl⟩
        exact startProgram_ne _ _ _ _ (Option.some.inj started)
      · rw [if_pos inside]
        exact iff_of_true ⟨_, rfl, rfl⟩ fun slashed => absurd slashed inside
    simp only [if_neg long, if_neg fun refused : slash ∉ first ∧ _ => long refused.2]
    refine iff_of_true ⟨_, rfl, built, (p :: ps).map (line.drop ·),
      made (Nat.lt_of_not_le long), ?_, ?_⟩ fun inside => ?_
    · rw [List.forall₂_map_left_iff]
      exact .cons begins (found.imp fun _ _ word => word.1)
    · rw [List.map_map]
      rfl
    · rw [commandPath, if_pos inside] at long
      exact Nat.lt_of_not_le long

/-- `ls -l`. -/
theorem runs_typed_command_ls :
    ∃ calls, runCommand ⟨0, 0, 0, true⟩ ([0x6c, 0x73, space, 0x2d, 0x6c] ++ [0])
      (List.replicate pathMax 0) = some calls ∧
        Runs ⟨0, 0, 0, true⟩ calls [[0x6c, 0x73], [0x2d, 0x6c]] := by
  have holds : Holds ([0x6c, 0x73, space, 0x2d, 0x6c] ++ [0]) [0x6c, 0x73, space, 0x2d, 0x6c] :=
    .of_append (by decide) []
  have uncut : Uncut (words [0x6c, 0x73, space, 0x2d, 0x6c]) := by
    rw [show words [0x6c, 0x73, space, 0x2d, 0x6c] = [[0x6c, 0x73], [0x2d, 0x6c]] by decide]
    exact fun inside => absurd inside (by decide)
  exact (runs_typed_command _ holds (by decide) (by decide) List.length_replicate).mpr uncut

/-- The path of this command is cut. -/
def longCommand : List UInt8 := [0x61, slash] ++ List.replicate 126 0x62

theorem long_path_cut : words longCommand = [longCommand] ∧ commandPath longCommand = longCommand ∧
    runCommand ⟨0, 0, 0, true⟩ (longCommand ++ [0]) (List.replicate pathMax 0) =
      some [.fork, .execve (longCommand.take 127 ++ [0]) [some (longCommand ++ [0]), none],
        .print "exec failed\n", .exit 127] ∧
    ¬ Holds (longCommand.take 127 ++ [0]) longCommand := by
  refine ⟨by decide +kernel, by decide +kernel, by decide +kernel, fun holds => ?_⟩
  exact absurd holds.length_lt (by decide +kernel)

end Genrt.Shell
