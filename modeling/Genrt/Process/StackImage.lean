import Genrt.Foundation.CString
import Genrt.Process.Image

/-!
# The initial stack decodes to its arguments

The strings make one block of bytes below the top of the stack and the table makes another
one below it. So the memory after a successful run is the memory before it with two
writes, and every pointer of the table leads to its string.
-/

namespace Genrt

open Fallible Words PhysicalMemory

/-! ### Writes inside the stack -/

/-- Nothing but the bytes of the stack differs. -/
structure Confined (stack : OwnedUserStack) (m m' : PhysicalMemory) : Prop where
  free : m'.free = m.free
  outside : ∀ pa, pa < stack.frames ∨ stack.frames + userStackSize ≤ pa → m'.cells pa = m.cells pa

theorem Confined.trans {stack : OwnedUserStack} {m₁ m₂ m₃ : PhysicalMemory}
    (first : Confined stack m₁ m₂) (second : Confined stack m₂ m₃) : Confined stack m₁ m₃ :=
  ⟨second.free.trans first.free,
    fun pa apart => (second.outside pa apart).trans (first.outside pa apart)⟩

namespace OwnedUserStack

variable {stack : OwnedUserStack} {m : PhysicalMemory} {sp va : Nat} {bytes : List UInt8}

theorem put_nil : m.put stack va [] = m := by
  unfold put copyBytesToPhys
  congr 1
  funext pa
  split <;> rfl

section

variable (above : stack.base ≤ va)

include above

theorem put_append (first second : List UInt8) :
    (m.put stack va first).put stack (va + first.length) second =
      m.put stack va (first ++ second) := by
  have place : stack.frames + (va + first.length - stack.base) =
      stack.frames + (va - stack.base) + first.length := by omega
  rw [put, place]
  exact copyBytesToPhys_append ..

theorem put_append_comm (first second : List UInt8) :
    (m.put stack (va + first.length) second).put stack va first =
      m.put stack va (first ++ second) := by
  have place : stack.frames + (va + first.length - stack.base) =
      stack.frames + (va - stack.base) + first.length := by omega
  unfold put
  rw [place]
  exact copyBytesToPhys_append_comm ..

theorem confined_put (room : va + bytes.length ≤ stack.base + userStackSize) :
    Confined stack m (m.put stack va bytes) :=
  ⟨rfl, fun _ _ => cells_copyBytesToPhys_outside (by omega)⟩

/-! ### The steps -/

theorem writeStackBytes_ok (room : va + bytes.length ≤ stack.base + userStackSize) :
    stack.writeStackBytes va bytes m = .ok () (m.put stack va bytes) := by
  unfold writeStackBytes
  cases bytes with
  | nil => exact congrArg (EStateM.Result.ok ()) put_nil.symm
  | cons byte rest =>
    rw [if_neg (by simp), bind_of_ok (failIf_of_not (Nat.not_lt.mpr above)),
      bind_of_ok (failIf_of_not (by omega))]
    rfl

theorem writeStackByte_ok {byte : UInt8} (room : va < stack.base + userStackSize) :
    stack.writeStackByte va byte m = .ok () (m.put stack va [byte]) := by
  unfold writeStackByte
  rw [bind_of_ok (failIf_of_not (Nat.not_lt.mpr above)), bind_of_ok (failIf_of_not (by omega))]
  rfl

end

theorem pushStackCstr_ok (room : stack.base + (bytes.length + 1) ≤ sp)
    (below : sp ≤ stack.base + userStackSize) : stack.pushStackCstr sp bytes m =
      .ok (sp - (bytes.length + 1)) (m.put stack (sp - (bytes.length + 1)) (bytes ++ [0])) := by
  unfold pushStackCstr
  rw [bind_of_ok (failIf_of_not (by omega)), bind_of_ok (failIf_of_not (by omega)),
    bind_of_ok (writeStackBytes_ok (by omega) (by omega)),
    bind_of_ok (writeStackByte_ok (by omega) (by omega)), put_append (by omega)]
  rfl

theorem pushStackCstr_error (short : sp < stack.base + (bytes.length + 1)) :
    stack.pushStackCstr sp bytes m = .error () m := by
  unfold pushStackCstr
  by_cases small : sp < bytes.length + 1
  · rw [bind_of_error (failIf_of small)]
  · rw [bind_of_ok (failIf_of_not small), bind_of_error (failIf_of (by omega))]

/-- Strings with their terminators, one after the other. -/
def terminated (strings : List (List UInt8)) : List UInt8 := strings.flatMap (· ++ [0])

/-- The addresses of strings that lie one after the other. -/
def layout (start : Nat) : List (List UInt8) → List Nat
  | [] => []
  | string :: rest => start :: layout (start + (string.length + 1)) rest

theorem terminated_cons (string : List UInt8) (rest : List (List UInt8)) :
    terminated (string :: rest) = string ++ [0] ++ terminated rest := List.flatMap_cons

theorem length_terminated_cons (string : List UInt8) (rest : List (List UInt8)) :
    (terminated (string :: rest)).length = string.length + 1 + (terminated rest).length := by
  rw [terminated_cons, List.length_append, List.length_append, List.length_singleton]

variable {strings : List (List UInt8)}

theorem pushStrings_ok (room : stack.base + (terminated strings).length ≤ sp)
    (below : sp ≤ stack.base + userStackSize) : stack.pushStrings sp strings m =
      .ok (sp - (terminated strings).length, layout (sp - (terminated strings).length) strings)
        (m.put stack (sp - (terminated strings).length) (terminated strings)) := by
  induction strings with
  | nil => exact congrArg (EStateM.Result.ok (sp, [])) put_nil.symm
  | cons string rest ih =>
    rw [length_terminated_cons] at room ⊢
    have start : sp - (terminated rest).length - (string.length + 1) =
        sp - (string.length + 1 + (terminated rest).length) := by omega
    have size : (string ++ [0]).length = string.length + 1 := List.length_append
    have next : sp - (string.length + 1 + (terminated rest).length) + (string.length + 1) =
        sp - (terminated rest).length := by omega
    have low : stack.base ≤ sp - (string.length + 1 + (terminated rest).length) := by omega
    have joined := @put_append_comm stack m _ low (string ++ [0]) (terminated rest)
    rw [size, next] at joined
    rw [pushStrings, bind_of_ok (ih (by omega))]
    dsimp only
    rw [bind_of_ok (pushStackCstr_ok (by omega) (by omega)), start, terminated_cons, layout, next,
      joined]
    rfl

theorem pushStrings_error (short : sp < stack.base + (terminated strings).length)
    (above : stack.base ≤ sp) (below : sp ≤ stack.base + userStackSize) :
    ∃ m', stack.pushStrings sp strings m = .error () m' ∧ Confined stack m m' := by
  induction strings with
  | nil => exact absurd short (Nat.not_lt.mpr above)
  | cons string rest ih =>
    rw [length_terminated_cons] at short
    by_cases room : stack.base + (terminated rest).length ≤ sp
    · have pushed := pushStrings_ok room below (m := m)
      have size : sp - (terminated rest).length + (terminated rest).length ≤
          stack.base + userStackSize := by omega
      refine ⟨_, ?_, confined_put (by omega) size⟩
      rw [pushStrings, bind_of_ok pushed]
      dsimp only
      rw [bind_of_error (pushStackCstr_error (by omega))]
    · obtain ⟨m', failed, confined⟩ := ih (Nat.not_le.mp room)
      exact ⟨m', by rw [pushStrings, bind_of_error failed], confined⟩

variable {words : List Nat}

theorem writeWords_ok (above : stack.base ≤ va)
    (room : va + 8 * words.length ≤ stack.base + userStackSize) :
    stack.writeWords va words m = .ok () (m.put stack va (words.flatMap (toBytes 8))) := by
  induction words generalizing va m with
  | nil => exact congrArg (EStateM.Result.ok ()) put_nil.symm
  | cons word rest ih =>
    rw [List.length_cons] at room
    have size := length_toBytes 8 word
    have first : stack.writeStackU64 va word m = .ok () (m.put stack va (toBytes 8 word)) :=
      writeStackBytes_ok above (by omega)
    rw [writeWords, bind_of_ok first, ih (by omega) (by omega), List.flatMap_cons]
    have joined := put_append above (toBytes 8 word) (rest.flatMap (toBytes 8)) (m := m)
    rw [size] at joined
    rw [joined]

/-! ### The whole run -/

/-- The stack that a new program gets. -/
def initial (frames : Nat) : OwnedUserStack :=
  ⟨frames, userStackTop - userStackSize, userStackSize⟩

theorem initial_top (frames : Nat) : (initial frames).base + userStackSize = userStackTop :=
  Nat.sub_add_cancel (by decide)

/-- The lowest address of the strings. -/
def stringPointer (args : ExecArgs) : Nat :=
  userStackTop - (terminated (args.argv ++ args.envp)).length

/-- The address of the table, when there is room for it. -/
def tablePointer (args : ExecArgs) : Nat :=
  alignDown (alignDown (stringPointer args) 16 -
    execStackTableWords args.argv.length args.envp.length * 8) 16

/-- The table: the number of arguments, and the pointers to the strings. -/
def tableWords (args : ExecArgs) : List Nat :=
  args.argv.length :: layout (stringPointer args) args.argv ++
    0 :: layout (stringPointer args + (terminated args.argv).length) args.envp ++ [0]

theorem alignDown_sixteen (value : Nat) : alignDown value 16 = value / 16 * 16 :=
  if_neg (by decide)

theorem length_layout (start : Nat) (strings : List (List UInt8)) :
    (layout start strings).length = strings.length := by
  induction strings generalizing start with
  | nil => rfl
  | cons string rest ih => rw [layout, List.length_cons, ih, List.length_cons]

theorem length_tableWords (args : ExecArgs) :
    (tableWords args).length = execStackTableWords args.argv.length args.envp.length := by
  simp only [tableWords, List.length_append, List.length_cons, length_layout, List.length_nil,
    execStackTableWords]
  omega

theorem length_terminated_append (first second : List (List UInt8)) :
    (terminated (first ++ second)).length = (terminated first).length +
      (terminated second).length := by
  rw [terminated, List.flatMap_append, List.length_append]
  rfl

/-- The strings fit, and so does the table below them. -/
def Fits (args : ExecArgs) : Prop :=
  (terminated (args.argv ++ args.envp)).length ≤ userStackSize ∧
    userStackTop - userStackSize ≤ tablePointer args

/-- The memory with the strings and the table. -/
def withImage (m : PhysicalMemory) (frames : Nat) (args : ExecArgs) : PhysicalMemory :=
  (m.put (initial frames) (stringPointer args) (terminated (args.argv ++ args.envp))).put
    (initial frames) (tablePointer args) ((tableWords args).flatMap (toBytes 8))

variable {frames : Nat} {args : ExecArgs}

theorem table_below_strings (fits : Fits args) :
    tablePointer args + 8 * (tableWords args).length ≤ stringPointer args := by
  have low := fits.2
  rw [length_tableWords]
  unfold tablePointer at low ⊢
  simp only [alignDown_sixteen, userStackTop, userStackSize] at low ⊢
  omega

theorem stringPointer_middle (fits : (terminated (args.argv ++ args.envp)).length ≤ userStackSize) :
    userStackTop - (terminated args.envp).length =
      stringPointer args + (terminated args.argv).length := by
  rw [length_terminated_append] at fits
  rw [stringPointer, length_terminated_append]
  simp only [userStackTop, userStackSize] at fits ⊢
  omega

theorem pushVectors_ok (fits : (terminated (args.argv ++ args.envp)).length ≤ userStackSize) :
    ∃ m₁, (initial frames).pushStrings userStackTop args.envp m =
        .ok (stringPointer args + (terminated args.argv).length,
          layout (stringPointer args + (terminated args.argv).length) args.envp) m₁ ∧
      (initial frames).pushStrings (stringPointer args + (terminated args.argv).length) args.argv
        m₁ = .ok (stringPointer args, layout (stringPointer args) args.argv)
          (m.put (initial frames) (stringPointer args) (terminated (args.argv ++ args.envp))) := by
  have total := length_terminated_append args.argv args.envp
  have top := initial_top frames
  have middle := stringPointer_middle fits
  have lowest : stringPointer args + (terminated args.argv).length - (terminated args.argv).length =
      stringPointer args := Nat.add_sub_cancel ..
  have above : (initial frames).base ≤ stringPointer args := by
    unfold stringPointer
    omega
  have first := @pushStrings_ok (initial frames) m userStackTop args.envp (by omega) (by omega)
  have second := @pushStrings_ok (initial frames)
    (m.put (initial frames) (stringPointer args + (terminated args.argv).length)
      (terminated args.envp))
    (stringPointer args + (terminated args.argv).length) args.argv (by omega) (by omega)
  rw [middle] at first
  rw [lowest, put_append_comm above] at second
  have joined : terminated (args.argv ++ args.envp) =
      terminated args.argv ++ terminated args.envp := List.flatMap_append
  rw [joined]
  exact ⟨_, first, second⟩

theorem buildInitialUserStack_ok (fits : Fits args) :
    (initial frames).buildInitialUserStack args m =
      .ok (tablePointer args) (withImage m frames args) := by
  obtain ⟨m₁, first, second⟩ := @pushVectors_ok m frames args fits.1
  have low := fits.2
  have below := table_below_strings fits
  have words := length_tableWords args
  have high : stringPointer args ≤ userStackTop := Nat.sub_le ..
  have room : ¬ alignDown (stringPointer args) 16 <
      execStackTableWords args.argv.length args.envp.length * 8 := by
    unfold tablePointer at low
    simp only [alignDown_sixteen, userStackTop, userStackSize] at low ⊢
    omega
  have top := initial_top frames
  have written := @writeWords_ok (initial frames)
    (m.put (initial frames) (stringPointer args) (terminated (args.argv ++ args.envp)))
    (tablePointer args) (tableWords args) low (by omega)
  unfold buildInitialUserStack
  rw [bind_of_ok first]
  dsimp only
  rw [bind_of_ok second]
  dsimp only
  have inside : ¬ tablePointer args < (initial frames).base := Nat.not_lt.mpr low
  unfold tablePointer at inside
  rw [bind_of_ok (failIf_of_not room), bind_of_ok (failIf_of_not inside)]
  exact bind_of_ok written _

theorem buildInitialUserStack_error (tight : ¬ Fits args) :
    ∃ m', (initial frames).buildInitialUserStack args m = .error () m' ∧
      Confined (initial frames) m m' := by
  have total := length_terminated_append args.argv args.envp
  have top := initial_top frames
  by_cases strings : (terminated (args.argv ++ args.envp)).length ≤ userStackSize
  · obtain ⟨m₁, first, second⟩ := @pushVectors_ok m frames args strings
    have low : tablePointer args < (initial frames).base :=
      Nat.not_le.mp fun low => tight ⟨strings, low⟩
    have above : (initial frames).base ≤ stringPointer args := by
      unfold stringPointer
      omega
    have room : stringPointer args + (terminated (args.argv ++ args.envp)).length ≤
        (initial frames).base + userStackSize := by
      unfold stringPointer
      omega
    refine ⟨_, ?_, confined_put above room⟩
    unfold buildInitialUserStack
    rw [bind_of_ok first]
    dsimp only
    rw [bind_of_ok second]
    dsimp only
    by_cases small : alignDown (stringPointer args) 16 <
        execStackTableWords args.argv.length args.envp.length * 8
    · rw [bind_of_error (failIf_of small)]
    · unfold tablePointer at low
      rw [bind_of_ok (failIf_of_not small), bind_of_error (failIf_of low)]
  · by_cases environment : (terminated args.envp).length ≤ userStackSize
    · have pushed := @pushStrings_ok (initial frames) m userStackTop args.envp (by omega) (by omega)
      have size : userStackTop - (terminated args.envp).length + (terminated args.envp).length ≤
          (initial frames).base + userStackSize := by omega
      have confined : Confined (initial frames) m _ := confined_put (by omega) size
      obtain ⟨m', failed, more⟩ := @pushStrings_error (initial frames)
        (m.put (initial frames) (userStackTop - (terminated args.envp).length)
          (terminated args.envp)) (userStackTop - (terminated args.envp).length) args.argv
        (by omega) (by omega) (by omega)
      refine ⟨m', ?_, confined.trans more⟩
      unfold buildInitialUserStack
      rw [bind_of_ok pushed]
      dsimp only
      rw [bind_of_error failed]
    · obtain ⟨m', failed, confined⟩ := @pushStrings_error (initial frames) m userStackTop args.envp
        (by omega) (by omega) (by omega)
      refine ⟨m', ?_, confined⟩
      unfold buildInitialUserStack
      rw [bind_of_error failed]

/-! ### Reading the stack -/

/-- What a program reads at its addresses of the stack. -/
def userBytes (stack : OwnedUserStack) (m : PhysicalMemory) : ByteMemory := fun va =>
  m.bytes (stack.frames + (va - stack.base))

/-- Words from an address upwards. -/
def wordsAt (memory : ByteMemory) (va : Nat) : Nat → List Nat
  | 0 => []
  | count + 1 => ofBytes (load memory va 8) :: wordsAt memory (va + 8) count

/-- A pointer to a copy of a string, which ends inside the stack. -/
structure Names (stack : OwnedUserStack) (memory : ByteMemory) (pointer : Nat)
    (string : List UInt8) : Prop where
  inside : stack.base ≤ pointer ∧ pointer + (string.length + 1) ≤ stack.base + stack.size
  copy : CString.Holds (load memory pointer (stack.base + stack.size - pointer)) string

/-- The ranges of strings with their terminators. -/
def spans (pointers : List Nat) (strings : List (List UInt8)) : List AddrRange :=
  List.zipWith (fun pointer string => ⟨pointer, pointer + (string.length + 1)⟩) pointers strings

def Apart (range other : AddrRange) : Prop := range.stop ≤ other.start ∨ other.stop ≤ range.start

/-- The stack pointer and the memory that a program with these arguments expects. -/
structure Decodes (stack : OwnedUserStack) (memory : ByteMemory) (sp : Nat) (args : ExecArgs)
    (argPtrs envPtrs : List Nat) : Prop where
  aligned : 16 ∣ sp
  above : stack.base ≤ sp
  below : sp + 8 * execStackTableWords args.argv.length args.envp.length ≤ stack.base + stack.size
  table : wordsAt memory sp (execStackTableWords args.argv.length args.envp.length) =
    args.argv.length :: argPtrs ++ 0 :: envPtrs ++ [0]
  argv : List.Forall₂ (Names stack memory) argPtrs args.argv
  envp : List.Forall₂ (Names stack memory) envPtrs args.envp
  disjoint : List.Pairwise Apart
    (⟨sp, sp + 8 * execStackTableWords args.argv.length args.envp.length⟩ ::
      spans (argPtrs ++ envPtrs) (args.argv ++ args.envp))

theorem load_put (above : stack.base ≤ va) :
    load (stack.userBytes (m.put stack va bytes)) va bytes.length = bytes := by
  have same : load (stack.userBytes (m.put stack va bytes)) va bytes.length =
      load (store m.bytes (stack.frames + (va - stack.base)) bytes)
        (stack.frames + (va - stack.base)) bytes.length := by
    refine load_congr fun index _ => ?_
    have place : stack.frames + (va + index - stack.base) =
        stack.frames + (va - stack.base) + index := by omega
    rw [userBytes, put, bytes_copyBytesToPhys, place]
  rw [same, load_store]

theorem length_flatMap_toBytes (words : List Nat) :
    (words.flatMap (toBytes 8)).length = 8 * words.length := by
  induction words with
  | nil => rfl
  | cons word rest ih =>
    rw [List.flatMap_cons, List.length_append, ih, length_toBytes, List.length_cons]
    omega

variable {memory : ByteMemory}

theorem wordsAt_of_load
    (content : load memory va (words.flatMap (toBytes 8)).length = words.flatMap (toBytes 8))
    (bounded : ∀ word ∈ words, word < 2 ^ 64) : wordsAt memory va words.length = words := by
  induction words generalizing va with
  | nil => rfl
  | cons word rest ih =>
    rw [List.flatMap_cons] at content
    obtain ⟨first, others⟩ := load_parts content
    rw [length_toBytes] at first others
    have value := @ofBytes_toBytes 8 word (bounded word (.head _))
    rw [List.length_cons, wordsAt, first, value,
      ih others fun word member => bounded word (.tail _ member)]

variable {start : Nat} {strings : List (List UInt8)}

theorem names_of_load (content : load memory start (terminated strings).length = terminated strings)
    (above : stack.base ≤ start)
    (below : start + (terminated strings).length ≤ stack.base + stack.size)
    (nonzero : ∀ string ∈ strings, 0 ∉ string) :
    List.Forall₂ (Names stack memory) (layout start strings) strings := by
  induction strings generalizing start with
  | nil => exact .nil
  | cons string rest ih =>
    have size : (string ++ [0]).length = string.length + 1 := List.length_append
    rw [terminated_cons] at content
    rw [length_terminated_cons] at below
    obtain ⟨first, others⟩ := load_parts content
    rw [size] at first others
    refine .cons ⟨⟨above, by omega⟩, nonzero string (.head _), ?_⟩
      (ih others (by omega) (by omega) fun string member =>
        nonzero string (.tail _ member))
    have length : stack.base + stack.size - start =
        string.length + 1 + (stack.base + stack.size - start - (string.length + 1)) := by omega
    rw [length, load_add, first]
    exact List.prefix_append ..

theorem layout_append (start : Nat) (first second : List (List UInt8)) :
    layout start (first ++ second) =
      layout start first ++ layout (start + (terminated first).length) second := by
  induction first generalizing start with
  | nil => rfl
  | cons string rest ih =>
    rw [List.cons_append, layout, ih, layout, List.cons_append, length_terminated_cons,
      Nat.add_assoc]

theorem layout_lt {pointer : Nat} (member : pointer ∈ layout start strings) :
    pointer < start + (terminated strings).length := by
  induction strings generalizing start with
  | nil => cases member
  | cons string rest ih =>
    rw [length_terminated_cons]
    rcases List.mem_cons.mp member with rfl | later
    · omega
    · have bound := ih later
      omega

theorem le_of_mem_spans {span : AddrRange} (member : span ∈ spans (layout start strings) strings) :
    start ≤ span.start := by
  induction strings generalizing start with
  | nil => cases member
  | cons string rest ih =>
    rcases List.mem_cons.mp member with rfl | later
    · exact le_rfl
    · have bound := ih later
      omega

theorem pairwise_spans (start : Nat) (strings : List (List UInt8)) :
    (spans (layout start strings) strings).Pairwise Apart := by
  induction strings generalizing start with
  | nil => exact .nil
  | cons string rest ih =>
    exact .cons (fun span member => .inl (le_of_mem_spans member)) (ih _)

theorem strings_end (fits : Fits args) :
    stringPointer args + (terminated (args.argv ++ args.envp)).length = userStackTop := by
  have strings := fits.1
  unfold stringPointer
  simp only [userStackTop, userStackSize] at strings ⊢
  omega

/-- The number of arguments and every pointer are words. -/
theorem tableWords_bounded (fits : Fits args) : ∀ word ∈ tableWords args, word < 2 ^ 64 := by
  have total := length_terminated_append args.argv args.envp
  have last := strings_end fits
  have top : userStackTop < 2 ^ 64 := by decide
  have below := table_below_strings fits
  rw [length_tableWords, execStackTableWords] at below
  intro word member
  simp only [tableWords, List.mem_append, List.mem_cons, List.not_mem_nil, or_false] at member
  rcases member with ((rfl | inArgs) | (rfl | inEnv)) | rfl
  · omega
  · have bound := layout_lt inArgs
    omega
  · exact Nat.two_pow_pos 64
  · have bound := layout_lt inEnv
    omega
  · exact Nat.two_pow_pos 64

/-- The table and the strings as they are read back. -/
theorem load_withImage (fits : Fits args) :
    wordsAt ((initial frames).userBytes (withImage m frames args)) (tablePointer args)
        (tableWords args).length = tableWords args ∧
      load ((initial frames).userBytes (withImage m frames args)) (stringPointer args)
        (terminated (args.argv ++ args.envp)).length = terminated (args.argv ++ args.envp) := by
  have low : (initial frames).base ≤ tablePointer args := fits.2
  have below := table_below_strings fits
  have above : (initial frames).base ≤ stringPointer args := by omega
  have apart : tablePointer args + ((tableWords args).flatMap (toBytes 8)).length ≤
      stringPointer args := by
    rw [length_flatMap_toBytes]
    exact below
  refine ⟨wordsAt_of_load (load_put low) (tableWords_bounded fits),
    (load_congr fun index _ => ?_).trans (load_put (m := m) above)⟩
  rw [withImage, userBytes, put, bytes_copyBytesToPhys, store_of_outside (by omega)]
  rfl

/-- The memory with the image decodes to the arguments. -/
theorem decodes_of_fits (fits : Fits args)
    (nonzero : ∀ string ∈ args.argv ++ args.envp, 0 ∉ string) :
    Decodes (initial frames) ((initial frames).userBytes (withImage m frames args))
      (tablePointer args) args (layout (stringPointer args) args.argv)
      (layout (stringPointer args + (terminated args.argv).length) args.envp) := by
  have total := length_terminated_append args.argv args.envp
  have top : (initial frames).base + (initial frames).size = userStackTop := initial_top frames
  have low : (initial frames).base ≤ tablePointer args := fits.2
  have below := table_below_strings fits
  have words := length_tableWords args
  have last := strings_end fits
  obtain ⟨table, block⟩ := @load_withImage m frames args fits
  have joined : terminated (args.argv ++ args.envp) =
      terminated args.argv ++ terminated args.envp := List.flatMap_append
  rw [joined] at block
  obtain ⟨arguments, environment⟩ := load_parts block
  refine ⟨?_, low, by omega, ?_, ?_, ?_, ?_⟩
  · rw [tablePointer, alignDown_sixteen]
    exact Nat.dvd_mul_left ..
  · rw [← words, table, tableWords]
  · exact names_of_load arguments (by omega) (by omega) fun string member =>
      nonzero string (List.mem_append_left _ member)
  · exact names_of_load environment (by omega) (by omega) fun string member =>
      nonzero string (List.mem_append_right _ member)
  · rw [← layout_append]
    refine .cons (fun span member => .inl ?_) (pairwise_spans ..)
    have start := le_of_mem_spans member
    dsimp only
    omega

end OwnedUserStack

/-! ### Accepted arguments -/

variable {args : ExecArgs}

namespace ExecArgs

open OwnedUserStack (terminated length_terminated_append)

theorem length_terminated_push (strings : List (List UInt8)) (value : List UInt8) :
    (terminated (strings ++ [value])).length = (terminated strings).length +
      (value.length + 1) := by
  rw [length_terminated_append]
  simp [terminated]

/-- The bytes are counted with the terminators. -/
theorem Accepted.stringBytes (accepted : args.Accepted) :
    args.stringBytes = (terminated (args.argv ++ args.envp)).length := by
  rw [length_terminated_append]
  induction accepted with
  | empty => rfl
  | push before pushed ih =>
    unfold ExecArgs.push at pushed
    simp only [Option.bind_eq_bind, Option.bind_eq_some_iff] at pushed
    obtain ⟨budget, -, pushed⟩ := pushed
    split at pushed
    · cases pushed
    · split at pushed
      · cases pushed
        dsimp only
        rw [length_terminated_push, ih]
        omega
      · cases pushed
        dsimp only
        rw [length_terminated_push, ih]
        omega

end ExecArgs

open OwnedUserStack in
/-- Building the initial stack of a program writes inside the stack only. The stack pointer
that it returns leads to the number of arguments and to pointers to copies of all strings, and
none of these overlap. It gives up only when the strings and the table, with at most thirty
bytes of padding, are larger than the stack. -/
theorem initial_stack_decodes (accepted : args.Accepted)
    (nonzero : ∀ string ∈ args.argv ++ args.envp, 0 ∉ string) (frames : Nat) (m : PhysicalMemory) :
    WP ((initial frames).buildInitialUserStack args)
      (fun sp after => Confined (initial frames) m after ∧
        ∃ argPtrs envPtrs, Decodes (initial frames) ((initial frames).userBytes after) sp args
          argPtrs envPtrs) (fun _ after => Confined (initial frames) m after ∧
        ∃ padding ≤ 30, userStackSize < args.stringBytes +
          8 * execStackTableWords args.argv.length args.envp.length + padding) m := by
  unfold WP
  by_cases fits : Fits args
  · have top := initial_top frames
    have below := table_below_strings fits
    have last := strings_end fits
    have low : (initial frames).base ≤ tablePointer args := fits.2
    have bytes := length_flatMap_toBytes (tableWords args)
    rw [buildInitialUserStack_ok fits]
    refine ⟨?_, _, _, decodes_of_fits fits nonzero⟩
    exact (confined_put (by omega) (by omega)).trans (confined_put low (by omega))
  · obtain ⟨after, failed, confined⟩ := @buildInitialUserStack_error m frames args fits
    rw [failed]
    refine ⟨confined, 30, le_rfl, ?_⟩
    rw [accepted.stringBytes]
    by_contra enough
    refine fits ⟨by omega, ?_⟩
    unfold tablePointer stringPointer
    simp only [alignDown_sixteen, userStackTop, userStackSize] at enough ⊢
    omega

open OwnedUserStack in
/-- The arguments `ls -l` with an environment of one string. -/
theorem initial_stack_decodes_ls :
    let args : ExecArgs := ⟨[[0x6c, 0x73], [0x2d, 0x6c]], [[0x41, 0x3d, 0x62]], 10⟩
    ∃ sp after argPtrs envPtrs,
      (initial 0x80000).buildInitialUserStack args ⟨0, fun _ => ⟨0, .stale⟩⟩ = .ok sp after ∧
      Decodes (initial 0x80000) ((initial 0x80000).userBytes after) sp args argPtrs envPtrs := by
  intro args
  have accepted : args.Accepted := by
    have first : ExecArgs.empty.push .argv [0x6c, 0x73] = some ⟨[[0x6c, 0x73]], [], 3⟩ := by decide
    have second : ExecArgs.push ⟨[[0x6c, 0x73]], [], 3⟩ .argv [0x2d, 0x6c] =
        some ⟨[[0x6c, 0x73], [0x2d, 0x6c]], [], 6⟩ := by decide
    have third : ExecArgs.push ⟨[[0x6c, 0x73], [0x2d, 0x6c]], [], 6⟩ .envp [0x41, 0x3d, 0x62] =
        some args := by decide
    exact .push (.push (.push .empty first) second) third
  have triple := initial_stack_decodes accepted (by decide) 0x80000 ⟨0, fun _ => ⟨0, .stale⟩⟩
  unfold WP at triple
  split at triple
  · next sp after run =>
    obtain ⟨-, argPtrs, envPtrs, decodes⟩ := triple
    exact ⟨sp, after, argPtrs, envPtrs, run, decodes⟩
  · obtain ⟨-, padding, small, large⟩ := triple
    simp only [args, userStackSize, execStackTableWords, List.length_cons, List.length_nil] at large
    omega

end Genrt
