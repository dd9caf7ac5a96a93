import Genrt.Foundation.Machine
import Genrt.Foundation.Result
import Genrt.Sched.State

/-!
# Process identities in user space

A process occupies one of a few slots. Its identity names the slot and a generation,
which advances when the slot is allocated and when an exited process is reclaimed.
`fork` hands the identity to C code as one number, which C keeps in a 32-bit `pid_t`
and passes back, sign-extended, to `waitpid` and `sched_getaffinity`.

The table is changed under one lock. Each move is what one holder of the lock does, so
the calls of all processes interleave freely. Of a process only what its slot and its
identity depend on is kept: whether it runs or has exited, and whether it was forked.
-/

namespace Genrt

open Function

def maxProcesses : Nat := 4

instance : NeZero maxProcesses := ⟨by decide⟩

def initialProcessGeneration : Nat := 1

/-- The least number of bits that tells the slots apart. -/
def processIdIndexBits : Nat :=
  ((List.range maxProcesses).find? fun bits => maxProcesses ≤ 2 ^ bits).getD 0

def processIdIndexMask : Nat := 2 ^ processIdIndexBits - 1

structure ProcessId where
  index : Fin maxProcesses
  generation : Nat
deriving DecidableEq, Repr

def ProcessId.asRaw (pid : ProcessId) : Nat := pid.generation <<< processIdIndexBits ||| pid.index

def ProcessId.fromRaw (raw : Nat) : Option ProcessId :=
  let generation := raw >>> processIdIndexBits
  if raw = 0 ∨ 2 ^ 32 ≤ generation then none
  else if inside : raw &&& processIdIndexMask < maxProcesses then
    if generation = 0 then none else some ⟨⟨raw &&& processIdIndexMask, inside⟩, generation⟩
  else none

/-- A register as a `pid_t`, the C type `int`. -/
def pidT (register : Int) : Int := register.bmod (2 ^ 32)

inductive Errno where
  | srch
  | child
deriving DecidableEq, Repr

/-- The process that `waitpid` looks for. -/
def waitpidTarget (rawPid : Int) : Except Errno ProcessId :=
  if rawPid ≤ 0 then .error .child
  else match ProcessId.fromRaw rawPid.toNat with
    | none => .error .child
    | some pid => .ok pid

def userPidMax : Int := 2 ^ 31 - 1

/-- The process that `process_affinity` looks for; zero stands for the caller's own. -/
def affinityTarget (current : Option ProcessId) (rawPid : Int) : Except Errno ProcessId :=
  if rawPid = 0 then current.elim (.error .srch) .ok
  else if rawPid < 0 ∨ userPidMax < rawPid then .error .srch
  else (ProcessId.fromRaw rawPid.toNat).elim (.error .srch) .ok

/-! ### The process table -/

inductive ProcessState where
  | free
  | running
  | zombie
deriving DecidableEq, Repr

structure Process where
  state : ProcessState
  parent : Option ProcessId
deriving DecidableEq, Repr

structure ProcessSlot where
  generation : Nat
  process : Process
deriving DecidableEq, Repr

/-- The slots of the process table. -/
abbrev ProcessTable := Fin maxProcesses → ProcessSlot

inductive ProcessError where
  | invalidProcess
  | noProcessSlots

namespace ProcessTable

variable (t : ProcessTable)

def new : ProcessTable := fun _ => ⟨0, .free, none⟩

def nextGeneration (generation : Nat) : Nat :=
  let next := (generation + 1) % 2 ^ 32
  if next = 0 then initialProcessGeneration else next

/-- The process of an identity, while it occupies its slot. -/
def slot (pid : ProcessId) : Option Process :=
  let slot := t pid.index
  if slot.generation = pid.generation ∧ slot.process.state ≠ .free then some slot.process else none

/-- The first free slot. `dirExists` tells whether the working directory exists. -/
def allocateProcessSlot (parent : Option ProcessId) (dirExists : Bool) :
    Except ProcessError (ProcessId × ProcessTable) :=
  if dirExists = false then .error .invalidProcess
  else match (List.finRange maxProcesses).find? fun index => (t index).process.state = .free with
    | none => .error .noProcessSlots
    | some index =>
      let generation := nextGeneration (t index).generation
      .ok (⟨index, generation⟩, update t index ⟨generation, .running, parent⟩)

/-- Nothing is released for an identity that is not in use: the source halts. -/
def releaseSlot (pid : ProcessId) (generation : Nat) : Option ProcessTable :=
  (t.slot pid).map fun _ => update t pid.index ⟨generation, .free, none⟩

/-- A call that fails before its child runs gives the slot back with its generation. -/
def freeProcessSlot (pid : ProcessId) : Option ProcessTable :=
  match t.slot pid with
  | none => some t
  | some _ => t.releaseSlot pid (t pid.index).generation

/-- The process stores its exit status, once. -/
def finishProcess (pid : ProcessId) : ProcessTable :=
  match t.slot pid with
  | none => t
  | some process => update t pid.index ⟨(t pid.index).generation, { process with state := .zombie }⟩

/-- `waitpid` and `join` reclaim an exited process with a new generation. -/
def reclaim (pid : ProcessId) : Option ProcessTable :=
  match t.slot pid with
  | none => some t
  | some process =>
    if process.state = .zombie then
      t.releaseSlot pid (nextGeneration (t pid.index).generation)
    else some t

end ProcessTable

/-! ### Runs -/

/-- The table, the identities that are still being set up, and the children that
`fork` has returned with the `pid_t` their parents got. -/
structure Processes where
  table : ProcessTable
  staged : List ProcessId
  forked : List (ProcessId × Int)

/-- The locked sections of `fork` and `spawn`, of exits, waits and joins. -/
inductive ProcessMove where
  | allocate (parent : Option ProcessId) (dirExists : Bool)
  | publish (pid : ProcessId)
  | abandon (pid : ProcessId)
  | finish (pid : ProcessId)
  | waitpid (rawPid : Int)
  | join (pid : ProcessId)

namespace Processes

def setTable (s : Processes) (table : ProcessTable) : Processes := { s with table := table }

/-- A process with a parent was forked, and its parent gets its number. -/
def deliver (s : Processes) (pid : ProcessId) : List (ProcessId × Int) :=
  if (s.table.slot pid).any (·.parent.isSome) then (pid, pidT pid.asRaw) :: s.forked else s.forked

/-- Only the call that reserved a slot publishes it or gives it back. -/
def move (s : Processes) : ProcessMove → Option Processes
  | .allocate parent dirExists =>
    match s.table.allocateProcessSlot parent dirExists with
    | .error _ => some s
    | .ok (pid, table) => some { s with table := table, staged := pid :: s.staged }
  | .publish pid =>
    if pid ∈ s.staged then some ⟨s.table, s.staged.erase pid, s.deliver pid⟩ else none
  | .abandon pid =>
    if pid ∈ s.staged then
      (s.table.freeProcessSlot pid).map fun table => ⟨table, s.staged.erase pid, s.forked⟩
    else none
  | .finish pid => some (s.setTable (s.table.finishProcess pid))
  | .waitpid rawPid =>
    match waitpidTarget rawPid with
    | .error _ => some s
    | .ok child => (s.table.reclaim child).map s.setTable
  | .join pid => (s.table.reclaim pid).map s.setTable

/-- All interleavings, from the empty table. -/
def machine : Machine Processes ProcessMove where
  initial s := s = ⟨.new, [], []⟩
  step s label t := s.move label = some t

end Processes

namespace ProcessId

variable {pid : ProcessId}

theorem asRaw_eq : pid.asRaw = pid.generation * 4 + pid.index := by
  have bits : processIdIndexBits = 2 := by decide
  rw [asRaw, bits, ← Nat.shiftLeft_add_eq_or_of_lt pid.index.isLt, Nat.shiftLeft_eq]

/-- The encoding loses nothing of a generation that is in use. -/
theorem fromRaw_asRaw (used : 0 < pid.generation) (word : pid.generation < 2 ^ 32) :
    fromRaw pid.asRaw = some pid := by
  have bits : processIdIndexBits = 2 := by decide
  have small : (pid.index : Nat) < 4 := pid.index.isLt
  have generation : pid.asRaw >>> processIdIndexBits = pid.generation := by
    rw [asRaw_eq, bits, Nat.shiftRight_eq_div_pow]
    omega
  have index : pid.asRaw &&& processIdIndexMask = pid.index := by
    rw [processIdIndexMask, bits, Nat.and_two_pow_sub_one_eq_mod, asRaw_eq]
    omega
  have positive : ¬ (pid.asRaw = 0 ∨ 2 ^ 32 ≤ pid.generation) := by
    rw [asRaw_eq]
    omega
  simp only [fromRaw, generation, index, if_neg positive, pid.index.isLt, dif_pos,
    if_neg (Nat.ne_of_gt used)]

/-- With 29 bits of generation the number is a positive `int`. -/
theorem pidT_asRaw (small : pid.generation < 2 ^ 29) : pidT pid.asRaw = pid.asRaw := by
  have bound : pid.asRaw < 2 ^ 31 := by
    rw [asRaw_eq]
    have := pid.index.isLt
    unfold maxProcesses at this
    omega
  rw [pidT]
  exact Int.bmod_eq_of_le (by omega) (by omega)

theorem asRaw_pos (used : 0 < pid.generation) : 0 < pid.asRaw := by
  rw [asRaw_eq]
  omega

section Targets

variable (used : 0 < pid.generation) (small : pid.generation < 2 ^ 29)

include used small

theorem waitpidTarget_pidT : waitpidTarget (pidT pid.asRaw) = .ok pid := by
  have positive := asRaw_pos used
  rw [pidT_asRaw small, waitpidTarget, if_neg (by omega), Int.toNat_natCast,
    fromRaw_asRaw used (by omega)]

theorem affinityTarget_pidT (current : Option ProcessId) :
    affinityTarget current (pidT pid.asRaw) = .ok pid := by
  have positive := asRaw_pos used
  have bound : (pid.asRaw : Int) ≤ userPidMax := by
    have := pid.index.isLt
    unfold maxProcesses at this
    rw [asRaw_eq, userPidMax]
    omega
  rw [pidT_asRaw small, affinityTarget, if_neg (by omega), if_neg (by omega), Int.toNat_natCast,
    fromRaw_asRaw used (by omega), Option.elim_some]

end Targets

/-- A number that `waitpid` can read back from a `pid_t` has 29 bits of generation. -/
theorem generation_of_waitpidTarget {value : Int} (found : waitpidTarget (pidT value) = .ok pid) :
    pid.generation < 2 ^ 29 := by
  have bits : processIdIndexBits = 2 := by decide
  have bound : pidT value < 2 ^ 31 := Int.bmod_lt (by decide)
  unfold waitpidTarget at found
  split at found
  · cases found
  · split at found
    · cases found
    · next decoded =>
      cases found
      unfold fromRaw at decoded
      dsimp only at decoded
      split_ifs at decoded
      cases decoded
      dsimp only
      rw [bits, Nat.shiftRight_eq_div_pow]
      omega

end ProcessId

namespace Processes

variable {s t : Processes} {pid : ProcessId} {value : Int}

theorem nextGeneration_pos (generation : Nat) : 0 < ProcessTable.nextGeneration generation := by
  simp only [ProcessTable.nextGeneration, initialProcessGeneration]
  split
  · exact Nat.one_pos
  · omega

/-- What is being set up and what was delivered. -/
structure Delivered (s : Processes) : Prop where
  staged : ∀ pid ∈ s.staged, 0 < pid.generation
  forked : ∀ pid value, (pid, value) ∈ s.forked → value = pidT pid.asRaw ∧ 0 < pid.generation

theorem Delivered.setTable (h : Delivered s) {outcome : Option ProcessTable}
    (taken : outcome.map s.setTable = some t) : Delivered t := by
  obtain ⟨table, -, rfl⟩ := Option.map_eq_some_iff.mp taken
  exact ⟨h.staged, h.forked⟩

theorem allocate_generation {table result : ProcessTable} {parent : Option ProcessId}
    {dirExists : Bool} (taken : table.allocateProcessSlot parent dirExists = .ok (pid, result)) :
    0 < pid.generation := by
  unfold ProcessTable.allocateProcessSlot at taken
  split at taken
  · cases taken
  · split at taken
    · cases taken
    · cases taken
      exact nextGeneration_pos _

theorem Delivered.move (h : Delivered s) {label : ProcessMove}
    (taken : s.move label = some t) : Delivered t := by
  have erased : ∀ pid, ∀ other ∈ s.staged.erase pid, 0 < other.generation :=
    fun _ other member => h.staged other (List.mem_of_mem_erase member)
  unfold Processes.move at taken
  split at taken
  · split at taken
    · cases taken
      exact h
    · next allocated =>
      cases taken
      refine ⟨fun other member => ?_, h.forked⟩
      rcases List.mem_cons.mp member with rfl | old
      · exact allocate_generation allocated
      · exact h.staged other old
  · split at taken
    · next pid reserved =>
      cases taken
      refine ⟨erased pid, fun other value member => ?_⟩
      dsimp only [deliver] at member
      split at member
      · rcases List.mem_cons.mp member with new | old
        · obtain ⟨rfl, same⟩ := Prod.mk.inj new
          exact ⟨same, h.staged other reserved⟩
        · exact h.forked other value old
      · exact h.forked other value member
    · cases taken
  · split at taken
    · obtain ⟨table, -, rfl⟩ := Option.map_eq_some_iff.mp taken
      exact ⟨erased _, h.forked⟩
    · cases taken
  · cases taken
    exact ⟨h.staged, h.forked⟩
  · split at taken
    · cases taken
      exact h
    · exact h.setTable taken
  · exact h.setTable taken

/-! ### A slot that is used again and again -/

/-- Slot one is the first free slot, and nothing is being set up. -/
structure Vacant (s : Processes) (generation : Nat) : Prop where
  first : (s.table 0).process.state ≠ .free
  slot : s.table 1 = ⟨generation, .free, none⟩
  staged : s.staged = []

/-- Slot one holds a new child of the process in slot zero. -/
def stage (s : Processes) (generation : Nat) : Processes :=
  { s with table := update s.table 1 ⟨generation, .running, some ⟨0, 1⟩⟩,
           staged := [⟨1, generation⟩] }

variable {generation : Nat}

theorem Vacant.move_allocate (h : Vacant s generation) (word : generation + 1 < 2 ^ 32) :
    s.move (.allocate (some ⟨0, 1⟩) true) = some (s.stage (generation + 1)) := by
  have next : ProcessTable.nextGeneration generation = generation + 1 := by
    simp only [ProcessTable.nextGeneration, Nat.mod_eq_of_lt word]
    exact if_neg (Nat.succ_ne_zero _)
  have found : (List.finRange maxProcesses).find?
      (fun index => (s.table index).process.state = .free) = some 1 := by
    rw [show List.finRange maxProcesses = [0, 1, 2, 3] from rfl]
    simp [h.first, h.slot]
  simp [move, ProcessTable.allocateProcessSlot, found, h.slot, next, stage, h.staged]

theorem slot_stage : (s.stage generation).table.slot ⟨1, generation⟩ =
    some ⟨.running, some ⟨0, 1⟩⟩ := by
  simp [ProcessTable.slot, stage]

theorem move_publish : (s.stage generation).move (.publish ⟨1, generation⟩) =
    some ⟨(s.stage generation).table, [],
      (⟨1, generation⟩, pidT (ProcessId.asRaw ⟨1, generation⟩)) :: s.forked⟩ := by
  simp only [move, deliver, slot_stage]
  simp [stage]

theorem move_abandon : (s.stage generation).move (.abandon ⟨1, generation⟩) =
    some { s with table := update s.table 1 ⟨generation, .free, none⟩, staged := [] } := by
  simp only [move, ProcessTable.freeProcessSlot, ProcessTable.releaseSlot, slot_stage]
  simp [stage]

/-- The first process is spawned, and then many calls to `fork` run out of memory. -/
theorem reachable_vacant (word : generation < 2 ^ 32) :
    ∃ s, machine.Reachable s ∧ Vacant s generation := by
  induction generation with
  | zero =>
    have spawned := @Machine.Reachable.step _ _ machine _ _ (.allocate none true) (.initial rfl) rfl
    have started := @Machine.Reachable.step _ _ machine _ _ (.publish ⟨0, 1⟩) spawned rfl
    exact ⟨_, started, nofun, rfl, rfl⟩
  | succ generation ih =>
    obtain ⟨s, reached, vacant⟩ := ih (Nat.lt_of_succ_lt word)
    have apart : (0 : Fin maxProcesses) ≠ 1 := by decide
    refine ⟨_, (reached.step (vacant.move_allocate word)).step move_abandon, ?_, ?_, rfl⟩
    · simpa [update_of_ne apart] using vacant.first
    · simp

/-- A slot with a small enough generation is used for the next child. -/
theorem exists_forked (used : 0 < generation) (word : generation < 2 ^ 32) :
    ∃ s, machine.Reachable s ∧
      (⟨1, generation⟩, pidT (ProcessId.asRaw ⟨1, generation⟩)) ∈ s.forked ∧
      (s.table.slot ⟨1, generation⟩).isSome := by
  obtain ⟨before, rfl⟩ := Nat.exists_eq_add_of_le' used
  obtain ⟨s, reached, vacant⟩ := reachable_vacant (Nat.lt_of_succ_lt word)
  refine ⟨_, (reached.step (vacant.move_allocate word)).step move_publish, .head _, ?_⟩
  rw [slot_stage, Option.isSome_some]

/-! ### Numbers that name their process -/

/-- `fork` delivers a positive number that names the child when C code passes it back
exactly if the generation of the child has no thirtieth bit. -/
theorem pid_survives (reached : machine.Reachable s) (delivered : (pid, value) ∈ s.forked) :
    pid.generation < 2 ^ 29 ↔ 0 < value ∧ waitpidTarget value = .ok pid ∧
      ∀ current, affinityTarget current value = .ok pid := by
  have start : ∀ s, machine.initial s → Delivered s := by
    rintro s rfl
    exact ⟨nofun, nofun⟩
  have keep : ∀ s label t, machine.Reachable s → Delivered s → machine.step s label t →
      Delivered t := fun _ _ _ _ h taken => h.move taken
  obtain ⟨same, used⟩ := (reached.invariant start keep).forked pid value delivered
  rw [same]
  refine ⟨fun small => ⟨?_, ProcessId.waitpidTarget_pidT used small,
    ProcessId.affinityTarget_pidT used small⟩, fun named => ?_⟩
  · rw [ProcessId.pidT_asRaw small]
    exact Int.natCast_pos.mpr (ProcessId.asRaw_pos used)
  · exact ProcessId.generation_of_waitpidTarget named.2.1

/-- The first process forks its first child. -/
theorem pid_survives_first_child : ∃ s, machine.Reachable s ∧
    (⟨1, 1⟩, pidT (ProcessId.asRaw ⟨1, 1⟩)) ∈ s.forked ∧ (s.table.slot ⟨1, 1⟩).isSome ∧
    0 < pidT (ProcessId.asRaw ⟨1, 1⟩) ∧
    waitpidTarget (pidT (ProcessId.asRaw ⟨1, 1⟩)) = .ok ⟨1, 1⟩ := by
  obtain ⟨s, reached, delivered, alive⟩ := @exists_forked 1 (by decide) (by decide)
  obtain ⟨positive, named, _⟩ := (pid_survives reached delivered).mp (by decide)
  exact ⟨s, reached, delivered, alive, positive, named⟩

/-- After many calls to `fork` that run out of memory a child is delivered as a negative
number, which C code takes for a failure. -/
theorem pid_turns_negative : ∃ s pid value, machine.Reachable s ∧ (pid, value) ∈ s.forked ∧
    (s.table.slot pid).isSome ∧ value < 0 := by
  obtain ⟨s, reached, delivered, alive⟩ := @exists_forked (2 ^ 29) (by decide) (by decide)
  exact ⟨s, _, _, reached, delivered, alive, by decide⟩

end Processes

end Genrt
