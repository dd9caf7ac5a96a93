import Genrt.Foundation.Machine
import Genrt.Memory.RunSearch

/-!
# Frames and their owners

The kernel allocates frames and frees what it has been given, in any order. Between the
calls an owner writes its frames as it likes, and with them the places where the links
were. In every reachable state the free frames and the frames of the owners are the frames
of the memory map, each of them once.
-/

namespace Genrt

open LinkedList FrameAllocator

/-- The memory map, the allocator, and the ranges that have been handed out. -/
structure FrameSystem where
  usable : List AddrRange
  allocator : FrameAllocator
  outstanding : List AddrRange

inductive FrameOp where
  | allocFrame
  | allocContiguous (frames align : Nat)
  | freeFrame (frame : Nat)
  | freeContiguous (range : AddrRange)
  /-- An owner writes the first word of a frame. -/
  | write (frame value : Nat)
deriving DecidableEq, Repr

inductive FrameAnswer where
  | allocated (range : Option AddrRange)
  | done
deriving DecidableEq, Repr

namespace FrameSystem

def handOut (s : FrameSystem) (range : Option AddrRange) (allocator : FrameAllocator) :
    FrameAnswer × FrameSystem :=
  (.allocated range, { s with allocator, outstanding := range.toList ++ s.outstanding })

def takeBack (s : FrameSystem) (range : AddrRange) (allocator : FrameAllocator) :
    FrameAnswer × FrameSystem :=
  (.done, { s with allocator, outstanding := s.outstanding.erase range })

/-- The calls once the allocator is initialised. -/
def perform (s : FrameSystem) : FrameOp → Except FramePanic (FrameAnswer × FrameSystem)
  | .allocFrame =>
    let (frame, allocator) := s.allocator.allocFrame
    .ok (s.handOut (frame.map fun frame => ⟨frame, frame + pageSize⟩) allocator)
  | .allocContiguous frames align => do
      let (range, allocator) ← s.allocator.allocContiguousAligned frames pageSize align
      .ok (s.handOut range allocator)
  | .freeFrame frame =>
    if isValidUsableFrame s.usable frame = false then .error .invalidFrame
    else do
      let allocator ← s.allocator.freeFrame frame
      .ok (s.takeBack ⟨frame, frame + pageSize⟩ allocator)
  | .freeContiguous range =>
    if isValidUsableFrameRange s.usable range = false then .error .invalidFrame
    else do
      let allocator ← s.allocator.freeContiguous range pageSize
      .ok (s.takeBack range allocator)
  | .write frame value =>
    .ok (.done, { s with allocator := s.allocator.writeNextFreeFrame frame value })

/-- Callers free what they have been given, as a whole, and write frames they own. -/
def Permitted (s : FrameSystem) : FrameOp → Prop
  | .allocFrame => True
  | .allocContiguous _ _ => True
  | .freeFrame frame => ⟨frame, frame + pageSize⟩ ∈ s.outstanding
  | .freeContiguous range => range ∈ s.outstanding
  | .write frame _ => frame ∈ allFrames pageSize s.outstanding

/-- The allocator of a memory map, before any call. What the frames hold does not matter. -/
def Initial (s : FrameSystem) : Prop :=
  Usable pageSize s.usable ∧ s.outstanding = [] ∧
    ∃ a : FrameAllocator, a.initFromRanges s.usable pageSize = .ok s.allocator

def machine : Machine FrameSystem FrameOp where
  initial := Initial
  step s op t := s.Permitted op ∧ ∃ answer, s.perform op = .ok (answer, t)

/-! ### Ranges of the memory map -/

variable {ranges : List AddrRange} {range : AddrRange}

theorem pageSize_pos : 0 < pageSize := by decide

theorem order_of_usable (usable : Usable pageSize ranges) {first second : AddrRange}
    (one : first ∈ ranges) (two : second ∈ ranges) :
    first = second ∨ first.stop < second.start ∨ second.stop < first.start := by
  induction ranges with
  | nil => cases one
  | cons range ranges ih =>
    have later := (List.pairwise_cons.mp usable.apart).1
    rcases List.mem_cons.mp one with rfl | firstLater
    · rcases List.mem_cons.mp two with rfl | secondLater
      · exact .inl rfl
      · exact .inr (.inl (later second secondLater))
    · rcases List.mem_cons.mp two with rfl | secondLater
      · exact .inr (.inr (later first firstLater))
      · exact ih usable.tail firstLater secondLater

/-- Adjacent frames lie in one usable range, since usable ranges do not touch. -/
theorem within_one (usable : Usable pageSize ranges) {start count : Nat} (some : 0 < count)
    (free : ∀ i < count, start + i * pageSize ∈ allFrames pageSize ranges) :
    ∃ range ∈ ranges, range.start ≤ start ∧ start + count * pageSize ≤ range.stop := by
  induction count with
  | zero => omega
  | succ count ih =>
    obtain ⟨other, member, held⟩ := mem_allFrames.mp (free count (Nat.lt_succ_self _))
    obtain ⟨above, below, -⟩ := (mem_framesOf pageSize_pos (usable.whole other member)).mp held
    rw [Nat.add_mul, Nat.one_mul, ← Nat.add_assoc]
    rcases Nat.eq_zero_or_pos count with rfl | more
    · rw [Nat.zero_mul, Nat.add_zero] at above below ⊢
      exact ⟨other, member, above, below⟩
    · obtain ⟨range, found, low, high⟩ := ih more fun i less => free i (Nat.lt_succ_of_lt less)
      rcases order_of_usable usable found member with rfl | apart | apart
      · exact ⟨range, found, low, below⟩
      · omega
      · omega

/-- Ranges of whole frames that share no frame do not overlap. -/
theorem apart_of_disjoint {other : AddrRange} (whole : WholeFrames pageSize range)
    (whole' : WholeFrames pageSize other)
    (disjoint : ∀ frame ∈ framesOf pageSize range, frame ∉ framesOf pageSize other) :
    other.stop ≤ range.start ∨ range.stop ≤ other.start := by
  rcases Nat.lt_or_ge range.start other.stop with before | behind
  · rcases Nat.lt_or_ge other.start range.stop with before' | behind'
    · -- the later of the two starts is a frame of both
      exfalso
      rcases Nat.le_total range.start other.start with le | le
      · refine disjoint other.start ((mem_framesOf pageSize_pos whole).mpr ⟨le, ?_, whole'.starts⟩)
          whole'.start_mem
        exact add_le_of_aligned whole'.starts whole.stops before'
      · refine disjoint range.start whole.start_mem
          ((mem_framesOf pageSize_pos whole').mpr ⟨le, ?_, whole.starts⟩)
        exact add_le_of_aligned whole.starts whole'.stops before
    · exact .inr behind'
  · exact .inl behind

theorem masked_page {value : Nat} : value &&& (pageSize - 1) = 0 ↔ value % pageSize = 0 :=
  masked_eq_zero (by decide)

/-- The check of a free passes for whole frames inside one usable range. -/
theorem isValidUsableFrameRange_of (whole : WholeFrames pageSize range)
    (inside : ∃ usable ∈ ranges, usable.start ≤ range.start ∧ range.stop ≤ usable.stop) :
    isValidUsableFrameRange ranges range = true := by
  have aligned : ¬ (range.start &&& (pageSize - 1) ≠ 0 ∨ range.stop &&& (pageSize - 1) ≠ 0) := by
    rw [ne_eq, ne_eq, masked_page, masked_page]
    simp [whole.starts, whole.stops]
  rw [isValidUsableFrameRange, if_neg (Nat.not_le.mpr whole.nonempty), if_neg aligned,
    List.any_eq_true]
  obtain ⟨usable, member, low, high⟩ := inside
  exact ⟨usable, member, by simp [low, high]⟩

variable {frame : Nat} {frames' : List Nat} {op : FrameOp}

theorem isValidUsableFrame_of (aligned : frame % pageSize = 0)
    (inside : ∃ usable ∈ ranges, usable.start ≤ frame ∧ frame + pageSize ≤ usable.stop) :
    isValidUsableFrame ranges frame = true := by
  have masked : ¬ (frame &&& (pageSize - 1) ≠ 0) := not_not.mpr (masked_page.mpr aligned)
  rw [isValidUsableFrame, if_neg masked, List.any_eq_true]
  obtain ⟨usable, member, low, high⟩ := inside
  have positive := pageSize_pos
  have below : frame < usable.stop := by omega
  exact ⟨usable, member, by simp [low, below]⟩

/-! ### The invariant -/

/-- Free and outstanding frames are the frames of the memory map, each of them once. -/
structure Partitioned (s : FrameSystem) (frames : List Nat) : Prop where
  usable : Usable pageSize s.usable
  bytes : s.allocator.pageBytes = pageSize
  list : FreeList pageSize s.allocator frames
  whole : ∀ range ∈ s.outstanding, WholeFrames pageSize range
  within : ∀ range ∈ s.outstanding, ∃ usable ∈ s.usable,
    usable.start ≤ range.start ∧ range.stop ≤ usable.stop
  parts : (frames ++ allFrames pageSize s.outstanding).Perm (allFrames pageSize s.usable)

variable {s t : FrameSystem} {frames : List Nat}

theorem Partitioned.nodup (partitioned : Partitioned s frames) :
    (frames ++ allFrames pageSize s.outstanding).Nodup :=
  partitioned.parts.nodup_iff.mpr
    ((partitioned.usable.sorted pageSize_pos).imp fun less => Nat.ne_of_lt less)

/-- A frame is not both free and outstanding. -/
theorem Partitioned.not_free (partitioned : Partitioned s frames)
    (owned : frame ∈ allFrames pageSize s.outstanding) : frame ∉ frames := fun free =>
  (List.nodup_append'.mp partitioned.nodup).2.2 free owned

theorem Partitioned.initial (initial : Initial s) :
    Partitioned s (allFrames pageSize s.usable) := by
  obtain ⟨usable, none, a, run⟩ := initial
  obtain ⟨a', run', bytes, list⟩ := initFromRanges_spec a pageSize_pos usable
  rw [run] at run'
  cases run'
  refine ⟨usable, bytes, list, ?_, ?_, ?_⟩
  · rw [none]
    exact nofun
  · rw [none]
    exact nofun
  · rw [none]
    exact List.Perm.of_eq (List.append_nil _)

/-- What an allocated range is. -/
structure Granted (s : FrameSystem) (frames : List Nat) (range : AddrRange)
    (frames' : List Nat) : Prop where
  whole : WholeFrames pageSize range
  free : (framesOf pageSize range ++ frames').Perm frames
  apart : ∀ other ∈ s.outstanding, other.stop ≤ range.start ∨ range.stop ≤ other.start
  within : ∃ usable ∈ s.usable, usable.start ≤ range.start ∧ range.stop ≤ usable.stop
  valid : isValidUsableFrameRange s.usable range = true

theorem framesOf_run (start count : Nat) :
    framesOf pageSize ⟨start, start + count * pageSize⟩ = List.range' start count pageSize := by
  rw [framesOf, Nat.add_sub_cancel_left, Nat.mul_div_cancel _ pageSize_pos]

/-- A run of free frames can be handed out. -/
theorem Partitioned.grant (partitioned : Partitioned s frames) {start count : Nat}
    {before after : List Nat} (some : 0 < count)
    (split : frames = before ++ (List.range' start count pageSize ++ after)) :
    Granted s frames ⟨start, start + count * pageSize⟩ (before ++ after) := by
  have free : ∀ i < count, start + i * pageSize ∈ frames := by
    intro i less
    rw [split]
    refine List.mem_append_right _ (List.mem_append_left _ (List.mem_range'.mpr ⟨i, less, ?_⟩))
    rw [Nat.mul_comm]
  have within := within_one partitioned.usable some fun i less =>
    partitioned.parts.mem_iff.mp (List.mem_append_left _ (free i less))
  have proper := partitioned.list.proper _ (free 0 some)
  rw [Nat.zero_mul, Nat.add_zero] at proper
  have positive := Nat.mul_pos some pageSize_pos
  have whole : WholeFrames pageSize ⟨start, start + count * pageSize⟩ := by
    obtain ⟨usable, member, -, high⟩ := within
    refine ⟨proper.aligned, ?_, Nat.lt_add_of_pos_right positive,
      Nat.le_trans high (partitioned.usable.whole usable member).room⟩
    dsimp only
    rw [Nat.add_mul_mod_self_right]
    exact proper.aligned
  refine ⟨whole, ?_, fun other member => ?_, within, isValidUsableFrameRange_of whole within⟩
  · rw [framesOf_run, split, ← List.append_assoc, ← List.append_assoc]
    exact List.perm_append_comm.append_right after
  · refine apart_of_disjoint whole (partitioned.whole other member) fun frame inside held => ?_
    rw [framesOf_run] at inside
    refine partitioned.not_free (mem_allFrames.mpr ⟨other, member, held⟩) ?_
    rw [split]
    exact List.mem_append_right _ (List.mem_append_left _ inside)

/-- Handing out a granted range keeps the partition. -/
theorem Granted.handOut {a' : FrameAllocator} (granted : Granted s frames range frames')
    (partitioned : Partitioned s frames) (list : FreeList pageSize a' frames')
    (bytes : a'.pageBytes = s.allocator.pageBytes) :
    Partitioned (s.handOut (some range) a').2 frames' := by
  refine ⟨partitioned.usable, bytes.trans partitioned.bytes, list, ?_, ?_, ?_⟩
  · exact List.forall_mem_cons.mpr ⟨granted.whole, partitioned.whole⟩
  · exact List.forall_mem_cons.mpr ⟨granted.within, partitioned.within⟩
  · refine List.Perm.trans ?_ partitioned.parts
    have moved : (frames' ++ (framesOf pageSize range ++ allFrames pageSize s.outstanding)).Perm
        ((framesOf pageSize range ++ frames') ++ allFrames pageSize s.outstanding) := by
      rw [← List.append_assoc]
      exact List.perm_append_comm.append_right _
    exact moved.trans (granted.free.append_right _)

/-- Taking back an outstanding range keeps the partition. -/
theorem Partitioned.takeBack {a' : FrameAllocator} (partitioned : Partitioned s frames)
    (member : range ∈ s.outstanding) (list : FreeList pageSize a' frames')
    (bytes : a'.pageBytes = s.allocator.pageBytes)
    (perm : frames'.Perm (framesOf pageSize range ++ frames)) :
    Partitioned (s.takeBack range a').2 frames' := by
  have rest : ∀ other ∈ s.outstanding.erase range, other ∈ s.outstanding :=
    fun other kept => List.mem_of_mem_erase kept
  refine ⟨partitioned.usable, bytes.trans partitioned.bytes, list,
    fun other kept => partitioned.whole other (rest other kept),
    fun other kept => partitioned.within other (rest other kept), ?_⟩
  have owned : (allFrames pageSize s.outstanding).Perm
      (framesOf pageSize range ++ allFrames pageSize (s.outstanding.erase range)) :=
    (List.perm_cons_erase member).flatMap_right _
  have moved : (framesOf pageSize range ++ frames ++
        allFrames pageSize (s.outstanding.erase range)).Perm
      (frames ++ (framesOf pageSize range ++
        allFrames pageSize (s.outstanding.erase range))) := by
    rw [← List.append_assoc]
    exact List.perm_append_comm.append_right _
  exact (perm.append_right _).trans (moved.trans ((owned.append_left _).symm.trans
    partitioned.parts))

/-- Frees of outstanding ranges pass the check. -/
theorem Partitioned.free (partitioned : Partitioned s frames) (member : range ∈ s.outstanding) :
    ∃ a' frames', s.allocator.freeContiguous range pageSize = .ok a' ∧
      frames'.Perm (framesOf pageSize range ++ frames) ∧
      Partitioned (s.takeBack range a').2 frames' := by
  obtain ⟨a', frames', run, bytes, list, perm⟩ := partitioned.list.freeContiguous pageSize_pos
    (partitioned.whole range member)
    fun frame inside => partitioned.not_free (mem_allFrames.mpr ⟨range, member, inside⟩)
  exact ⟨a', frames', run, perm, partitioned.takeBack member list bytes perm⟩

/-- The requests for runs that the allocator serves. -/
def Served (count align : Nat) : Prop := 0 < count ∧ (∃ k, align = 2 ^ k) ∧ pageSize ≤ align

/-- What a call answers and does to the free frames. -/
def Outcome (s : FrameSystem) (frames frames' : List Nat) : FrameOp → FrameAnswer → Prop
  | .allocFrame, .allocated none => frames = [] ∧ frames' = []
  | .allocFrame, .allocated (some range) =>
    Granted s frames range frames' ∧ range.stop = range.start + pageSize
  | .allocContiguous count align, .allocated none =>
    frames' = frames ∧
      (Served count align → ∀ start, ¬ Suitable pageSize align count frames start)
  | .allocContiguous count align, .allocated (some range) =>
    Served count align ∧ Granted s frames range frames' ∧
      range.stop = range.start + count * pageSize ∧ range.start % align = 0 ∧
      ∀ start, Suitable pageSize align count frames start → range.start ≤ start
  | .freeFrame frame, .done => frames'.Perm (frame :: frames)
  | .freeContiguous range, .done => frames'.Perm (framesOf pageSize range ++ frames)
  | .write _ _, .done => frames' = frames
  | _, _ => False

/-- A call returns, keeps the partition and has the outcome that it should. -/
def Performs (s : FrameSystem) (frames : List Nat) (op : FrameOp) : Prop :=
  ∃ answer t frames', s.perform op = .ok (answer, t) ∧ Partitioned t frames' ∧
    Outcome s frames frames' op answer

theorem Partitioned.allocFrame (partitioned : Partitioned s frames) :
    Performs s frames .allocFrame := by
  cases frames with
  | nil =>
    refine ⟨.allocated none, s, [], ?_, partitioned, rfl, rfl⟩
    rw [perform, partitioned.list.allocFrame_nil]
    rfl
  | cons frame rest =>
    obtain ⟨a', run, bytes, list⟩ := partitioned.list.allocFrame_cons
    have granted := @Partitioned.grant s (frame :: rest) partitioned frame 1 [] rest
      Nat.one_pos rfl
    rw [Nat.one_mul] at granted
    refine ⟨.allocated (some ⟨frame, frame + pageSize⟩), _, rest, ?_,
      granted.handOut partitioned list bytes, granted, rfl⟩
    rw [perform, run]
    rfl

/-- Any other request is refused at once. -/
theorem perform_unserved {count align : Nat} (unserved : ¬ Served count align) :
    s.perform (.allocContiguous count align) = .ok (.allocated none, s) := by
  have refused : s.allocator.allocContiguousAligned count pageSize align =
      .ok (none, s.allocator) := by
    unfold allocContiguousAligned
    by_cases zero : count = 0
    · rw [if_pos zero]
    · have refused : align < pageSize ∨ isPowerOfTwo align = false := by
        by_contra both
        rw [not_or, Bool.not_eq_false, Nat.not_lt] at both
        exact unserved ⟨Nat.pos_of_ne_zero zero, isPowerOfTwo_iff.mp both.2, both.1⟩
      rw [if_neg zero, if_pos refused]
  rw [perform, refused]
  rfl

section

variable (partitioned : Partitioned s frames)

include partitioned

theorem Partitioned.allocContiguous (count align : Nat) :
    Performs s frames (.allocContiguous count align) := by
  by_cases served : Served count align
  · have power := isPowerOfTwo_iff.mpr served.2.1
    rcases partitioned.list.allocContiguousAligned pageSize_pos served.1 power served.2.2 with
      ⟨run, missing⟩ | ⟨range, a', run, taken⟩
    · refine ⟨.allocated none, s, frames, ?_, partitioned, rfl, fun _ => missing⟩
      rw [perform, run]
      rfl
    · obtain ⟨before, after, split, list⟩ := taken.split
      have granted := partitioned.grant served.1 split
      rw [← taken.length] at granted
      refine ⟨.allocated (some range), _, before ++ after, ?_,
        granted.handOut partitioned list taken.bytes, served, granted, taken.length,
        taken.aligned, taken.lowest⟩
      rw [perform, run]
      rfl
  · exact ⟨.allocated none, s, frames, perform_unserved served, partitioned, rfl,
      fun other => absurd other served⟩

theorem Partitioned.freeContiguous (member : range ∈ s.outstanding) :
    Performs s frames (.freeContiguous range) := by
  obtain ⟨a', frames', run, perm, kept⟩ := partitioned.free member
  refine ⟨.done, _, frames', ?_, kept, perm⟩
  have valid := isValidUsableFrameRange_of (partitioned.whole _ member)
    (partitioned.within _ member)
  rw [perform, valid, if_neg (by decide), run]
  rfl

theorem Partitioned.freeFrame (member : ⟨frame, frame + pageSize⟩ ∈ s.outstanding) :
    Performs s frames (.freeFrame frame) := by
  have whole := partitioned.whole _ member
  obtain ⟨a', frames', run, perm, kept⟩ := partitioned.free member
  have single := framesOf_run frame 1
  rw [Nat.one_mul] at single
  rw [single] at perm
  refine ⟨.done, _, frames', ?_, kept, perm⟩
  have valid := isValidUsableFrame_of whole.starts (partitioned.within _ member)
  have fits : checkedAdd frame pageSize = some (frame + pageSize) := by
    have room := whole.room
    have limit : freeListEnd < usizeLimit := by decide
    dsimp only at room
    exact if_pos (by omega)
  have free : s.allocator.freeFrame frame = .ok a' := by
    rw [FrameAllocator.freeFrame, partitioned.bytes, assert_of (by decide), Result.ok_bind, fits]
    exact run
  rw [perform, valid, if_neg (by decide), free]
  rfl

/-- The allocator does not look at the frames that owners write. -/
theorem Partitioned.write {value : Nat} (owned : frame ∈ allFrames pageSize s.outstanding) :
    Performs s frames (.write frame value) := by
  have list := partitioned.list
  refine ⟨.done, _, frames, rfl, { partitioned with list := ?_ }, rfl⟩
  exact { list with linked := list.linked.update (partitioned.not_free owned) }

theorem Partitioned.performs (permitted : s.Permitted op) : Performs s frames op := by
  cases op with
  | allocFrame => exact partitioned.allocFrame
  | allocContiguous count align => exact partitioned.allocContiguous count align
  | freeFrame frame => exact partitioned.freeFrame permitted
  | freeContiguous range => exact partitioned.freeContiguous permitted
  | write frame value => exact partitioned.write permitted

end

theorem exists_partitioned (reached : machine.Reachable s) : ∃ frames, Partitioned s frames := by
  have start : ∀ s, machine.initial s → ∃ frames, Partitioned s frames :=
    fun s initial => ⟨_, Partitioned.initial initial⟩
  have keep : ∀ s op t, machine.Reachable s → (∃ frames, Partitioned s frames) →
      machine.step s op t → ∃ frames, Partitioned t frames := by
    rintro s op t - ⟨frames, partitioned⟩ ⟨permitted, answer, run⟩
    obtain ⟨answer', t', frames', run', kept, -⟩ := partitioned.performs permitted
    rw [run] at run'
    cases run'
    exact ⟨frames', kept⟩
  exact reached.invariant start keep

/-- An allocation that is undone leaves the list as it was. -/
theorem Partitioned.restores (partitioned : Partitioned s frames) (kept : Partitioned t frames')
    (free : (framesOf pageSize range ++ frames').Perm frames) (member : range ∈ t.outstanding) :
    ∃ u, t.perform (.freeContiguous range) = .ok (.done, u) ∧
      FreeList pageSize u.allocator frames := by
  obtain ⟨answer, u, frames'', run, done, outcome⟩ := kept.freeContiguous member
  cases answer with
  | allocated range => exact outcome.elim
  | done =>
    have perm : frames''.Perm frames := outcome.trans free
    have same : frames'' = frames :=
      perm.eq_of_pairwise (fun first second _ _ less more => (Nat.lt_asymm less more).elim)
        done.list.sorted partitioned.list.sorted
    exact ⟨u, run, same ▸ done.list⟩

/-- A range that is returned is outstanding. -/
theorem member_of_allocated (run : s.perform op = .ok (.allocated (some range), t)) :
    s.Permitted op ∧ range ∈ t.outstanding := by
  cases op with
  | allocFrame =>
    rw [perform] at run
    cases allocated : s.allocator.allocFrame with
    | mk frame a' =>
      rw [allocated] at run
      cases frame with
      | none => cases run
      | some frame =>
        cases run
        exact ⟨trivial, .head _⟩
  | allocContiguous count align =>
    obtain ⟨⟨found, a'⟩, -, answered⟩ := Result.bind_eq_ok.mp run
    cases found with
    | none => cases answered
    | some found =>
      cases answered
      exact ⟨trivial, .head _⟩
  | freeFrame frame =>
    rw [perform] at run
    split at run
    · cases run
    · obtain ⟨a', -, answered⟩ := Result.bind_eq_ok.mp run
      cases answered
  | freeContiguous range =>
    rw [perform] at run
    split at run
    · cases run
    · obtain ⟨a', -, answered⟩ := Result.bind_eq_ok.mp run
      cases answered
  | write frame value => cases run

theorem granted_of_outcome (outcome : Outcome s frames frames' op (.allocated (some range))) :
    Granted s frames range frames' := by
  cases op with
  | allocFrame => exact outcome.1
  | allocContiguous count align => exact outcome.2.1
  | freeFrame frame => exact outcome.elim
  | freeContiguous range => exact outcome.elim
  | write frame value => exact outcome.elim

/-- In every reachable state the links lead through a strictly increasing list of frames, as
many as the allocator has counted; these and the outstanding frames are the frames of the
memory map, each of them once; every call that the callers may make returns, with the outcome
that it should have; requests that are not served change nothing; and freeing what has just
been allocated restores the list. -/
theorem frame_allocator_exact (reached : machine.Reachable s) :
    ∃ frames, FreeList pageSize s.allocator frames ∧
      (frames ++ allFrames pageSize s.outstanding).Perm (allFrames pageSize s.usable) ∧
      (∀ op, s.Permitted op → ∃ answer t frames', s.perform op = .ok (answer, t) ∧
        FreeList pageSize t.allocator frames' ∧ Outcome s frames frames' op answer) ∧
      (∀ count align, ¬ Served count align →
        s.perform (.allocContiguous count align) = .ok (.allocated none, s)) ∧
      ∀ op range t, s.perform op = .ok (.allocated (some range), t) →
        ∃ u, t.perform (.freeContiguous range) = .ok (.done, u) ∧
          FreeList pageSize u.allocator frames := by
  obtain ⟨frames, partitioned⟩ := exists_partitioned reached
  refine ⟨frames, partitioned.list, partitioned.parts, fun op permitted => ?_,
    fun _ _ => perform_unserved, ?_⟩
  · obtain ⟨answer, t, frames', run, kept, outcome⟩ := partitioned.performs permitted
    exact ⟨answer, t, frames', run, kept.list, outcome⟩
  · intro op range t run
    obtain ⟨permitted, member⟩ := member_of_allocated run
    obtain ⟨answer, u, frames', run', kept, outcome⟩ := partitioned.performs permitted
    rw [run] at run'
    cases run'
    exact partitioned.restores kept (granted_of_outcome outcome).free member

/-- A memory map with two frames, one of which has been allocated. -/
theorem frame_allocator_exact_two : ∃ s : FrameSystem, machine.Reachable s ∧
    s.usable = [⟨0x1000, 0x3000⟩] ∧ s.outstanding = [⟨0x1000, 0x2000⟩] ∧
    ∃ frames, FreeList pageSize s.allocator frames ∧
      (frames ++ [0x1000]).Perm [0x1000, 0x2000] := by
  have usable : Usable pageSize [⟨0x1000, 0x3000⟩] :=
    ⟨by rintro range member; obtain rfl := List.mem_singleton.mp member; constructor <;> decide,
      List.pairwise_singleton _ _⟩
  obtain ⟨a, run, -, list⟩ := initFromRanges_spec ⟨none, 0, 0, 0, fun _ => 0⟩ pageSize_pos usable
  have initial : machine.Reachable ⟨[⟨0x1000, 0x3000⟩], a, []⟩ :=
    .initial ⟨usable, rfl, _, run⟩
  obtain ⟨a', taken, -, -⟩ := FreeList.allocFrame_cons
    (list : FreeList pageSize a (0x1000 :: [0x2000]))
  have reached : machine.Reachable ⟨[⟨0x1000, 0x3000⟩], a', [⟨0x1000, 0x2000⟩]⟩ := by
    have performed : perform ⟨[⟨0x1000, 0x3000⟩], a, []⟩ .allocFrame =
        .ok (.allocated (some ⟨0x1000, 0x2000⟩),
          ⟨[⟨0x1000, 0x3000⟩], a', [⟨0x1000, 0x2000⟩]⟩) := by
      rw [perform, taken]
      rfl
    have step : machine.step ⟨[⟨0x1000, 0x3000⟩], a, []⟩ .allocFrame
        ⟨[⟨0x1000, 0x3000⟩], a', [⟨0x1000, 0x2000⟩]⟩ := ⟨trivial, _, performed⟩
    exact initial.step step
  obtain ⟨frames, free, parts, -⟩ := frame_allocator_exact reached
  exact ⟨_, reached, rfl, rfl, frames, free, parts⟩

/-- A request with an alignment below the page size is refused, though every free frame has
that alignment. -/
theorem small_alignment_refused : ∃ s : FrameSystem, machine.Reachable s ∧
    FreeList pageSize s.allocator [0x1000] ∧ Suitable pageSize 2048 1 [0x1000] 0x1000 ∧
    s.perform (.allocContiguous 1 2048) = .ok (.allocated none, s) := by
  have usable : Usable pageSize [⟨0x1000, 0x2000⟩] :=
    ⟨by rintro range member; obtain rfl := List.mem_singleton.mp member; constructor <;> decide,
      List.pairwise_singleton _ _⟩
  obtain ⟨a, run, -, list⟩ := initFromRanges_spec ⟨none, 0, 0, 0, fun _ => 0⟩ pageSize_pos usable
  refine ⟨⟨[⟨0x1000, 0x2000⟩], a, []⟩, .initial ⟨usable, rfl, _, run⟩, list, ⟨by decide, ?_⟩, ?_⟩
  · intro i less
    obtain rfl : i = 0 := by omega
    decide
  · exact perform_unserved fun served => absurd served.2.2 (by decide)

end FrameSystem

end Genrt
