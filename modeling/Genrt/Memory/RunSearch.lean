import Genrt.Memory.FreeList

/-!
# Contiguous allocations

The walk over the free list finds the lowest aligned run of adjacent frames. While it
goes on, every aligned frame behind it either has a gap after it within the length that
is asked for, or lies in the run that is being followed.
-/

namespace Genrt.FrameAllocator

open LinkedList

/-- A run of adjacent free frames of the wanted length and alignment starts here. -/
structure Suitable (page align count : Nat) (frames : List Nat) (start : Nat) : Prop where
  aligned : start % align = 0
  free : ∀ i < count, start + i * page ∈ frames

/-- The run that the walk follows, if there is one, ends what has been visited. -/
def Following (page align : Nat) (done : List Nat) (search : RunSearch) : Prop :=
  search.runStart = none ∧ search.runLen = 0 ∨
    ∃ before start, search.runStart = some start ∧ 0 < search.runLen ∧
      done = before ++ List.range' start search.runLen page ∧
      search.runEnd = some (start + (search.runLen - 1) * page) ∧
      search.candidatePrev = before.getLast? ∧ start % align = 0

/-- An aligned frame that has been visited starts no suitable run, unless it is in the run
that the walk follows. -/
def Settled (page align count : Nat) (frames done : List Nat) (search : RunSearch) : Prop :=
  ∀ frame ∈ done, frame % align = 0 →
    (∃ i < count, frame + i * page ∉ frames) ∨ ∃ start ∈ search.runStart, start ≤ frame

/-- The walk has visited a part of the list. -/
structure Searching (page align count : Nat) (frames done : List Nat) (search : RunSearch) :
    Prop where
  prev : search.prev = done.getLast?
  previous : search.previousFrame = done.getLast?
  short : search.runLen < count
  following : Following page align done search
  settled : Settled page align count frames done search

variable {page align count frame : Nat} {a : FrameAllocator} {frames done rest : List Nat}
  {search : RunSearch}

theorem Searching.start (some : 0 < count) : Searching page align count frames [] RunSearch.start :=
  ⟨rfl, rfl, some, .inl ⟨rfl, rfl⟩, nofun⟩

/-- There is no frame between two neighbours of the list. -/
theorem not_mem_of_gap {last next : Nat} (sorted : (done ++ next :: rest).Pairwise (· < ·))
    (aligned : ∀ frame ∈ done ++ next :: rest, frame % page = 0) (ends : last ∈ done.getLast?)
    (gap : next ≠ last + page) (positive : 0 < page) : last + page ∉ done ++ next :: rest := by
  obtain ⟨front, rfl⟩ := List.getLast?_eq_some_iff.mp ends
  obtain ⟨frontSorted, restSorted, across⟩ := List.pairwise_append.mp sorted
  have less : last < next := across last (by simp) next (.head _)
  have far : last + page < next := by
    have := add_le_of_aligned (aligned last (by simp)) (aligned next (by simp)) less
    omega
  intro member
  rcases List.mem_append.mp member with member | member
  · rcases List.mem_append.mp member with member | member
    · have := (List.pairwise_append.mp frontSorted).2.2 _ member last (.head _)
      omega
    · have := List.mem_singleton.mp member
      omega
  · rcases List.mem_cons.mp member with same | member
    · omega
    · have := (List.pairwise_cons.mp restSorted).1 _ member
      omega

theorem getLast?_run {before : List Nat} {start len : Nat} (some : 0 < len) :
    (before ++ List.range' start len page).getLast? = .some (start + (len - 1) * page) := by
  obtain ⟨len, rfl⟩ := Nat.exists_eq_succ_of_ne_zero (Nat.ne_of_gt some)
  rw [Nat.succ_eq_add_one, Nat.add_sub_cancel, List.range'_concat, ← List.append_assoc,
    List.getLast?_concat, Nat.mul_comm]

/-- The run ends one page in front of its continuation. -/
theorem run_end {start len : Nat} (some : 0 < len) :
    start + (len - 1) * page + page = start + len * page := by
  obtain ⟨len, rfl⟩ := Nat.exists_eq_succ_of_ne_zero (Nat.ne_of_gt some)
  rw [Nat.succ_eq_add_one, Nat.add_sub_cancel, Nat.add_mul, Nat.one_mul, Nat.add_assoc]

/-- If the walk cannot follow the run any further, no visited frame starts a suitable run. -/
theorem Searching.abandon (searching : Searching page align count frames done search)
    (sorted : done.Pairwise (· < ·)) (gap : ∀ last ∈ done.getLast?, last + page ∉ frames) :
    ∀ frame ∈ done, frame % align = 0 → ∃ i < count, frame + i * page ∉ frames := by
  intro frame member aligned
  rcases searching.settled frame member aligned with missing | ⟨start, follows, above⟩
  · exact missing
  rcases searching.following with ⟨absent, -⟩ | ⟨before, first, same, some, shape, -⟩
  · rw [absent] at follows
    cases follows
  rw [same] at follows
  cases follows
  have last : start + (search.runLen - 1) * page ∈ done.getLast? := by
    rw [shape, getLast?_run some]
    rfl
  have beyond := gap _ last
  rw [run_end some] at beyond
  have inRun : frame ∈ List.range' start search.runLen page := by
    rw [shape] at member sorted
    rcases List.mem_append.mp member with early | late
    · have head : start ∈ List.range' start search.runLen page :=
        List.mem_of_mem_head? (range'_head? some)
      have := (List.pairwise_append.mp sorted).2.2 frame early start head
      omega
    · exact late
  obtain ⟨k, less, rfl⟩ := List.mem_range'.mp inRun
  refine ⟨search.runLen - k, by have := searching.short; omega, ?_⟩
  have reach : start + page * k + (search.runLen - k) * page = start + search.runLen * page := by
    rw [Nat.mul_comm page, Nat.add_assoc, ← Nat.add_mul]
    congr 2
    omega
  rwa [reach]

/-- The walk after it has looked whether a frame continues the run. -/
structure Continuing (page align count : Nat) (frames done : List Nat) (frame : Nat)
    (search : RunSearch) : Prop where
  prev : search.prev = done.getLast?
  short : search.runLen < count
  following : Following page align done search
  settled : Settled page align count frames done search
  continues : ∀ start ∈ search.runStart, frame = start + search.runLen * page

theorem Searching.restart (searching : Searching page align count frames done search)
    (shape : frames = done ++ frame :: rest) (sorted : frames.Pairwise (· < ·))
    (aligned : ∀ frame ∈ frames, frame % page = 0) (positive : 0 < page) :
    Continuing page align count frames done frame (search.restart page frame) := by
  subst shape
  have doneSorted := (List.pairwise_append.mp sorted).1
  by_cases contiguous : search.contiguous page frame = true
  · rw [RunSearch.restart, if_pos contiguous]
    refine { searching with continues := ?_ }
    intro start follows
    rcases searching.following with ⟨absent, -⟩ | ⟨before, first, same, some, shape, -⟩
    · rw [absent] at follows
      cases follows
    rw [same] at follows
    cases follows
    rw [RunSearch.contiguous, searching.previous, shape, getLast?_run some] at contiguous
    rw [← run_end some]
    exact beq_iff_eq.mp contiguous
  · rw [RunSearch.restart, if_neg contiguous]
    have gap : ∀ last ∈ done.getLast?, frame ≠ last + page := by
      rintro last ends rfl
      rw [RunSearch.contiguous, searching.previous, Option.mem_def.mp ends] at contiguous
      simp at contiguous
    have missing := searching.abandon doneSorted fun last ends =>
      not_mem_of_gap sorted aligned ends (gap last ends) positive
    exact ⟨searching.prev, Nat.lt_of_le_of_lt (Nat.zero_le _) searching.short,
      .inl ⟨rfl, rfl⟩, fun found member isAligned => .inl (missing found member isAligned), nofun⟩

theorem isPowerOfTwo_iff : isPowerOfTwo align = true ↔ ∃ k, align = 2 ^ k := by
  rw [isPowerOfTwo, beq_iff_eq]
  constructor
  · exact fun same => ⟨_, same.symm⟩
  · rintro ⟨k, rfl⟩
    rw [Nat.log2_two_pow]

theorem masked_eq_zero (power : isPowerOfTwo align = true) :
    frame &&& (align - 1) = 0 ↔ frame % align = 0 := by
  obtain ⟨k, rfl⟩ := isPowerOfTwo_iff.mp power
  rw [Nat.and_two_pow_sub_one_eq_mod]

/-- The walk after it has visited a frame. -/
structure Visited (page align count : Nat) (frames done : List Nat) (search : RunSearch) :
    Prop where
  bounded : search.runLen ≤ count
  following : Following page align done search
  settled : Settled page align count frames done search

theorem Continuing.extend (continuing : Continuing page align count frames done frame search)
    (power : isPowerOfTwo align = true) :
    Visited page align count frames (done ++ [frame]) (search.extend align frame) := by
  have short := continuing.short
  rcases continuing.following with
    ⟨absent, zero⟩ | ⟨before, start, same, some, shape, -, prev, first⟩
  · by_cases aligned : frame % align = 0
    · -- the frame begins a run
      have begins : search.runStart.isNone ∧ frame &&& (align - 1) = 0 :=
        ⟨by rw [absent]; rfl, (masked_eq_zero power).mpr aligned⟩
      rw [RunSearch.extend, if_pos begins]
      refine ⟨Nat.succ_le_of_lt (Nat.lt_of_le_of_lt (Nat.zero_le _) short), .inr ⟨done, frame, rfl,
        Nat.one_pos, rfl, by simp, continuing.prev, aligned⟩, fun found member isAligned => ?_⟩
      rcases List.mem_append.mp member with member | member
      · refine (continuing.settled found member isAligned).imp id ?_
        rintro ⟨other, follows, -⟩
        rw [absent] at follows
        cases follows
      · exact .inr ⟨frame, rfl, Nat.le_of_eq (List.mem_singleton.mp member).symm⟩
    · -- no run begins here
      have unaligned : ¬ (search.runStart.isNone ∧ frame &&& (align - 1) = 0) := fun both =>
        aligned ((masked_eq_zero power).mp both.2)
      have nothing : ¬ search.runStart.isSome = true := by
        rw [absent]
        nofun
      rw [RunSearch.extend, if_neg unaligned, if_neg nothing]
      refine ⟨Nat.le_of_lt short, .inl ⟨absent, zero⟩, fun found member isAligned => ?_⟩
      rcases List.mem_append.mp member with member | member
      · exact continuing.settled found member isAligned
      · rw [List.mem_singleton.mp member] at isAligned
        exact (aligned isAligned).elim
  · -- the frame extends the run
    have running : ¬ (search.runStart.isNone ∧ frame &&& (align - 1) = 0) := by
      rw [same]
      nofun
    have follows : search.runStart.isSome = true := by
      rw [same]
      rfl
    have next := continuing.continues start same
    rw [RunSearch.extend, if_neg running, if_pos follows]
    refine ⟨short, .inr ⟨before, start, same, Nat.succ_pos _, ?_, ?_, prev, first⟩,
      fun found member isAligned => ?_⟩
    · rw [List.range'_concat, ← List.append_assoc, ← shape, Nat.mul_comm, ← next]
    · rw [next]
      rfl
    · rcases List.mem_append.mp member with member | member
      · exact continuing.settled found member isAligned
      · rw [List.mem_singleton.mp member, next]
        exact .inr ⟨start, same, Nat.le_add_right _ _⟩

/-- What a contiguous allocation does. -/
structure Taken (page align count : Nat) (a : FrameAllocator) (frames : List Nat)
    (range : AddrRange) (a' : FrameAllocator) : Prop where
  aligned : range.start % align = 0
  length : range.stop = range.start + count * page
  split : ∃ before after, frames = before ++ (List.range' range.start count page ++ after) ∧
    FreeList page a' (before ++ after)
  lowest : ∀ start, Suitable page align count frames start → range.start ≤ start
  bytes : a'.pageBytes = a.pageBytes

variable (list : FreeList page a frames) (positive : 0 < page) (some : 0 < count)

include list positive some

/-- Take out the run that has just been completed. -/
theorem Visited.takeRun (shape : frames = done ++ rest)
    (visited : Visited page align count frames done search) (complete : search.runLen = count) :
    ∃ range a', a.takeRun search count page rest.head? = .ok (.some range, a') ∧
      Taken page align count a frames range a' := by
  rcases visited.following with ⟨-, zero⟩ | ⟨before, start, same, -, run, last, prev, aligned⟩
  · omega
  rw [complete] at run last
  have lastMem : start + (count - 1) * page ∈ frames := by
    have ends : start + (count - 1) * page ∈ done.getLast? := by
      rw [run, getLast?_run some]
      rfl
    rw [shape]
    exact List.mem_append_left _ (List.mem_of_getLast? ends)
  have fits : checkedAdd (start + (count - 1) * page) page = .some (start + count * page) := by
    have room := (list.proper _ lastMem).room
    have limit : freeListEnd < usizeLimit := by decide
    rw [run_end some] at room
    rw [checkedAdd, run_end some, if_pos (by omega)]
  have parts : frames = before ++ (List.range' start count page ++ rest) := by
    rw [shape, run, List.append_assoc]
  have unlinked := (parts ▸ list : FreeList page a _).unlink positive
  rw [List.length_range'] at unlinked
  refine ⟨⟨start, start + count * page⟩, _, ?_,
    ⟨aligned, rfl, ⟨before, rest, parts, unlinked⟩, fun other suitable => ?_, ?_⟩⟩
  · rw [FrameAllocator.takeRun, same, last, prev]
    dsimp only
    rw [fits]
  · by_contra lower
    dsimp only at lower
    have member : other ∈ done := by
      have free := suitable.free 0 some
      rw [Nat.zero_mul, Nat.add_zero, shape] at free
      rcases List.mem_append.mp free with early | late
      · exact early
      · have head : start ∈ done := by
          rw [run]
          exact List.mem_append_right _ (List.mem_of_mem_head? (range'_head? some))
        have sorted := list.sorted
        rw [shape] at sorted
        have := (List.pairwise_append.mp sorted).2.2 start head other late
        omega
    rcases visited.settled other member suitable.aligned with
      ⟨i, less, missing⟩ | ⟨found, follows, le⟩
    · exact missing (suitable.free i less)
    · rw [same] at follows
      cases follows
      exact lower le
  · cases before.getLast? <;> rfl

/-- The walk over the rest of the list takes the lowest suitable run, or there is none. -/
theorem searchRun_spec {fuel : Nat} (power : isPowerOfTwo align = true)
    (shape : frames = done ++ rest) (searching : Searching page align count frames done search)
    (enough : rest.length < fuel) :
    (a.searchRun count page align fuel rest.head? search = .ok (none, a) ∧
        ∀ start, ¬ Suitable page align count frames start) ∨
      ∃ range a', a.searchRun count page align fuel rest.head? search = .ok (.some range, a') ∧
        Taken page align count a frames range a' := by
  induction rest generalizing done search fuel with
  | nil =>
    obtain ⟨fuel, rfl⟩ := Nat.exists_eq_succ_of_ne_zero (Nat.ne_zero_of_lt enough)
    rw [List.append_nil] at shape
    subst shape
    refine .inl ⟨rfl, fun start suitable => ?_⟩
    have free := suitable.free 0 some
    rw [Nat.zero_mul, Nat.add_zero] at free
    have gap : ∀ last ∈ frames.getLast?, last + page ∉ frames := by
      intro last ends member
      obtain ⟨front, rfl⟩ := List.getLast?_eq_some_iff.mp ends
      rcases List.mem_append.mp member with member | member
      · have := (List.pairwise_append.mp list.sorted).2.2 _ member last (.head _)
        omega
      · have := List.mem_singleton.mp member
        omega
    obtain ⟨i, less, missing⟩ := searching.abandon list.sorted gap start free suitable.aligned
    exact missing (suitable.free i less)
  | cons frame rest ih =>
    obtain ⟨fuel, rfl⟩ := Nat.exists_eq_succ_of_ne_zero (Nat.ne_zero_of_lt enough)
    have linked := list.linked
    rw [shape] at linked
    have shift : frames = done ++ [frame] ++ rest := by simp [shape]
    have visited := (searching.restart shape list.sorted
      (fun found member => (list.proper found member).aligned) positive).extend power
    rw [List.head?_cons, searchRun, nextFreeFrame_eq linked]
    split
    · next complete => exact .inr (visited.takeRun list positive some shift complete)
    · next short =>
      refine ih shift ⟨?_, ?_, ?_, visited.following, visited.settled⟩
        (Nat.lt_of_succ_lt_succ enough)
      · exact List.getLast?_concat.symm
      · exact List.getLast?_concat.symm
      · exact Nat.lt_of_le_of_ne visited.bounded short

/-- A contiguous allocation takes the lowest suitable run, or there is none. -/
theorem FreeList.allocContiguousAligned (power : isPowerOfTwo align = true) (whole : page ≤ align) :
    (a.allocContiguousAligned count page align = .ok (none, a) ∧
        ∀ start, ¬ Suitable page align count frames start) ∨
      ∃ range a', a.allocContiguousAligned count page align = .ok (.some range, a') ∧
        Taken page align count a frames range a' := by
  have valid : ¬ (align < page ∨ isPowerOfTwo align = false) := by
    rw [power]
    rintro (less | different)
    · omega
    · cases different
  rw [FrameAllocator.allocContiguousAligned, if_neg (Nat.ne_of_gt some), if_neg valid, list.head]
  exact searchRun_spec list positive some power (List.nil_append frames).symm
    (Searching.start some) (by rw [list.count]; exact Nat.lt_succ_self _)

end Genrt.FrameAllocator
