import Genrt.Foundation.Result
import Genrt.Memory.FrameAllocator

/-!
# What the frame allocator does to its list

The free frames are a strictly increasing list. Every operation is specified by what it
does to this list: an allocation takes a run of adjacent frames out of it, and a free puts
the frames of a range back in their place.
-/

namespace Genrt.FrameAllocator

open LinkedList Function

/-- The address of a page frame, all of which lies below the marker. -/
structure Proper (page frame : Nat) : Prop where
  aligned : frame % page = 0
  room : frame + page ≤ freeListEnd

/-- The links lead through exactly these frames. -/
structure FreeList (page : Nat) (a : FrameAllocator) (frames : List Nat) : Prop where
  linked : Segment freeListEnd a.links a.head frames none
  sorted : frames.Pairwise (· < ·)
  count : a.freeFrames = frames.length
  proper : ∀ frame ∈ frames, Proper page frame

variable {page : Nat} {a : FrameAllocator} {frames lower upper : List Nat}

theorem FreeList.head (list : FreeList page a frames) : a.head = frames.head? := by
  rw [list.linked.first_eq, Option.or_none]

/-- A single frame is taken from the front. -/
theorem FreeList.allocFrame_nil (list : FreeList page a []) : a.allocFrame = (none, a) := by
  rw [allocFrame, list.head]
  rfl

variable {frame start : Nat}

theorem FreeList.allocFrame_cons (list : FreeList page a (frame :: frames)) :
    ∃ a', a.allocFrame = (some frame, a') ∧ a'.pageBytes = a.pageBytes ∧
      FreeList page a' frames := by
  refine ⟨{ a with head := a.nextFreeFrame frame, freeFrames := a.freeFrames - 1 }, ?_, rfl,
    list.linked.2, (List.pairwise_cons.mp list.sorted).2, by rw [list.count]; rfl,
    fun other member => list.proper other (.tail _ member)⟩
  rw [allocFrame, list.head]
  rfl

/-! ### Links -/

/-- The marker is not a frame. -/
theorem follow_raw_head? {items : List Nat} (proper : ∀ frame ∈ items, Proper page frame)
    (positive : 0 < page) : follow freeListEnd (raw freeListEnd items.head?) = items.head? := by
  refine follow_raw fun marker => ?_
  have := (proper _ (List.mem_of_mem_head? marker)).room
  omega

theorem follow_frame (room : frame + page ≤ freeListEnd) (positive : 0 < page) :
    follow freeListEnd frame = some frame :=
  if_neg (by omega)

/-- A link in the middle leads to the next frame. -/
theorem nextFreeFrame_eq
    (linked : Segment freeListEnd a.links a.head (lower ++ frame :: upper) none) :
    a.nextFreeFrame frame = upper.head? := by
  obtain ⟨middle, -, back⟩ := segment_append.mp linked
  rw [nextFreeFrame, back.2.first_eq, Option.or_none]

/-- The links of a run of adjacent frames, written from its end. -/
theorem linkDown_spec {start count next : Nat} {links : Nat → Nat} (positive : 0 < page)
    (room : start + count * page ≤ freeListEnd) :
    (∃ first, Segment freeListEnd (linkDown page count (start + count * page) next links) first
      (List.range' start count page) (follow freeListEnd next)) ∧
    ∀ frame, frame ∉ List.range' start count page →
      linkDown page count (start + count * page) next links frame = links frame := by
  induction count generalizing next links with
  | zero => exact ⟨⟨_, rfl⟩, fun _ _ => rfl⟩
  | succ count ih =>
    have below : start + (count + 1) * page - page = start + count * page := by
      rw [Nat.add_mul, Nat.one_mul]
      omega
    have fits : start + count * page + page ≤ freeListEnd := by
      rw [Nat.add_mul, Nat.one_mul] at room
      omega
    have frames : List.range' start (count + 1) page =
        List.range' start count page ++ [start + count * page] := by
      rw [List.range'_concat, Nat.mul_comm]
    have fresh : start + count * page ∉ List.range' start count page := by
      rw [List.mem_range']
      rintro ⟨i, less, same⟩
      have := Nat.mul_lt_mul_of_pos_right less positive
      rw [Nat.mul_comm page] at same
      omega
    rw [linkDown, below, frames]
    obtain ⟨⟨first, front⟩, others⟩ := @ih (start + count * page)
      (update links (start + count * page) next) (by omega)
    rw [follow_frame fits positive] at front
    refine ⟨⟨first, front.append ⟨rfl, ?_⟩⟩, fun frame other => ?_⟩
    · rw [others _ fresh, update_self]
      rfl
    · rw [List.mem_append, List.mem_singleton, not_or] at other
      rw [others frame other.1, update_of_ne other.2]

/-! ### Insertion -/

theorem range'_head? {count : Nat} (some : 0 < count) :
    (List.range' start count page).head? = .some start := by
  cases count with
  | zero => omega
  | succ count => rfl

/-- Frames that are linked among themselves and to the rest of the list go between two of
its parts. -/
theorem FreeList.splice {block : List Nat} {links : Nat → Nat}
    (list : FreeList page a (lower ++ upper)) (positive : 0 < page)
    (linked : Segment freeListEnd links (some start) block upper.head?)
    (others : ∀ frame, frame ∉ block → links frame = a.links frame)
    (sorted : (lower ++ (block ++ upper)).Pairwise (· < ·))
    (proper : ∀ frame ∈ block, Proper page frame) (begins : start + page ≤ freeListEnd) :
    FreeList page
      { a.spliced links start lower.getLast? with freeFrames := a.freeFrames + block.length }
      (lower ++ (block ++ upper)) := by
  obtain ⟨lowerSorted, blockSorted, across⟩ := List.pairwise_append.mp sorted
  have blockUpper := (List.pairwise_append.mp blockSorted).2.2
  have upperFree : ∀ frame ∈ upper, links frame = a.links frame := fun frame member =>
    others frame fun inside => Nat.lt_irrefl _ (blockUpper frame inside frame member)
  have lowerFree : ∀ frame ∈ lower, links frame = a.links frame := fun frame member =>
    others frame fun inside =>
      Nat.lt_irrefl _ (across frame member frame (List.mem_append_left _ inside))
  obtain ⟨middle, front, back⟩ := segment_append.mp list.linked
  have back : Segment freeListEnd links upper.head? upper none := by
    have first := back.first_eq
    rw [Option.or_none] at first
    rw [← first]
    exact back.congr upperFree
  refine ⟨?_, sorted, ?_, ?_⟩
  · rcases List.eq_nil_or_concat lower with rfl | ⟨items, before, rfl⟩
    · exact linked.append back
    · rw [List.concat_eq_append] at *
      have once : before ∉ items := fun member =>
        Nat.lt_irrefl _ ((List.pairwise_append.mp lowerSorted).2.2 before member before
          List.mem_cons_self)
      have outside : before ∉ block ++ upper := fun member =>
        Nat.lt_irrefl _ (across before (List.mem_append_right _ List.mem_cons_self) before member)
      have redirected : Segment freeListEnd (update links before start) a.head
          (items ++ [before]) (follow freeListEnd start) := (front.congr lowerFree).redirect once
      rw [follow_frame begins positive] at redirected
      rw [List.getLast?_concat]
      exact redirected.append ((linked.append back).update outside)
  · simp only [list.count, List.length_append]
    omega
  · have kept := list.proper
    simp only [List.forall_mem_append] at kept ⊢
    exact ⟨kept.1, proper, kept.2⟩

/-- A part of the list is left out. -/
theorem FreeList.unlink {block : List Nat} (list : FreeList page a (lower ++ (block ++ upper)))
    (positive : 0 < page) :
    FreeList page
      { a.unlinked upper.head? lower.getLast? with freeFrames := a.freeFrames - block.length }
      (lower ++ upper) := by
  obtain ⟨middle, front, others⟩ := segment_append.mp list.linked
  obtain ⟨last, -, back⟩ := segment_append.mp others
  obtain ⟨lowerSorted, blockSorted, across⟩ := List.pairwise_append.mp list.sorted
  have first := back.first_eq
  rw [Option.or_none] at first
  rw [first] at back
  have kept : ∀ frame ∈ lower ++ upper, Proper page frame := by
    have proper := list.proper
    simp only [List.forall_mem_append] at proper ⊢
    exact ⟨proper.1, proper.2.2⟩
  refine ⟨?_, ?_, ?_, kept⟩
  · rcases List.eq_nil_or_concat lower with rfl | ⟨items, before, rfl⟩
    · exact back
    · rw [List.concat_eq_append] at *
      have once : before ∉ items := fun member =>
        Nat.lt_irrefl _ ((List.pairwise_append.mp lowerSorted).2.2 before member before
          List.mem_cons_self)
      have outside : before ∉ upper := fun member =>
        Nat.lt_irrefl _ (across before (List.mem_append_right _ List.mem_cons_self) before
          (List.mem_append_right _ member))
      have redirected : Segment freeListEnd
          (update a.links before (raw freeListEnd upper.head?)) a.head
          (items ++ [before]) (follow freeListEnd (raw freeListEnd upper.head?)) :=
        front.redirect once
      rw [follow_raw_head? (fun frame member => kept frame (List.mem_append_right _ member))
        positive] at redirected
      rw [List.getLast?_concat]
      exact redirected.append (back.update outside)
  · refine List.pairwise_append.mpr ⟨lowerSorted, (List.pairwise_append.mp blockSorted).2.1, ?_⟩
    exact fun frame member other later => across frame member other (List.mem_append_right _ later)
  · simp only [list.count, List.length_append]
    omega

/-- The search for the place of a range stops between the frames in front of it and the
others. -/
theorem seek_spec {start fuel : Nat} {done rest : List Nat}
    (linked : Segment freeListEnd a.links a.head (done ++ rest) none)
    (sorted : (done ++ rest).Pairwise (· < ·)) (before : ∀ frame ∈ done, frame < start)
    (enough : rest.length < fuel) :
    ∃ lower upper, done ++ rest = lower ++ upper ∧ (∀ frame ∈ lower, frame < start) ∧
      (∀ frame ∈ upper, start ≤ frame) ∧
      a.seek start fuel done.getLast? rest.head? = .ok (lower.getLast?, upper.head?) := by
  induction rest generalizing done fuel with
  | nil =>
    obtain ⟨fuel, rfl⟩ := Nat.exists_eq_succ_of_ne_zero (Nat.ne_zero_of_lt enough)
    exact ⟨done, [], rfl, before, nofun, rfl⟩
  | cons frame rest ih =>
    obtain ⟨fuel, rfl⟩ := Nat.exists_eq_succ_of_ne_zero (Nat.ne_zero_of_lt enough)
    rw [List.head?_cons, seek]
    split
    · next found =>
      refine ⟨done, frame :: rest, rfl, before, List.forall_mem_cons.mpr ⟨found, ?_⟩, rfl⟩
      intro other member
      have order := (List.pairwise_append.mp sorted).2.1
      exact Nat.le_trans found
        (Nat.le_of_lt ((List.pairwise_cons.mp order).1 other member))
    · next passed =>
      have shift : done ++ frame :: rest = done ++ [frame] ++ rest := by simp
      have passes : ∀ other ∈ done ++ [frame], other < start := by
        simp only [List.forall_mem_append, List.forall_mem_singleton]
        exact ⟨before, Nat.lt_of_not_le passed⟩
      rw [nextFreeFrame_eq linked]
      rw [shift] at linked sorted ⊢
      have more := ih linked sorted passes (Nat.lt_of_succ_lt_succ enough)
      rwa [List.getLast?_concat] at more

/-- The frames of a range in order. -/
def framesOf (page : Nat) (range : AddrRange) : List Nat :=
  List.range' range.start ((range.stop - range.start) / page) page

/-- A range of whole frames below the marker. -/
structure WholeFrames (page : Nat) (range : AddrRange) : Prop where
  starts : range.start % page = 0
  stops : range.stop % page = 0
  nonempty : range.start < range.stop
  room : range.stop ≤ freeListEnd

variable {range : AddrRange}

theorem WholeFrames.length (whole : WholeFrames page range) :
    range.start + (range.stop - range.start) / page * page = range.stop := by
  have order := whole.nonempty
  have divides : page ∣ range.stop - range.start :=
    Nat.dvd_sub (Nat.dvd_of_mod_eq_zero whole.stops) (Nat.dvd_of_mod_eq_zero whole.starts)
  rw [Nat.div_mul_cancel divides]
  omega

theorem mem_framesOf (positive : 0 < page) (whole : WholeFrames page range) :
    frame ∈ framesOf page range ↔
      range.start ≤ frame ∧ frame + page ≤ range.stop ∧ frame % page = 0 := by
  have length := whole.length
  rw [framesOf, List.mem_range']
  constructor
  · rintro ⟨i, less, rfl⟩
    have scaled := Nat.mul_le_mul_right page (Nat.succ_le_of_lt less)
    rw [Nat.succ_mul, Nat.mul_comm i] at scaled
    refine ⟨Nat.le_add_right _ _, by omega, ?_⟩
    rw [Nat.add_mul_mod_self_left]
    exact whole.starts
  · rintro ⟨above, below, aligned⟩
    have divides : page ∣ frame - range.start :=
      Nat.dvd_sub (Nat.dvd_of_mod_eq_zero aligned) (Nat.dvd_of_mod_eq_zero whole.starts)
    obtain ⟨i, apart⟩ := divides
    refine ⟨i, ?_, by omega⟩
    by_contra passed
    have scaled := Nat.mul_le_mul_right page (Nat.le_of_not_lt passed)
    rw [Nat.mul_comm i] at scaled
    omega

theorem WholeFrames.rounds_eq (positive : 0 < page) (whole : WholeFrames page range) :
    rounds range.start range.stop page = (range.stop - range.start) / page := by
  have divides : page ∣ range.stop - range.start :=
    Nat.dvd_sub (Nat.dvd_of_mod_eq_zero whole.stops) (Nat.dvd_of_mod_eq_zero whole.starts)
  obtain ⟨count, length⟩ := divides
  rw [rounds, length, Nat.mul_add_div positive, Nat.div_eq_of_lt (by omega), Nat.add_zero,
    Nat.mul_div_cancel_left count positive]

theorem WholeFrames.count_pos (whole : WholeFrames page range) :
    0 < (range.stop - range.start) / page := by
  by_contra none
  have length := whole.length
  have order := whole.nonempty
  rw [Nat.eq_zero_of_not_pos none] at length
  omega

theorem WholeFrames.start_mem (whole : WholeFrames page range) :
    range.start ∈ framesOf page range :=
  List.mem_of_mem_head? (range'_head? (whole.count_pos))

theorem WholeFrames.proper (positive : 0 < page) (whole : WholeFrames page range) :
    ∀ frame ∈ framesOf page range, Proper page frame := by
  intro frame member
  obtain ⟨-, below, aligned⟩ := (mem_framesOf positive whole).mp member
  exact ⟨aligned, Nat.le_trans below whole.room⟩

theorem framesOf_sorted (positive : 0 < page) (range : AddrRange) :
    (framesOf page range).Pairwise (· < ·) :=
  List.pairwise_lt_range' _ positive

/-- A page boundary below another is a page below it. -/
theorem add_le_of_aligned {first second : Nat} (one : first % page = 0) (two : second % page = 0)
    (less : first < second) : first + page ≤ second := by
  obtain ⟨i, rfl⟩ := Nat.dvd_of_mod_eq_zero one
  obtain ⟨j, rfl⟩ := Nat.dvd_of_mod_eq_zero two
  have order : i < j := Nat.lt_of_mul_lt_mul_left less
  have scaled := Nat.mul_le_mul_left page (Nat.succ_le_of_lt order)
  rwa [Nat.mul_succ] at scaled

theorem assert_of {condition : Prop} [Decidable condition] (holds : condition) :
    assert condition = .ok () := if_pos holds

/-- A free puts the frames of the range back into the list. -/
theorem FreeList.freeContiguous (list : FreeList page a frames) (positive : 0 < page)
    (whole : WholeFrames page range) (apart : ∀ frame ∈ framesOf page range, frame ∉ frames) :
    ∃ a' frames', a.freeContiguous range page = .ok a' ∧ a'.pageBytes = a.pageBytes ∧
      FreeList page a' frames' ∧ frames'.Perm (framesOf page range ++ frames) := by
  obtain ⟨lower, upper, rfl, below, above, found⟩ :=
    @seek_spec a range.start (a.freeFrames + 1) [] frames list.linked list.sorted nofun
      (by rw [list.count]; exact Nat.lt_succ_self _)
  have behind : ∀ frame ∈ upper, range.stop ≤ frame := by
    intro frame member
    have free := List.mem_append_right lower member
    have aligned := (list.proper frame free).aligned
    by_contra inside
    exact apart frame ((mem_framesOf positive whole).mpr ⟨above frame member,
      add_le_of_aligned aligned whole.stops (Nat.lt_of_not_le inside), aligned⟩) free
  have stop : range.start + (range.stop - range.start) / page * page = range.stop := whole.length
  obtain ⟨⟨first, linked⟩, others⟩ := @linkDown_spec page range.start
    ((range.stop - range.start) / page) (raw freeListEnd upper.head?) a.links positive
    (stop.symm ▸ whole.room)
  rw [stop] at linked others
  have begins : first = some range.start := by
    rw [linked.first_eq, range'_head? (whole.count_pos)]
    rfl
  have proper : ∀ frame ∈ upper, Proper page frame := fun frame member =>
    list.proper frame (List.mem_append_right _ member)
  rw [begins, follow_raw_head? proper positive] at linked
  have sorted : (lower ++ (framesOf page range ++ upper)).Pairwise (· < ·) := by
    obtain ⟨lowerSorted, upperSorted, across⟩ := List.pairwise_append.mp list.sorted
    refine List.pairwise_append.mpr ⟨lowerSorted, List.pairwise_append.mpr
      ⟨framesOf_sorted positive range, upperSorted, fun frame inside other member => ?_⟩,
      fun frame member other inside => ?_⟩
    · have := ((mem_framesOf positive whole).mp inside).2.1
      have := behind other member
      omega
    · rcases List.mem_append.mp inside with inside | inside
      · exact Nat.lt_of_lt_of_le (below frame member) ((mem_framesOf positive whole).mp inside).1
      · exact across frame member other inside
  have result := list.splice positive linked others sorted (whole.proper positive)
    (whole.proper positive _ (whole.start_mem)).room
  rw [List.length_range'] at result
  refine ⟨_, _, ?_, ?_, result, ?_⟩
  · have infront : ∀ frame ∈ lower.getLast?, frame < range.start :=
      fun frame last => below frame (List.mem_of_getLast? last)
    have after : ∀ frame ∈ upper.head?, range.stop ≤ frame :=
      fun frame next => behind frame (List.mem_of_mem_head? next)
    rw [List.getLast?_nil, ← list.head] at found
    rw [freeContiguous, if_neg (Nat.not_le.mpr whole.nonempty),
      assert_of whole.starts, Result.ok_bind, assert_of whole.stops, Result.ok_bind]
    dsimp only
    rw [assert_of whole.count_pos, Result.ok_bind, found, Result.ok_bind]
    dsimp only
    rw [assert_of infront, Result.ok_bind, assert_of after, Result.ok_bind,
      whole.rounds_eq positive]
  · cases lower.getLast? <;> rfl
  · rw [← List.append_assoc, ← List.append_assoc]
    exact List.perm_append_comm.append_right upper

/-! ### Initialisation -/

/-- The allocator after an insertion behind the first of two parts of the list. -/
def inserted (a : FrameAllocator) (frame : Nat) (lower upper : List Nat) : FrameAllocator :=
  { a.spliced (update a.links frame (raw freeListEnd upper.head?)) frame
      lower.getLast? with
    freeFrames := a.freeFrames + 1 }

/-- A place for a frame in the list. -/
structure Place (frames : List Nat) (frame : Nat) (lower upper : List Nat) : Prop where
  split : frames = lower ++ upper
  below : ∀ other ∈ lower, other < frame
  above : ∀ other ∈ upper, frame < other

theorem insertAfter_spec {frame prev fuel : Nat} {done rest : List Nat}
    (linked : Segment freeListEnd a.links a.head (done ++ prev :: rest) none)
    (sorted : (done ++ prev :: rest).Pairwise (· < ·)) (fresh : frame ∉ done ++ prev :: rest)
    (behind : prev < frame) (enough : rest.length < fuel) :
    ∃ lower upper, Place (done ++ prev :: rest) frame lower upper ∧
      insertAfter frame fuel prev a = .ok (a.inserted frame lower upper) := by
  induction rest generalizing done prev fuel with
  | nil =>
    obtain ⟨fuel, rfl⟩ := Nat.exists_eq_succ_of_ne_zero (Nat.ne_zero_of_lt enough)
    have below := (List.pairwise_append.mp sorted).2.2
    refine ⟨done ++ [prev], [], ⟨by simp, fun other member => ?_, nofun⟩, ?_⟩
    · rcases List.mem_append.mp member with member | member
      · exact Nat.lt_trans (below other member prev (.head _)) behind
      · obtain rfl := List.mem_singleton.mp member
        exact behind
    · rw [insertAfter, nextFreeFrame_eq linked, inserted, List.getLast?_concat]
      rfl
  | cons candidate rest ih =>
    obtain ⟨fuel, rfl⟩ := Nat.exists_eq_succ_of_ne_zero (Nat.ne_zero_of_lt enough)
    obtain ⟨-, restSorted, below⟩ := List.pairwise_append.mp sorted
    have shift : done ++ prev :: candidate :: rest = done ++ [prev] ++ candidate :: rest := by
      simp
    rw [insertAfter, nextFreeFrame_eq linked]
    dsimp only [List.head?_cons]
    split
    · next first =>
      refine ⟨done ++ [prev], candidate :: rest, ⟨shift, fun other member => ?_, ?_⟩, ?_⟩
      · rcases List.mem_append.mp member with member | member
        · exact Nat.lt_trans (below other member prev (.head _)) behind
        · obtain rfl := List.mem_singleton.mp member
          exact behind
      · refine List.forall_mem_cons.mpr ⟨first, fun other member => Nat.lt_trans first ?_⟩
        exact (List.pairwise_cons.mp (List.pairwise_cons.mp restSorted).2).1 other member
      · rw [inserted, List.getLast?_concat]
        rfl
    · next passed =>
      have different : frame ≠ candidate := by
        rintro rfl
        exact fresh (by simp)
      rw [shift] at linked sorted fresh ⊢
      exact ih linked sorted fresh (by omega) (Nat.lt_of_succ_lt_succ enough)

/-- A frame that is not free is put into its place. -/
theorem FreeList.insertFrameSorted (list : FreeList page a frames) (positive : 0 < page)
    (proper : Proper page frame) (fresh : frame ∉ frames) :
    ∃ a' frames', a.insertFrameSorted frame = .ok a' ∧ a'.pageBytes = a.pageBytes ∧
      FreeList page a' frames' ∧ frames'.Perm (frame :: frames) := by
  have placed : ∃ lower upper, Place frames frame lower upper ∧
      a.insertFrameSorted frame = .ok (a.inserted frame lower upper) := by
    rw [FrameAllocator.insertFrameSorted, list.head]
    cases frames with
    | nil => exact ⟨[], [], ⟨rfl, nofun, nofun⟩, rfl⟩
    | cons head rest =>
      dsimp only [List.head?_cons]
      split
      · next first =>
        refine ⟨[], head :: rest, ⟨rfl, nofun, ?_⟩, rfl⟩
        refine List.forall_mem_cons.mpr ⟨first, fun other member => Nat.lt_trans first ?_⟩
        exact (List.pairwise_cons.mp list.sorted).1 other member
      · next passed =>
        have different : frame ≠ head := by
          rintro rfl
          exact fresh (.head _)
        have enough : rest.length < a.freeFrames + 1 := by
          rw [list.count, List.length_cons]
          omega
        exact @insertAfter_spec a frame head (a.freeFrames + 1) [] rest list.linked list.sorted
          fresh (by omega) enough
  obtain ⟨lower, upper, ⟨rfl, below, above⟩, run⟩ := placed
  have upperProper : ∀ other ∈ upper, Proper page other := fun other member =>
    list.proper other (List.mem_append_right _ member)
  have linked : Segment freeListEnd
      (update a.links frame (raw freeListEnd upper.head?)) (some frame) [frame]
      upper.head? := by
    refine ⟨rfl, ?_⟩
    rw [update_self, follow_raw_head? upperProper positive]
    rfl
  have sorted : (lower ++ ([frame] ++ upper)).Pairwise (· < ·) := by
    obtain ⟨lowerSorted, upperSorted, across⟩ := List.pairwise_append.mp list.sorted
    refine List.pairwise_append.mpr ⟨lowerSorted, List.pairwise_cons.mpr ⟨above, upperSorted⟩,
      fun other member found inside => ?_⟩
    rcases List.mem_cons.mp inside with rfl | inside
    · exact below other member
    · exact across other member found inside
  have result := list.splice positive linked
    (fun other outside => update_of_ne (fun same => outside (by simp [same])) _ _)
    sorted (fun other member => List.mem_singleton.mp member ▸ proper) proper.room
  refine ⟨_, _, run, ?_, result, ?_⟩
  · rw [inserted]
    cases lower.getLast? <;> rfl
  · exact List.perm_middle

theorem FreeList.insertDown {count : Nat} (list : FreeList page a frames) (positive : 0 < page)
    (proper : ∀ frame ∈ List.range' start count page, Proper page frame)
    (fresh : ∀ frame ∈ List.range' start count page, frame ∉ frames) :
    ∃ a' frames', insertDown page count (start + count * page) a = .ok a' ∧
      a'.pageBytes = a.pageBytes ∧ FreeList page a' frames' ∧
      frames'.Perm (List.range' start count page ++ frames) := by
  induction count generalizing a frames with
  | zero => exact ⟨a, frames, rfl, rfl, list, .refl _⟩
  | succ count ih =>
    have below : start + (count + 1) * page - page = start + count * page := by
      rw [Nat.add_mul, Nat.one_mul]
      omega
    have last : List.range' start (count + 1) page =
        List.range' start count page ++ [start + count * page] := by
      rw [List.range'_concat, Nat.mul_comm]
    have sorted : (List.range' start (count + 1) page).Pairwise (· < ·) :=
      List.pairwise_lt_range' _ positive
    rw [last] at proper fresh sorted ⊢
    simp only [List.forall_mem_append, List.forall_mem_singleton] at proper fresh
    obtain ⟨b, middle, first, bytes, inserted, perm⟩ :=
      list.insertFrameSorted positive proper.2 fresh.2
    have others : ∀ frame ∈ List.range' start count page, frame ∉ middle := by
      intro frame member inside
      rcases List.mem_cons.mp (perm.mem_iff.mp inside) with rfl | inside
      · exact Nat.lt_irrefl _ ((List.pairwise_append.mp sorted).2.2 _ member _
          List.mem_cons_self)
      · exact fresh.1 frame member inside
    obtain ⟨c, frames', rest, same, done, order⟩ := ih inserted proper.1 others
    refine ⟨c, frames', ?_, same.trans bytes, done, ?_⟩
    · rw [insertDown, below, first, Result.ok_bind, rest]
    · rw [List.append_assoc]
      exact order.trans (perm.append_left _)

/-- Usable ranges as the memory map has them. -/
structure Usable (page : Nat) (ranges : List AddrRange) : Prop where
  whole : ∀ range ∈ ranges, WholeFrames page range
  apart : ranges.Pairwise fun first second => first.stop < second.start

/-- All frames of the ranges. -/
def allFrames (page : Nat) (ranges : List AddrRange) : List Nat := ranges.flatMap (framesOf page)

variable {ranges : List AddrRange}

theorem mem_allFrames : frame ∈ allFrames page ranges ↔
    ∃ range ∈ ranges, frame ∈ framesOf page range := List.mem_flatMap

theorem Usable.tail (usable : Usable page (range :: ranges)) : Usable page ranges :=
  ⟨fun other member => usable.whole other (.tail _ member),
    (List.pairwise_cons.mp usable.apart).2⟩

/-- Frames of a later range are behind those of an earlier one. -/
theorem Usable.before (usable : Usable page (range :: ranges)) (positive : 0 < page) {other : Nat}
    (inside : frame ∈ framesOf page range) (later : other ∈ allFrames page ranges) :
    frame < other := by
  obtain ⟨second, member, held⟩ := mem_allFrames.mp later
  have first := (mem_framesOf positive (usable.whole range (.head _))).mp inside
  have last := (mem_framesOf positive
    (usable.whole second (.tail _ member))).mp held
  have gap := (List.pairwise_cons.mp usable.apart).1 second member
  omega

theorem Usable.sorted (usable : Usable page ranges) (positive : 0 < page) :
    (allFrames page ranges).Pairwise (· < ·) := by
  induction ranges with
  | nil => exact List.Pairwise.nil
  | cons range ranges ih =>
    exact List.pairwise_append.mpr ⟨framesOf_sorted positive range, ih usable.tail,
      fun frame inside other later => usable.before positive inside later⟩

theorem insertRanges_spec (positive : 0 < page) (usable : Usable page ranges)
    (list : FreeList page a []) : ∃ a' frames', ranges.reverse.foldlM
        (fun a range => insertDown page (rounds range.start range.stop page) range.stop a) a =
          .ok a' ∧ a'.pageBytes = a.pageBytes ∧ FreeList page a' frames' ∧
      frames'.Perm (allFrames page ranges) := by
  induction ranges with
  | nil => exact ⟨a, [], rfl, rfl, list, .refl _⟩
  | cons range ranges ih =>
    obtain ⟨b, middle, first, bytes, inserted, perm⟩ := ih usable.tail
    have whole := usable.whole range (.head _)
    have fresh : ∀ frame ∈ framesOf page range, frame ∉ middle := fun frame inside held =>
      Nat.lt_irrefl _ (usable.before positive inside (perm.mem_iff.mp held))
    obtain ⟨c, frames', last, same, done, order⟩ :=
      inserted.insertDown positive (whole.proper positive) fresh
    refine ⟨c, frames', ?_, same.trans bytes, done, order.trans (perm.append_left _)⟩
    rw [List.reverse_cons, List.foldlM_append, first, Result.ok_bind, List.foldlM_cons,
      whole.rounds_eq positive]
    rw [whole.length] at last
    rw [last, Result.ok_bind]
    rfl

/-- All frames of the ranges are free at first. -/
theorem initFromRanges_spec (a : FrameAllocator) (positive : 0 < page)
    (usable : Usable page ranges) :
    ∃ a', a.initFromRanges ranges page = .ok a' ∧ a'.pageBytes = page ∧
      FreeList page a' (allFrames page ranges) := by
  have empty : FreeList page ⟨none, page, 0, 0, a.links⟩ [] :=
    ⟨rfl, List.Pairwise.nil, rfl, nofun⟩
  obtain ⟨b, frames, run, bytes, list, perm⟩ := insertRanges_spec positive usable empty
  have same : frames = allFrames page ranges :=
    perm.eq_of_pairwise (fun first second _ _ less more => (Nat.lt_asymm less more).elim)
      list.sorted (usable.sorted positive)
  subst same
  refine ⟨{ b with totalFrames := b.freeFrames }, ?_, bytes, ?_⟩
  · rw [initFromRanges, run, Result.ok_bind]
  · exact { list with }

end Genrt.FrameAllocator
