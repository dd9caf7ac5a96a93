import Genrt.Foundation.Result
import Genrt.Memory.Map

/-!
# The memory map holds the safe frames

A page frame is safe if it lies in a single RAM range and meets no reserved range.
The passes over the input lists keep what the ranges cover, and the cutting loops
put exactly the safe frames into the output.
-/

namespace Genrt

/-- The whole frame lies in the range. -/
def AddrRange.HoldsFrame (range : AddrRange) (frame : Nat) : Prop :=
  range.start ≤ frame ∧ frame + pageSize ≤ range.stop

def IsFrame (frame : Nat) : Prop := frame % pageSize = 0

/-- The frame lies in one of the ranges. -/
def HoldsFrame (ranges : List AddrRange) (frame : Nat) : Prop :=
  ∃ range ∈ ranges, range.HoldsFrame frame

/-- No address of the frame is reserved. -/
def ClearOf (reserved : List PhysRange) (frame : Nat) : Prop :=
  ∀ range ∈ reserved, ∀ address, frame ≤ address → address < frame + pageSize →
    ¬ range.Contains address

/-- The frame lies in what a RAM range leaves after removing the reserved ranges. -/
def SafeIn (reserved : List PhysRange) (ram : PhysRange) (frame : Nat) : Prop :=
  ram.HoldsFrame frame ∧ ClearOf reserved frame

/-- Page-aligned ranges in order, newest first, with a gap between any two. -/
structure Tidy (out : List AddrRange) : Prop where
  aligned : ∀ range ∈ out, range.start % pageSize = 0 ∧ range.stop % pageSize = 0 ∧
    range.start < range.stop
  apart : out.Pairwise fun later earlier => earlier.stop < later.start

/-! ### Sorting -/

def StartsInOrder (ranges : List PhysRange) : Prop :=
  ranges.Pairwise fun first second => first.start ≤ second.start

variable {current range ram : PhysRange} {ranges reserved done rest : List PhysRange}
variable {out out' : List AddrRange} {frame start stop capacity cursor : Nat} {map map' : MemoryMap}

/-- The order of a list that is kept from the last range to the first. -/
def StartsBehind (later earlier : PhysRange) : Prop := earlier.start ≤ later.start

instance : DecidableRel StartsBehind :=
  fun later earlier => inferInstanceAs (Decidable (earlier.start ≤ later.start))

instance : IsTrans PhysRange StartsBehind := ⟨fun _ _ _ first second => Nat.le_trans second first⟩

instance : Std.Total StartsBehind := ⟨fun first second => Nat.le_total second.start first.start⟩

theorem sinkRange_eq (current : PhysRange) (sorted : List PhysRange) :
    sinkRange current sorted = sorted.orderedInsert StartsBehind current := by
  induction sorted with
  | nil => rfl
  | cons previous before ih =>
    rw [sinkRange, List.orderedInsert_cons, ih]
    by_cases behind : StartsBehind current previous
    · rw [if_neg (Nat.not_lt.mpr behind), if_pos behind]
    · rw [if_pos (Nat.not_le.mp behind), if_neg behind]

theorem sortRanges_eq (ranges : List PhysRange) :
    sortRanges ranges = (ranges.reverse.insertionSort StartsBehind).reverse := by
  simp only [sortRanges, sinkRange_eq, List.insertionSort, List.foldr_reverse]

theorem mem_sortRanges : range ∈ sortRanges ranges ↔ range ∈ ranges := by
  rw [sortRanges_eq, List.mem_reverse, List.mem_insertionSort, List.mem_reverse]

theorem sortRanges_sorted (ranges : List PhysRange) : StartsInOrder (sortRanges ranges) := by
  rw [StartsInOrder, sortRanges_eq, List.pairwise_reverse]
  exact List.pairwise_insertionSort StartsBehind _

/-! ### Merging -/

/-- Some range of the list contains the address. -/
def CoversAddress (ranges : List PhysRange) (address : Nat) : Prop :=
  ∃ range ∈ ranges, range.Contains address

theorem mergeRange_covers {out : List PhysRange}
    (order : ∀ last ∈ out.head?, last.start ≤ current.start) (address : Nat) :
    CoversAddress (mergeRange out current) address ↔
      CoversAddress out address ∨ current.Contains address := by
  unfold mergeRange CoversAddress
  cases out with
  | nil => simp
  | cons last before =>
    dsimp only
    split
    · next meets =>
      have start := order last rfl
      simp only [AddrRange.overlaps, Bool.or_eq_true, Bool.and_eq_true, decide_eq_true_eq,
        beq_iff_eq] at meets
      -- ranges that overlap or touch cover what their hull does
      have merged : AddrRange.Contains ⟨last.start, max last.stop current.stop⟩ address ↔
          last.Contains address ∨ current.Contains address := by
        simp only [AddrRange.Contains]
        omega
      simp only [List.mem_cons, exists_eq_or_imp, merged]
      exact or_right_comm
    · simp only [List.mem_cons, exists_eq_or_imp]
      exact or_comm

/-- Merging leaves out starts only. -/
theorem starts_mergeRange (out : List PhysRange) (current : PhysRange) :
    ((mergeRange out current).map AddrRange.start).Sublist
      ((current :: out).map AddrRange.start) := by
  unfold mergeRange
  cases out with
  | nil => exact .refl _
  | cons last before =>
    dsimp only
    split
    · exact List.sublist_cons_self _ _
    · exact .refl _

theorem foldl_mergeRange (ranges out : List PhysRange)
    (sorted : ((ranges.reverse ++ out).map AddrRange.start).Pairwise (· ≥ ·)) :
    (∀ address, CoversAddress (ranges.foldl mergeRange out) address ↔
      CoversAddress out address ∨ CoversAddress ranges address) ∧
    ((ranges.foldl mergeRange out).map AddrRange.start).Pairwise (· ≥ ·) := by
  induction ranges generalizing out with
  | nil => exact ⟨fun address => by simp [CoversAddress], sorted⟩
  | cons current rest ih =>
    rw [List.reverse_cons, List.append_assoc, List.singleton_append, List.map_append] at sorted
    have kept := sorted.sublist ((starts_mergeRange out current).append_left _)
    rw [← List.map_append] at kept
    obtain ⟨covers, kept⟩ := ih (mergeRange out current) kept
    have behind := (List.pairwise_cons.mp (List.pairwise_append.mp sorted).2.1).1
    have order : ∀ last ∈ out.head?, last.start ≤ current.start := fun last head =>
      behind _ (List.mem_map_of_mem (List.mem_of_mem_head? head))
    refine ⟨fun address => ?_, kept⟩
    rw [List.foldl_cons, covers, mergeRange_covers order]
    simp only [CoversAddress, List.mem_cons, exists_eq_or_imp]
    exact or_assoc

section

variable (order : StartsInOrder ranges)

include order

theorem foldl_mergeRange_nil :
    (∀ address, CoversAddress (ranges.foldl mergeRange []) address ↔ CoversAddress ranges address) ∧
    ((ranges.foldl mergeRange []).map AddrRange.start).Pairwise (· ≥ ·) := by
  have sorted : ((ranges.reverse ++ []).map AddrRange.start).Pairwise (· ≥ ·) := by
    rw [List.append_nil, List.pairwise_map, List.pairwise_reverse]
    exact order
  obtain ⟨covers, kept⟩ := foldl_mergeRange ranges [] sorted
  exact ⟨fun address => by rw [covers]; simp [CoversAddress], kept⟩

theorem mergeRanges_covers (address : Nat) :
    CoversAddress (mergeRanges ranges) address ↔ CoversAddress ranges address := by
  rw [← (foldl_mergeRange_nil order).1]
  simp only [CoversAddress, mergeRanges, List.mem_reverse]

theorem mergeRanges_sorted : StartsInOrder (mergeRanges ranges) := by
  rw [StartsInOrder, mergeRanges, List.pairwise_reverse]
  exact List.pairwise_map.mp (foldl_mergeRange_nil order).2

end

/-! ### Pushing a piece -/

theorem holdsFrame_cons {range : AddrRange} :
    HoldsFrame (range :: out) frame ↔ range.HoldsFrame frame ∨ HoldsFrame out frame := by
  simp only [HoldsFrame, List.mem_cons, exists_eq_or_imp]

theorem alignDown_le (value : Nat) : alignDown value pageSize ≤ value := by
  rw [alignDown_page]
  exact Nat.div_mul_le_self value pageSize

/-- What a successful push does to the list. -/
theorem pushUsableFrameRange_cases (run : pushUsableFrameRange capacity out range = .ok out') :
    ∃ aligned, alignUp range.start pageSize = some aligned ∧
      (alignDown range.stop pageSize ≤ aligned ∧ out' = out ∨
        aligned < alignDown range.stop pageSize ∧ ((∀ prev ∈ out.head?, prev.stop < aligned) ∧
              out' = ⟨aligned, alignDown range.stop pageSize⟩ :: out ∨
            ∃ prev before, out = prev :: before ∧ aligned ≤ prev.stop ∧
              out' = ⟨prev.start, max prev.stop (alignDown range.stop pageSize)⟩ :: before)) := by
  unfold pushUsableFrameRange at run
  generalize alignUp range.start pageSize = rounded at *
  generalize alignDown range.stop pageSize = bottom at *
  cases rounded with
  | none => cases run
  | some aligned =>
    refine ⟨aligned, rfl, ?_⟩
    dsimp only at run
    split at run
    · next empty =>
      cases run
      exact .inl ⟨empty, rfl⟩
    · next room =>
      refine .inr ⟨Nat.lt_of_not_le room, ?_⟩
      cases out with
      | nil =>
        dsimp only at run
        split at run
        · cases run
          exact .inl ⟨nofun, rfl⟩
        · cases run
      | cons prev before =>
        dsimp only at run
        split at run
        · next touches =>
          cases run
          exact .inr ⟨prev, before, rfl, touches, rfl⟩
        · next apart =>
          split at run
          · cases run
            refine .inl ⟨?_, rfl⟩
            rintro last ⟨⟩
            exact Nat.lt_of_not_le apart
          · cases run

theorem Tidy.cons {out : List AddrRange} {start stop : Nat} (tidy : Tidy out)
    (low : start % pageSize = 0) (high : stop % pageSize = 0) (room : start < stop)
    (gap : ∀ prev ∈ out.head?, prev.stop < start) : Tidy (⟨start, stop⟩ :: out) := by
  refine ⟨List.forall_mem_cons.mpr ⟨⟨low, high, room⟩, tidy.aligned⟩,
    List.pairwise_cons.mpr ⟨fun range member => ?_, tidy.apart⟩⟩
  cases out with
  | nil => cases member
  | cons prev before =>
    have near : prev.stop < start := gap prev rfl
    rcases List.mem_cons.mp member with rfl | member
    · exact near
    · have apart := (List.pairwise_cons.mp tidy.apart).1 range member
      have order := (tidy.aligned prev (.head _)).2.2
      dsimp only
      omega

theorem Tidy.extend {prev : AddrRange} {before : List AddrRange} (tidy : Tidy (prev :: before))
    (high : stop % pageSize = 0) : Tidy (⟨prev.start, max prev.stop stop⟩ :: before) := by
  obtain ⟨last, rest⟩ := List.forall_mem_cons.mp tidy.aligned
  refine ⟨List.forall_mem_cons.mpr ⟨⟨last.1, ?_, ?_⟩, rest⟩, ?_⟩
  · rcases Nat.le_total prev.stop stop with le | le
    · rwa [Nat.max_eq_right le]
    · rw [Nat.max_eq_left le]
      exact last.2.1
  · exact Nat.lt_of_lt_of_le last.2.2 (Nat.le_max_left _ _)
  · exact List.pairwise_cons.mpr (List.pairwise_cons.mp tidy.apart)

/-- What pushing a piece does, if frames of the piece in front of the last range are
there already and the piece ends before that range. -/
theorem pushUsableFrameRange_spec (tidy : Tidy out)
    (behind : ∀ prev ∈ out.head?, ∀ frame, IsFrame frame → start ≤ frame →
      frame + pageSize ≤ stop → frame < prev.start → stop ≤ prev.start ∧ HoldsFrame out frame)
    (run : pushUsableFrameRange capacity out ⟨start, stop⟩ = .ok out') : Tidy out' ∧
      (∀ frame, IsFrame frame → (HoldsFrame out' frame ↔
        HoldsFrame out frame ∨ start ≤ frame ∧ frame + pageSize ≤ stop)) ∧
      ∀ last ∈ out'.head?, (∃ prev ∈ out.head?, last.start = prev.start) ∨
        start ≤ last.start ∧ last.start < start + pageSize := by
  obtain ⟨aligned, rounded, cases⟩ := pushUsableFrameRange_cases run
  obtain ⟨page, least, next⟩ := alignUp_page rounded
  have inside : ∀ frame, IsFrame frame →
      (AddrRange.HoldsFrame ⟨aligned, alignDown stop pageSize⟩ frame ↔
        start ≤ frame ∧ frame + pageSize ≤ stop) := by
    intro frame isFrame
    simp only [alignDown_page, AddrRange.HoldsFrame]
    simp only [IsFrame, pageSize] at *
    omega
  have bottom : alignDown stop pageSize % pageSize = 0 := by
    rw [alignDown_page, Nat.mul_mod_left]
  rcases cases with ⟨empty, rfl⟩ | ⟨room, ⟨gap, rfl⟩ | ⟨prev, before, rfl, touches, rfl⟩⟩
  · refine ⟨tidy, fun frame isFrame => ?_, fun last member => .inl ⟨last, member, rfl⟩⟩
    refine ⟨.inl, fun held => held.resolve_right fun piece => ?_⟩
    obtain ⟨low, high⟩ := (inside frame isFrame).mpr piece
    have : 0 < pageSize := by decide
    dsimp only at low high empty
    omega
  · refine ⟨tidy.cons page bottom room gap, fun frame isFrame => ?_, ?_⟩
    · rw [holdsFrame_cons, inside frame isFrame]
      exact or_comm
    · rintro last ⟨⟩
      exact .inr ⟨least, next⟩
  · refine ⟨tidy.extend bottom, fun frame isFrame => ?_, ?_⟩
    · rw [holdsFrame_cons, holdsFrame_cons, ← inside frame isFrame]
      by_cases order : prev.start ≤ aligned
      · have ends := (tidy.aligned prev (.head _)).2.1
        rw [or_right_comm]
        refine or_congr_left ?_
        simp only [AddrRange.HoldsFrame, IsFrame, pageSize] at *
        omega
      · have whole : aligned + pageSize ≤ stop := by
          rw [alignDown_page] at room
          dsimp only at room
          unfold pageSize at *
          omega
        obtain ⟨ends, _⟩ := behind prev rfl aligned page least whole (Nat.lt_of_not_le order)
        have order := (tidy.aligned prev (.head _)).2.2
        have lower := alignDown_le stop
        rw [Nat.max_eq_left (by dsimp only; omega)]
        refine ⟨.inl, fun held => held.elim id fun piece => ?_⟩
        obtain ⟨low, high⟩ := (inside frame isFrame).mp piece
        have positive : 0 < pageSize := by decide
        exact holdsFrame_cons.mp (behind prev rfl frame isFrame low high (by omega)).2
    · rintro last ⟨⟩
      exact .inl ⟨prev, rfl, rfl⟩

/-! ### Cutting the reserved ranges out of the RAM ranges -/

/-- A piece of the RAM range can start here: at its own start, or behind a reserved range. -/
def OpensAt (reserved : List PhysRange) (ram : PhysRange) (point : Nat) : Prop :=
  point = ram.start ∨
    ∃ range ∈ reserved, range.start < range.stop ∧ range.stop = point ∧
      range.start < max ram.start ram.stop

/-- The output holds the safe frames of these RAM ranges, and its last range starts
where a piece of one of them does. A RAM range that is only cut up to the cursor counts
as one that ends there. -/
structure Built (reserved rams : List PhysRange) (out : List AddrRange) : Prop where
  tidy : Tidy out
  frames : ∀ frame, IsFrame frame →
    (HoldsFrame out frame ↔ ∃ ram ∈ rams, SafeIn reserved ram frame)
  anchored : ∀ prev ∈ out.head?, ∃ ram ∈ rams, ∃ point, OpensAt reserved ram point ∧
    point ≤ prev.start ∧ prev.start < point + pageSize

/-- No address from the first on and before the second is reserved. -/
def GapBetween (reserved : List PhysRange) (start stop : Nat) : Prop :=
  ∀ range ∈ reserved, ∀ address, start ≤ address → address < stop → ¬ range.Contains address

theorem OpensAt.mono {reach reach' point : Nat} (opens : OpensAt reserved ⟨start, reach⟩ point)
    (further : reach ≤ reach') : OpensAt reserved ⟨start, reach'⟩ point := by
  rcases opens with rfl | ⟨range, member, order, ends, begins⟩
  · exact .inl rfl
  · refine .inr ⟨range, member, order, ends, ?_⟩
    dsimp only at begins ⊢
    omega

theorem GapBetween.clearOf (gap : GapBetween reserved start stop) (low : start ≤ frame)
    (high : frame + pageSize ≤ stop) : ClearOf reserved frame :=
  fun range member address above below =>
    gap range member address (Nat.le_trans low above) (Nat.lt_of_lt_of_le below high)

/-- A safe frame does not reach over a point where a piece opens. -/
theorem safeIn_opened (low : start ≤ cursor) (further : cursor ≤ stop)
    (opens : OpensAt reserved ⟨start, cursor⟩ cursor) (gap : GapBetween reserved cursor stop) :
    SafeIn reserved ⟨start, stop⟩ frame ↔
      SafeIn reserved ⟨start, cursor⟩ frame ∨ cursor ≤ frame ∧ frame + pageSize ≤ stop := by
  constructor
  · rintro ⟨⟨above, below⟩, clear⟩
    by_cases passed : frame + pageSize ≤ cursor
    · exact .inl ⟨⟨above, passed⟩, clear⟩
    · refine .inr ⟨?_, below⟩
      by_contra under
      rcases opens with rfl | ⟨range, member, order, ends, -⟩
      · exact under above
      · exact clear range member (cursor - 1) (by omega) (by omega) ⟨by omega, by omega⟩
  · rintro (⟨⟨above, below⟩, clear⟩ | ⟨above, below⟩)
    · exact ⟨⟨above, Nat.le_trans below further⟩, clear⟩
    · exact ⟨⟨Nat.le_trans low above, below⟩, gap.clearOf above below⟩

section

variable (built : Built reserved (⟨start, cursor⟩ :: done) out)
variable (order : ∀ ram ∈ done, ram.start ≤ start) (low : start ≤ cursor)

include built order low

/-- A frame of the next piece in front of the last range has been cut out of an earlier RAM
range: the last range opens behind a reserved range, which that frame cannot reach over. -/
theorem Built.behind (gap : GapBetween reserved cursor stop) :
    ∀ prev ∈ out.head?, ∀ frame, IsFrame frame → cursor ≤ frame →
      frame + pageSize ≤ stop → frame < prev.start → stop ≤ prev.start ∧ HoldsFrame out frame := by
  intro prev head frame isFrame above below front
  have positive : 0 < pageSize := by decide
  obtain ⟨ram, member, point, opens, least, near⟩ := built.anchored prev head
  have page := (built.tidy.aligned prev (List.mem_of_mem_head? head)).1
  have before : frame < point := by
    simp only [IsFrame, pageSize] at *
    omega
  have started : ram.start ≤ start := by
    rcases List.mem_cons.mp member with rfl | member
    · exact Nat.le_refl _
    · exact order ram member
  rcases opens with rfl | ⟨range, reservedRange, some, rfl, begins⟩
  · omega
  have ends : stop ≤ range.start := by
    by_contra inside
    refine gap range reservedRange (max cursor range.start) (Nat.le_max_left _ _) ?_ ?_
    · omega
    · exact ⟨Nat.le_max_right _ _, by omega⟩
  refine ⟨by omega, (built.frames frame isFrame).mpr ⟨ram, ?_, ⟨by omega, by omega⟩,
    gap.clearOf above below⟩⟩
  exact member

/-- Push a piece without reserved addresses. -/
theorem Built.push (further : cursor ≤ stop) (opens : OpensAt reserved ⟨start, cursor⟩ cursor)
    (gap : GapBetween reserved cursor stop)
    (run : pushUsableFrameRange capacity out ⟨cursor, stop⟩ = .ok out') :
    Built reserved (⟨start, stop⟩ :: done) out' := by
  obtain ⟨tidy, frames, head⟩ :=
    pushUsableFrameRange_spec built.tidy (built.behind order low gap) run
  refine ⟨tidy, fun frame isFrame => ?_, fun last member => ?_⟩
  · rw [frames frame isFrame, built.frames frame isFrame]
    simp only [List.mem_cons, exists_eq_or_imp, safeIn_opened low further opens gap]
    exact or_right_comm
  · rcases head last member with ⟨prev, first, same⟩ | ⟨least, near⟩
    · obtain ⟨ram, cut, point, opened, least, near⟩ := built.anchored prev first
      rw [← same] at least near
      rcases List.mem_cons.mp cut with rfl | cut
      · exact ⟨_, .head _, point, opened.mono further, least, near⟩
      · exact ⟨ram, .tail _ cut, point, opened, least, near⟩
    · exact ⟨_, .head _, cursor, opens.mono further, least, near⟩

end

/-- The last RAM range gives way to one with the same safe frames. -/
theorem Built.replace {cut : PhysRange} (built : Built reserved (cut :: done) out)
    (same : ∀ frame, SafeIn reserved ram frame ↔ SafeIn reserved cut frame)
    (opens : ∀ point, OpensAt reserved cut point → OpensAt reserved ram point) :
    Built reserved (ram :: done) out := by
  refine ⟨built.tidy, fun frame isFrame => ?_, fun last head => ?_⟩
  · rw [built.frames frame isFrame]
    simp only [List.mem_cons, exists_eq_or_imp, same]
  · obtain ⟨found, member, point, opened, near⟩ := built.anchored last head
    rcases List.mem_cons.mp member with rfl | member
    · exact ⟨ram, .head _, point, opens point opened, near⟩
    · exact ⟨found, .tail _ member, point, opened, near⟩

/-- Move the cursor over reserved addresses. -/
theorem Built.skip {reach reach' : Nat} (built : Built reserved (⟨start, reach⟩ :: done) out)
    (further : reach ≤ reach')
    (covered : ∀ address, reach ≤ address → address < reach' → CoversAddress reserved address) :
    Built reserved (⟨start, reach'⟩ :: done) out := by
  refine built.replace (fun frame => ?_) fun point opened => opened.mono further
  refine ⟨fun ⟨⟨low, high⟩, clear⟩ => ⟨⟨low, ?_⟩, clear⟩,
    fun ⟨⟨low, high⟩, clear⟩ => ⟨⟨low, Nat.le_trans high further⟩, clear⟩⟩
  by_contra passed
  have positive : 0 < pageSize := by decide
  dsimp only at high passed
  obtain ⟨range, member, contains⟩ := covered (frame + pageSize - 1) (by omega) (by omega)
  exact clear range member _ (by omega) (by omega) contains

/-- A RAM range is cut if the cursor has reached its end. It may have no addresses. -/
theorem Built.finish (built : Built reserved (⟨ram.start, max ram.start ram.stop⟩ :: done) out) :
    Built reserved (ram :: done) out := by
  have positive : 0 < pageSize := by decide
  refine built.replace (fun frame => and_congr_left fun _ => ?_) fun point opened => ?_
  · simp only [AddrRange.HoldsFrame]
    omega
  · simpa only [OpensAt, Nat.max_eq_right (Nat.le_max_left _ _)] using opened

/-! ### The loops -/

variable {capacity : MapCapacity}

namespace MemoryMap

theorem usableRanges_pushRegion {region : PhysRegion}
    (run : map.pushRegion capacity region = .ok map') : map'.usableRanges = map.usableRanges := by
  obtain ⟨regions, -, stored⟩ := Result.bind_eq_ok.mp run
  cases stored
  rfl

theorem usableRanges_pushUsable (run : map.pushUsable capacity range = .ok map') :
    pushUsableFrameRange capacity.usableRanges map.usableRanges range = .ok map'.usableRanges := by
  obtain ⟨middle, pushed, run⟩ := Result.bind_eq_ok.mp run
  obtain ⟨ranges, usable, stored⟩ := Result.bind_eq_ok.mp run
  cases stored
  rw [← usableRanges_pushRegion pushed]
  exact usable

end MemoryMap

/-- The state of the loop over the reserved ranges. -/
structure Cutting (reserved done : List PhysRange) (ram : PhysRange) (cursor : Nat)
    (out : List AddrRange) : Prop where
  built : Built reserved (⟨ram.start, cursor⟩ :: done) out
  low : ram.start ≤ cursor
  high : cursor ≤ max ram.start ram.stop
  opens : cursor < ram.stop → OpensAt reserved ⟨ram.start, cursor⟩ cursor

/-- A reserved range is ahead of the cursor, or the cursor is behind it. -/
def Passed (ram : PhysRange) (rest : List PhysRange) (cursor : Nat) (range : PhysRange) : Prop :=
  range ∈ rest ∨ ∀ address, range.Contains address → ram.Contains address → address < cursor

theorem Passed.skip (passed : Passed ram (current :: rest) cursor range)
    (outside : ∀ address, current.Contains address → ram.Contains address → address < cursor) :
    Passed ram rest cursor range := by
  rcases passed with member | behind
  · rcases List.mem_cons.mp member with rfl | member
    · exact .inr outside
    · exact .inl member
  · exact .inr behind

theorem Passed.mono {cursor' : Nat} (passed : Passed ram rest cursor range)
    (further : cursor ≤ cursor') : Passed ram rest cursor' range :=
  passed.imp id fun behind address inside inRam =>
    Nat.lt_of_lt_of_le (behind address inside inRam) further

/-- Nothing is reserved between the cursor and the next reserved range. -/
theorem gapBetween_of_passed (low : ram.start ≤ cursor) (inRam : stop ≤ ram.stop)
    (passed : ∀ range ∈ reserved, Passed ram rest cursor range)
    (later : ∀ range ∈ rest, stop ≤ range.start) : GapBetween reserved cursor stop := by
  rintro range member address above below ⟨begins, ends⟩
  rcases passed range member with ahead | behind
  · have := later range ahead
    omega
  · have := behind address ⟨begins, ends⟩ ⟨Nat.le_trans low above, Nat.lt_of_lt_of_le below inRam⟩
    omega

theorem AddrRange.clippedTo_some {range outer clipped : AddrRange}
    (clips : range.clippedTo outer = some clipped) :
    clipped = ⟨max range.start outer.start, min range.stop outer.stop⟩ ∧
      max range.start outer.start < min range.stop outer.stop := by
  unfold AddrRange.clippedTo at clips
  dsimp only at clips
  split at clips
  · cases clips
  · next room =>
    cases clips
    exact ⟨rfl, Nat.lt_of_not_le room⟩

theorem AddrRange.clippedTo_none {range outer : AddrRange} {address : Nat}
    (clips : range.clippedTo outer = none) (inside : range.Contains address)
    (inOuter : outer.Contains address) : False := by
  unfold AddrRange.clippedTo at clips
  dsimp only at clips
  split at clips
  · next empty =>
    obtain ⟨low, high⟩ := inside
    obtain ⟨low', high'⟩ := inOuter
    omega
  · cases clips

/-- Push the piece before a reserved range, then move behind that range. -/
theorem Cutting.advance (cutting : Cutting reserved done ram cursor map.usableRanges)
    (order : ∀ ram' ∈ done, ram'.start ≤ ram.start) (member : range ∈ reserved)
    (meets : max range.start ram.start < min range.stop ram.stop)
    (gap : cursor < max range.start ram.start →
      GapBetween reserved cursor (max range.start ram.start))
    (run : map.pushGap capacity cursor (max range.start ram.start) = .ok map') :
    Cutting reserved done ram (max cursor (min range.stop ram.stop)) map'.usableRanges := by
  have low := cutting.low
  have high := cutting.high
  have covered : ∀ address, max range.start ram.start ≤ address →
      address < min range.stop ram.stop → CoversAddress reserved address :=
    fun address above below => ⟨range, member, by omega, by omega⟩
  have built : Built reserved (⟨ram.start, max cursor (min range.stop ram.stop)⟩ :: done)
      map'.usableRanges := by
    unfold MemoryMap.pushGap at run
    split at run
    · next room =>
      have opens := cutting.opens (by omega)
      have pushed := cutting.built.push order low (Nat.le_of_lt room) opens (gap room)
        (MemoryMap.usableRanges_pushUsable run)
      exact pushed.skip (by omega) fun address above below => covered address above (by omega)
    · next touching =>
      cases run
      refine cutting.built.skip (Nat.le_max_left _ _) fun address above below => ?_
      exact covered address (by omega) (by omega)
  refine ⟨built, by omega, by omega, fun inside => ?_⟩
  by_cases moved : cursor < min range.stop ram.stop
  · exact .inr ⟨range, member, by omega, by omega, by dsimp only; omega⟩
  · rw [Nat.max_eq_left (Nat.le_of_not_lt moved)] at inside ⊢
    exact cutting.opens inside

/-- The loop over the reserved ranges stops where the rest of the RAM range is free. -/
theorem Cutting.cutReserved {last : Nat}
    (cutting : Cutting reserved done ram cursor map.usableRanges)
    (order : ∀ ram' ∈ done, ram'.start ≤ ram.start) (sorted : StartsInOrder rest)
    (known : ∀ range ∈ rest, range ∈ reserved)
    (passed : ∀ range ∈ reserved, Passed ram rest cursor range)
    (run : map.cutReserved capacity ram rest cursor = .ok (last, map')) :
    Cutting reserved done ram last map'.usableRanges ∧ GapBetween reserved last ram.stop := by
  induction rest generalizing cursor map with
  | nil =>
    cases run
    exact ⟨cutting, gapBetween_of_passed cutting.low (Nat.le_refl _) passed nofun⟩
  | cons current rest ih =>
    obtain ⟨first, sorted'⟩ := List.pairwise_cons.mp sorted
    have known' : ∀ range ∈ rest, range ∈ reserved :=
      fun range member => known range (.tail _ member)
    have later : ∀ range ∈ current :: rest, current.start ≤ range.start :=
      List.forall_mem_cons.mpr ⟨Nat.le_refl _, first⟩
    have low := cutting.low
    rw [MemoryMap.cutReserved] at run
    split at run
    · next before =>
      refine ih cutting sorted' known' (fun range member => (passed range member).skip ?_) run
      rintro address ⟨-, ends⟩ ⟨begins, -⟩
      omega
    split at run
    · next behind =>
      cases run
      exact ⟨cutting, gapBetween_of_passed low (Nat.le_refl _) passed
        fun range member => Nat.le_trans behind (later range member)⟩
    split at run
    · next clips =>
      refine ih cutting sorted' known' (fun range member => (passed range member).skip ?_) run
      exact fun address inside inRam => (AddrRange.clippedTo_none clips inside inRam).elim
    · next clipped clips =>
      obtain ⟨rfl, meets⟩ := AddrRange.clippedTo_some clips
      obtain ⟨pushed, gapRun, run⟩ := Result.bind_eq_ok.mp run
      obtain ⟨stored, regionRun, run⟩ := Result.bind_eq_ok.mp run
      have gap : cursor < max current.start ram.start →
          GapBetween reserved cursor (max current.start ram.start) := by
        intro room
        refine gapBetween_of_passed low (by omega) passed fun range member => ?_
        have := later range member
        omega
      have advanced := cutting.advance order (known current (.head _)) meets gap gapRun
      rw [← MemoryMap.usableRanges_pushRegion regionRun] at advanced
      refine ih advanced sorted' known' (fun range member => ?_) run
      refine ((passed range member).mono (Nat.le_max_left _ _)).skip ?_
      rintro address ⟨-, ends⟩ ⟨-, inRam⟩
      omega

/-- All of a RAM range is cut. -/
theorem Built.addRam (built : Built reserved done map.usableRanges)
    (order : ∀ ram' ∈ done, ram'.start ≤ ram.start) (sorted : StartsInOrder reserved)
    (run : map.addRam capacity reserved ram = .ok map') :
    Built reserved (ram :: done) map'.usableRanges := by
  obtain ⟨⟨cursor, middle⟩, cut, run⟩ := Result.bind_eq_ok.mp run
  have started : Built reserved (⟨ram.start, ram.start⟩ :: done) map.usableRanges := by
    refine ⟨built.tidy, fun frame isFrame => ?_, fun prev head => ?_⟩
    · rw [built.frames frame isFrame]
      simp only [List.mem_cons, exists_eq_or_imp]
      refine ⟨.inr, fun safe => safe.resolve_left fun ⟨⟨low, high⟩, _⟩ => ?_⟩
      have positive : 0 < pageSize := by decide
      dsimp only at low high
      omega
    · obtain ⟨ram', member, opened⟩ := built.anchored prev head
      exact ⟨ram', .tail _ member, opened⟩
  have cutting : Cutting reserved done ram ram.start map.usableRanges :=
    ⟨started, Nat.le_refl _, Nat.le_max_left _ _, fun _ => .inl rfl⟩
  obtain ⟨cutting, gap⟩ := cutting.cutReserved order sorted (fun _ member => member)
    (fun range member => .inl member) cut
  have low := cutting.low
  have high := cutting.high
  unfold MemoryMap.pushGap at run
  dsimp only at run
  split at run
  · next room =>
    exact cutting.built.push order low (Nat.le_of_lt room) (cutting.opens room) gap
      (MemoryMap.usableRanges_pushUsable run)
  · next finished =>
    cases run
    have reached : cursor = max ram.start ram.stop := by omega
    have built := cutting.built
    rw [reached] at built
    exact built.finish

theorem Built.foldlM_addRam {rams : List PhysRange} (built : Built reserved done map.usableRanges)
    (order : ∀ ram' ∈ done, ∀ ram ∈ rams, ram'.start ≤ ram.start) (inOrder : StartsInOrder rams)
    (sorted : StartsInOrder reserved)
    (run : rams.foldlM (MemoryMap.addRam capacity reserved) map = .ok map') :
    Built reserved (rams.reverse ++ done) map'.usableRanges := by
  induction rams generalizing done map with
  | nil =>
    cases run
    exact built
  | cons ram rest ih =>
    obtain ⟨first, inOrder⟩ := List.pairwise_cons.mp inOrder
    obtain ⟨next, added, run⟩ := Result.bind_eq_ok.mp run
    have built := built.addRam (fun ram' member => order ram' member ram (.head _))
      sorted added
    rw [List.reverse_cons, List.append_assoc]
    refine ih built (fun ram' member ram'' later => ?_) inOrder run
    rcases List.mem_cons.mp member with rfl | member
    · exact first ram'' later
    · exact order ram' member ram'' (.tail _ later)

/-! ### Errors -/

namespace MemoryMap

/-- The usable piece up to a bound, if there is one. -/
def gap (cursor stop : Nat) : List PhysRegion :=
  if cursor < stop then [⟨⟨cursor, stop⟩, .usable⟩] else []

/-- What the loop over the reserved ranges pushes for a RAM range, whatever the slices hold. -/
def pieces (ram : PhysRange) : List PhysRange → Nat → List PhysRegion
  | [], cursor => gap cursor ram.stop
  | reserved :: rest, cursor =>
    if reserved.stop ≤ ram.start then pieces ram rest cursor
    else if ram.stop ≤ reserved.start then gap cursor ram.stop
    else
      match reserved.clippedTo ram with
      | none => pieces ram rest cursor
      | some clipped => gap cursor clipped.start ++ ⟨clipped, .reserved⟩ ::
          pieces ram rest (max cursor clipped.stop)

def pushPiece (capacity : MapCapacity) (map : MemoryMap) (piece : PhysRegion) :
    Except MemoryError MemoryMap :=
  if piece.kind = .usable then map.pushUsable capacity piece.range
  else map.pushRegion capacity piece

/-- Pushing stops at a piece. -/
def StopsAt (capacity : MapCapacity) (all : List PhysRegion) (map : MemoryMap)
    (piece : PhysRegion) : Prop :=
  ∃ before after, all = before ++ piece :: after ∧
    before.foldlM (pushPiece capacity) ⟨[], []⟩ = .ok map

/-- A slice is full, or the start of the piece has no page above it. -/
def NoRoom (capacity : MapCapacity) (map : MemoryMap) (piece : PhysRegion) (error : MemoryError) :
    Prop :=
  error = .tooManyRanges ∧ (capacity.physRegions ≤ map.physRegions.length ∨
      capacity.usableRanges ≤ map.usableRanges.length) ∨
    error = .addressOutOfRange ∧ alignUp piece.range.start pageSize = none

variable {capacity : MapCapacity} {map : MemoryMap} {error : MemoryError}

theorem foldlM_gap (cursor stop : Nat) :
    (gap cursor stop).foldlM (pushPiece capacity) map = map.pushGap capacity cursor stop := by
  unfold gap pushGap
  split
  · rw [List.foldlM_cons, pushPiece, if_pos rfl]
    exact bind_pure _
  · rfl

theorem addRam_eq (map : MemoryMap) (ram : PhysRange) : map.addRam capacity reserved ram =
    (pieces ram reserved ram.start).foldlM (pushPiece capacity) map := by
  have loop : ∀ cursor map, (cutReserved capacity ram reserved cursor map >>= fun result =>
      result.2.pushGap capacity result.1 ram.stop) =
        (pieces ram reserved cursor).foldlM (pushPiece capacity) map := by
    induction reserved with
    | nil => exact fun cursor map => (foldlM_gap cursor ram.stop).symm
    | cons current rest ih =>
      intro cursor map
      rw [cutReserved, pieces]
      split
      · exact ih cursor map
      split
      · exact (foldlM_gap cursor ram.stop).symm
      cases current.clippedTo ram with
      | none => exact ih cursor map
      | some clipped =>
        dsimp only
        rw [List.foldlM_append, foldlM_gap, bind_assoc]
        refine bind_congr fun middle => ?_
        rw [bind_assoc, List.foldlM_cons]
        exact bind_congr fun stored => ih _ stored
  exact loop ram.start map

theorem foldlM_addRam (rams : List PhysRange) (map : MemoryMap) :
    rams.foldlM (addRam capacity reserved) map =
      (rams.flatMap fun ram => pieces ram reserved ram.start).foldlM (pushPiece capacity) map := by
  induction rams generalizing map with
  | nil => rfl
  | cons ram rest ih =>
    rw [List.foldlM_cons, List.flatMap_cons, List.foldlM_append, addRam_eq]
    exact bind_congr ih

theorem pushRegion_error {region : PhysRegion}
    (run : map.pushRegion capacity region = .error error) :
    error = .tooManyRanges ∧ capacity.physRegions ≤ map.physRegions.length := by
  rcases Result.bind_eq_error.mp run with failed | ⟨regions, -, stored⟩
  · revert failed
    generalize map.physRegions = out
    fun_cases pushPhysRegion capacity.physRegions out region
    all_goals intro failed; cases failed
    · next full => exact ⟨rfl, Nat.le_of_not_lt full⟩
    · next full => exact ⟨rfl, Nat.le_of_not_lt full⟩
  · cases stored

theorem pushUsableFrameRange_error {capacity : Nat} {out : List AddrRange} {range : PhysRange}
    (run : pushUsableFrameRange capacity out range = .error error) :
    error = .tooManyRanges ∧ capacity ≤ out.length ∨
      error = .addressOutOfRange ∧ alignUp range.start pageSize = none := by
  unfold pushUsableFrameRange at run
  generalize alignUp range.start pageSize = rounded at *
  cases rounded with
  | none =>
    cases run
    exact .inr ⟨rfl, rfl⟩
  | some start =>
    dsimp only at run
    split at run
    · cases run
    cases out with
    | nil =>
      dsimp only at run
      split at run <;> cases run
      next full => exact .inl ⟨rfl, Nat.le_of_not_lt full⟩
    | cons prev before =>
      dsimp only at run
      split at run
      · cases run
      split at run <;> cases run
      next full => exact .inl ⟨rfl, Nat.le_of_not_lt full⟩

theorem pushPiece_error {piece : PhysRegion} (run : map.pushPiece capacity piece = .error error) :
    NoRoom capacity map piece error := by
  unfold pushPiece at run
  split at run
  · rcases Result.bind_eq_error.mp run with failed | ⟨middle, pushed, run⟩
    · obtain ⟨kind, full⟩ := pushRegion_error failed
      exact .inl ⟨kind, .inl full⟩
    rcases Result.bind_eq_error.mp run with failed | ⟨ranges, -, stored⟩
    · rw [usableRanges_pushRegion pushed] at failed
      exact (pushUsableFrameRange_error failed).imp_left fun full => ⟨full.1, .inr full.2⟩
    · cases stored
  · obtain ⟨kind, full⟩ := pushRegion_error run
    exact .inl ⟨kind, .inl full⟩

end MemoryMap

/-! ### The map of boot -/

theorem clearOf_iff : ClearOf reserved frame ↔
      ∀ address, frame ≤ address → address < frame + pageSize →
        ¬ CoversAddress reserved address := by
  constructor
  · rintro clear address low high ⟨range, member, contains⟩
    exact clear range member address low high contains
  · exact fun clear range member address low high contains =>
      clear address low high ⟨range, member, contains⟩

/-- Sorting and merging do not change which frames are safe. -/
theorem safeIn_merged :
    SafeIn (mergeRanges (sortRanges reserved)) ram frame ↔ SafeIn reserved ram frame := by
  have covers : ∀ address, CoversAddress (mergeRanges (sortRanges reserved)) address ↔
      CoversAddress reserved address := by
    intro address
    rw [mergeRanges_covers (sortRanges_sorted reserved)]
    simp only [CoversAddress, mem_sortRanges]
  simp only [SafeIn, clearOf_iff, covers]

/-- Both passes over the collected ranges, for any lists of them. -/
theorem bootMemoryMap_built {rams : List PhysRange}
    (run : (sortRanges rams).foldlM (MemoryMap.addRam capacity (mergeRanges (sortRanges reserved)))
      ⟨[], []⟩ = .ok map) : Tidy map.usableRanges ∧ ∀ frame, IsFrame frame →
      (HoldsFrame map.usableRanges frame ↔ ∃ ram ∈ rams, SafeIn reserved ram frame) := by
  have empty : Built (mergeRanges (sortRanges reserved)) [] (MemoryMap.mk [] []).usableRanges :=
    ⟨⟨nofun, List.Pairwise.nil⟩, fun frame _ => by simp [HoldsFrame], nofun⟩
  have built := empty.foldlM_addRam nofun (sortRanges_sorted rams)
    (mergeRanges_sorted (sortRanges_sorted reserved)) run
  refine ⟨built.tidy, fun frame isFrame => ?_⟩
  rw [built.frames frame isFrame]
  simp only [List.append_nil, List.mem_reverse, mem_sortRanges, safeIn_merged]

/-- The pieces into which boot cuts the RAM ranges, in the order in which it pushes them. -/
def bootPieces (rams reserved : List PhysRange) : List PhysRegion :=
  (sortRanges rams).flatMap fun ram =>
    MemoryMap.pieces ram (mergeRanges (sortRanges reserved)) ram.start

/-- For any RAM and reserved ranges the map that boot computes has page-aligned usable
ranges in order and with gaps between them, and they hold exactly the safe frames. It
fails only if there is no safe frame, or at a piece of a RAM range for which an output slice
has no room left or whose start cannot be rounded up. -/
theorem memory_map_exact (capacity : MapCapacity) (rams reserved : List PhysRange) :
    match bootMemoryMap capacity rams reserved with
    | .ok map =>
      (∀ range ∈ map.usable, range.start % pageSize = 0 ∧ range.stop % pageSize = 0 ∧
        range.start < range.stop) ∧
      (map.usable.Pairwise fun first second => first.stop < second.start) ∧
      ∀ frame, IsFrame frame →
        (HoldsFrame map.usable frame ↔ ∃ ram ∈ rams, SafeIn reserved ram frame)
    | .error error =>
      error = .noUsableRam ∧
          (∀ frame, IsFrame frame → ¬ ∃ ram ∈ rams, SafeIn reserved ram frame) ∨
        ∃ map piece, MemoryMap.StopsAt capacity (bootPieces rams reserved) map piece ∧
          MemoryMap.NoRoom capacity map piece error := by
  unfold bootMemoryMap MemoryMap.build
  cases run : (sortRanges rams).foldlM
      (MemoryMap.addRam capacity (mergeRanges (sortRanges reserved))) ⟨[], []⟩ with
  | error error =>
    rw [MemoryMap.foldlM_addRam] at run
    obtain ⟨before, piece, after, map, split, done, failed⟩ := Result.foldlM_error run
    exact .inr ⟨map, piece, ⟨before, after, split, done⟩, MemoryMap.pushPiece_error failed⟩
  | ok map =>
    obtain ⟨tidy, frames⟩ := bootMemoryMap_built run
    dsimp only [bind, Except.bind]
    by_cases empty : map.usableRanges = []
    · rw [if_pos empty]
      refine .inl ⟨rfl, fun frame isFrame safe => ?_⟩
      obtain ⟨range, member, -⟩ := (frames frame isFrame).mpr safe
      rw [empty] at member
      cases member
    · rw [if_neg empty]
      refine ⟨fun range member => tidy.aligned range (List.mem_reverse.mp member), ?_, ?_⟩
      · exact List.pairwise_reverse.mpr tidy.apart
      · intro frame isFrame
        rw [← frames frame isFrame]
        simp only [HoldsFrame, MemoryMap.usable, List.mem_reverse]

/-- Overlapping RAM ranges out of order, the second of which starts in front of the last
piece of the first. -/
theorem memory_map_exact_overlapping : ∃ map,
    bootMemoryMap ⟨8, 8⟩ [⟨0x1800, 0x9000⟩, ⟨0x1000, 0x8000⟩] [⟨0x4000, 0x4010⟩] = .ok map ∧
    map.usable = [⟨0x1000, 0x4000⟩, ⟨0x5000, 0x9000⟩] ∧ ∀ frame, IsFrame frame →
      (HoldsFrame map.usable frame ↔ ∃ ram ∈ [⟨0x1800, 0x9000⟩, ⟨0x1000, 0x8000⟩],
        SafeIn [⟨0x4000, 0x4010⟩] ram frame) := by
  have exact := memory_map_exact ⟨8, 8⟩ [⟨0x1800, 0x9000⟩, ⟨0x1000, 0x8000⟩] [⟨0x4000, 0x4010⟩]
  obtain ⟨map, run, usable⟩ : ∃ map, bootMemoryMap ⟨8, 8⟩ [⟨0x1800, 0x9000⟩, ⟨0x1000, 0x8000⟩]
      [⟨0x4000, 0x4010⟩] = .ok map ∧ map.usable = [⟨0x1000, 0x4000⟩, ⟨0x5000, 0x9000⟩] :=
    ⟨_, rfl, rfl⟩
  rw [run] at exact
  exact ⟨map, run, usable, exact.2.2⟩

end Genrt
