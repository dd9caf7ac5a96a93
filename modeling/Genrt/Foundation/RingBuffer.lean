import Mathlib

/-!
# Ring buffers

A ring is a fixed array with the index of its oldest item, the index of the next
free cell and the number of items. Its contents are read from the head on, and
wrap around at the end of the array. Pushing writes the free cell and popping
moves the head, so neither touches the other items.
-/

structure RingBuffer (α : Type) where
  cells : List α
  head : Nat
  tail : Nat
  len : Nat

namespace RingBuffer

variable {α : Type}

def capacity (r : RingBuffer α) : Nat := r.cells.length

/-- An empty ring. -/
def new (capacity : Nat) (blank : α) : RingBuffer α := ⟨List.replicate capacity blank, 0, 0, 0⟩

def isEmpty (r : RingBuffer α) : Bool := decide (r.len = 0)

def isFull (r : RingBuffer α) : Bool := decide (r.len = r.capacity)

def push (r : RingBuffer α) (item : α) : RingBuffer α :=
  { r with
    cells := r.cells.set r.tail item
    tail := (r.tail + 1) % r.capacity
    len := r.len + 1 }

def front? (r : RingBuffer α) : Option α := r.cells[r.head]?

def pop (r : RingBuffer α) : RingBuffer α :=
  { r with head := (r.head + 1) % r.capacity, len := r.len - 1 }

/-- Overwrite the cell of the oldest item. -/
def blankFront (r : RingBuffer α) (blank : α) : RingBuffer α :=
  { r with cells := r.cells.set r.head blank }

/-- Push items one after the other. -/
def pushAll (r : RingBuffer α) (items : List α) : RingBuffer α := items.foldl push r

/-- Pop at most `count` items. -/
def popUpTo : Nat → RingBuffer α → List α × RingBuffer α
  | 0, r => ([], r)
  | count + 1, r =>
    if r.len = 0 then ([], r)
    else match r.front? with
      | none => ([], r)
      | some item =>
        let popped := popUpTo count r.pop
        (item :: popped.1, popped.2)

/-- Forget the items pushed since an earlier state of the ring. -/
def rollback (r earlier : RingBuffer α) : RingBuffer α :=
  { r with tail := earlier.tail, len := earlier.len }

/-- The items of `count` cells from an index on, around the end of the array. -/
def readFrom (cells : List α) : Nat → Nat → List α
  | _, 0 => []
  | start, count + 1 =>
    (cells[start % cells.length]?).toList ++ readFrom cells (start + 1) count

/-- The items, oldest first. -/
def contents (r : RingBuffer α) : List α := readFrom r.cells r.head r.len

/-- The indices are in range and agree with the number of items. -/
structure WellFormed (r : RingBuffer α) : Prop where
  headBound : r.head < r.capacity
  tailEq : r.tail = (r.head + r.len) % r.capacity
  fits : r.len ≤ r.capacity

section Reading

variable {cells : List α}

theorem readFrom_append (start first second : Nat) : readFrom cells start (first + second) =
      readFrom cells start first ++ readFrom cells (start + first) second := by
  induction first generalizing start with
  | zero => simp [readFrom]
  | succ first ih =>
    rw [Nat.succ_add, readFrom, ih, readFrom, List.append_assoc]
    congr 3
    omega

theorem readFrom_mod (start count : Nat) :
    readFrom cells (start % cells.length) count = readFrom cells start count := by
  induction count generalizing start with
  | zero => rfl
  | succ count ih =>
    rw [readFrom, readFrom, Nat.mod_mod, ← ih (start % cells.length + 1), ← ih (start + 1),
      Nat.mod_add_mod]

/-- Cells that are not read do not matter. -/
theorem readFrom_set {index start count : Nat} {item : α}
    (apart : ∀ i < count, (start + i) % cells.length ≠ index) :
    readFrom (cells.set index item) start count = readFrom cells start count := by
  induction count generalizing start with
  | zero => rfl
  | succ count ih =>
    have here := apart 0 (Nat.succ_pos count)
    rw [Nat.add_zero] at here
    have rest : ∀ i < count, (start + 1 + i) % cells.length ≠ index := by
      intro i bound
      have next := apart (i + 1) (Nat.succ_lt_succ bound)
      rwa [Nat.add_assoc, Nat.add_comm 1 i]
    rw [readFrom, readFrom, List.length_set, ih rest, List.getElem?_set_ne here.symm]

theorem length_readFrom (some : 0 < cells.length) (start count : Nat) :
    (readFrom cells start count).length = count := by
  induction count generalizing start with
  | zero => rfl
  | succ count ih =>
    rw [readFrom, List.length_append, ih, List.getElem?_eq_getElem (Nat.mod_lt _ some)]
    simp only [Option.toList_some, List.length_singleton]
    omega

end Reading

variable {r : RingBuffer α}

theorem wellFormed_new {capacity : Nat} {blank : α} (some : 0 < capacity) :
    (new capacity blank).WellFormed where
  headBound := by simpa [new, RingBuffer.capacity] using some
  tailEq := by simp [new]
  fits := by simp [new]

@[simp] theorem contents_new (capacity : Nat) (blank : α) : (new capacity blank).contents = [] :=
  rfl

@[simp] theorem capacity_new (capacity : Nat) (blank : α) :
    (new capacity blank).capacity = capacity := List.length_replicate

@[simp] theorem capacity_push (item : α) : (r.push item).capacity = r.capacity := List.length_set

@[simp] theorem capacity_pop : r.pop.capacity = r.capacity := rfl

@[simp] theorem capacity_blankFront (blank : α) : (r.blankFront blank).capacity = r.capacity :=
  List.length_set

@[simp] theorem len_pushAll (items : List α) : (r.pushAll items).len = r.len + items.length := by
  induction items generalizing r with
  | nil => rfl
  | cons item rest ih =>
    rw [pushAll, List.foldl_cons, List.length_cons]
    refine ih.trans ?_
    change r.len + 1 + rest.length = r.len + (rest.length + 1)
    omega

namespace WellFormed

variable (h : r.WellFormed)
include h

theorem capacity_pos : 0 < r.capacity := Nat.zero_lt_of_lt h.headBound

theorem length_contents : r.contents.length = r.len := length_readFrom h.capacity_pos _ _

theorem push {item : α} (room : r.len < r.capacity) : (r.push item).WellFormed where
  headBound := by
    rw [capacity_push]
    exact h.headBound
  tailEq := by
    rw [capacity_push]
    change (r.tail + 1) % r.capacity = (r.head + (r.len + 1)) % r.capacity
    rw [h.tailEq, Nat.mod_add_mod, Nat.add_assoc]
  fits := by
    rw [capacity_push]
    exact room

/-- The cell after the last item is not among the items. -/
theorem tail_apart (room : r.len < r.capacity) :
    ∀ i < r.len, (r.head + i) % r.cells.length ≠ r.tail := by
  intro i bound same
  rw [h.tailEq] at same
  have congruent : r.head + i ≡ r.head + r.len [MOD r.capacity] := same
  have steps := Nat.ModEq.add_left_cancel' r.head congruent
  have equal : i = r.len := by
    rw [Nat.ModEq, Nat.mod_eq_of_lt (Nat.lt_trans bound room), Nat.mod_eq_of_lt room] at steps
    exact steps
  omega

theorem contents_push (item : α) (room : r.len < r.capacity) :
    (r.push item).contents = r.contents ++ [item] := by
  change readFrom (r.cells.set r.tail item) r.head (r.len + 1) = _
  have inside : r.tail < r.cells.length := by
    rw [h.tailEq]
    exact Nat.mod_lt _ h.capacity_pos
  have last : readFrom (r.cells.set r.tail item) (r.head + r.len) 1 = [item] := by
    rw [readFrom, readFrom, List.length_set]
    change ((r.cells.set r.tail item)[(r.head + r.len) % r.capacity]?).toList ++ [] = [item]
    rw [← h.tailEq, List.getElem?_set_self inside]
    rfl
  rw [readFrom_append, readFrom_set (h.tail_apart room), last]
  rfl

/-- The oldest item is the one at the head. -/
theorem contents_pop (stored : 0 < r.len) : ∃ item, r.front? = some item ∧
    r.contents = item :: r.pop.contents := by
  obtain ⟨count, len⟩ := Nat.exists_eq_succ_of_ne_zero (Nat.ne_of_gt stored)
  have inside : r.head < r.cells.length := h.headBound
  refine ⟨r.cells[r.head], List.getElem?_eq_getElem inside, ?_⟩
  have rest : r.pop.contents = readFrom r.cells (r.head + 1) count := by
    change readFrom r.cells ((r.head + 1) % r.cells.length) (r.len - 1) = _
    rw [readFrom_mod, len, Nat.succ_sub_one]
  rw [rest, contents, len, Nat.succ_eq_add_one, readFrom, Nat.mod_eq_of_lt inside,
    List.getElem?_eq_getElem inside]
  rfl

theorem pop (stored : 0 < r.len) : r.pop.WellFormed where
  headBound := Nat.mod_lt _ h.capacity_pos
  tailEq := by
    change r.tail = ((r.head + 1) % r.capacity + (r.len - 1)) % r.capacity
    rw [h.tailEq, Nat.mod_add_mod]
    congr 1
    omega
  fits := Nat.le_trans (Nat.sub_le _ _) h.fits

theorem blankFront {blank : α} : (r.blankFront blank).WellFormed where
  headBound := by
    rw [capacity_blankFront]
    exact h.headBound
  tailEq := by
    rw [capacity_blankFront]
    exact h.tailEq
  fits := by
    rw [capacity_blankFront]
    exact h.fits

/-- The popped cell may be overwritten. -/
theorem contents_pop_blankFront (blank : α) (stored : 0 < r.len) :
    (r.blankFront blank).pop.contents = r.pop.contents := by
  change readFrom (r.cells.set r.head blank) ((r.head + 1) % (r.cells.set r.head blank).length)
    (r.len - 1) = readFrom r.cells ((r.head + 1) % r.cells.length) (r.len - 1)
  rw [List.length_set, readFrom_set]
  intro i bound same
  have congruent : r.head + 1 + i ≡ r.head + 0 [MOD r.capacity] := by
    have inside : r.head % r.capacity = r.head := Nat.mod_eq_of_lt h.headBound
    rw [Nat.mod_add_mod] at same
    exact same.trans inside.symm
  rw [Nat.add_assoc] at congruent
  have steps := Nat.ModEq.add_left_cancel' r.head congruent
  have fits := h.fits
  rw [Nat.ModEq, Nat.mod_eq_of_lt (by omega), Nat.mod_eq_of_lt h.capacity_pos] at steps
  omega

theorem pushAll {items : List α} (room : items.length ≤ r.capacity - r.len) :
    (r.pushAll items).WellFormed ∧ (r.pushAll items).contents = r.contents ++ items ∧
      (r.pushAll items).capacity = r.capacity ∧ (r.pushAll items).head = r.head := by
  induction items generalizing r with
  | nil => exact ⟨h, (List.append_nil _).symm, rfl, rfl⟩
  | cons item rest ih =>
    rw [List.length_cons] at room
    have fits := h.fits
    have space : r.len < r.capacity := by omega
    have left : rest.length ≤ (r.push item).capacity - (r.push item).len := by
      rw [capacity_push]
      change rest.length ≤ r.capacity - (r.len + 1)
      omega
    obtain ⟨sound, contents, capacity, head⟩ := ih (h.push space) left
    refine ⟨sound, ?_, capacity.trans (capacity_push item), head⟩
    rw [pushAll, List.foldl_cons]
    exact contents.trans (by rw [h.contents_push item space, List.append_assoc]; rfl)

theorem popUpTo (count : Nat) :
    (r.popUpTo count).2.WellFormed ∧ (r.popUpTo count).1 = r.contents.take count ∧
      (r.popUpTo count).2.contents = r.contents.drop count ∧
      (r.popUpTo count).2.capacity = r.capacity := by
  induction count generalizing r with
  | zero => exact ⟨h, rfl, rfl, rfl⟩
  | succ count ih =>
    rw [popUpTo]
    split
    · next empty =>
      have contents : r.contents = [] := by
        rw [contents, empty]
        rfl
      rw [contents]
      exact ⟨h, rfl, rfl, rfl⟩
    · next stored =>
      have length := Nat.pos_of_ne_zero stored
      obtain ⟨item, front, split⟩ := h.contents_pop length
      obtain ⟨sound, taken, left, capacity⟩ := ih (h.pop length)
      rw [front, split]
      exact ⟨sound, congrArg (item :: ·) taken, left, capacity⟩

/-- Items that did not fit in the end leave no trace. -/
theorem rollback {items : List α} (room : items.length ≤ r.capacity - r.len) :
    ((r.pushAll items).rollback r).WellFormed ∧
      ((r.pushAll items).rollback r).contents = r.contents ∧
      ((r.pushAll items).rollback r).capacity = r.capacity := by
  obtain ⟨sound, contents, capacity, head⟩ := h.pushAll room
  refine ⟨⟨?_, ?_, ?_⟩, ?_, capacity⟩
  · exact sound.headBound
  · change r.tail = ((r.pushAll items).head + r.len) % (r.pushAll items).capacity
    rw [head, capacity]
    exact h.tailEq
  · change r.len ≤ (r.pushAll items).capacity
    rw [capacity]
    exact h.fits
  · change readFrom (r.pushAll items).cells (r.pushAll items).head r.len = r.contents
    have split : readFrom (r.pushAll items).cells (r.pushAll items).head r.len ++
        readFrom (r.pushAll items).cells ((r.pushAll items).head + r.len) items.length =
          r.contents ++ items := by
      rw [← readFrom_append, ← len_pushAll]
      exact contents
    refine (List.append_inj split ?_).1
    rw [length_readFrom sound.capacity_pos, h.length_contents]

end WellFormed

end RingBuffer
