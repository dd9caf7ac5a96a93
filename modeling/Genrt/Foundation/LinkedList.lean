import Mathlib

/-!
# Linked lists in memory

Each item holds the address of the next one, and a marker stands for the end. A segment
is the chain of items between two links; segments compose, do not depend on the links of
other items, and end elsewhere once the link of the last item is written.
-/

namespace LinkedList

variable {α : Type} [DecidableEq α] (stop : α)

/-- A stored link as an optional item. -/
def follow (raw : α) : Option α := if raw = stop then none else some raw

/-- A link as it is stored. -/
def raw (link : Option α) : α := link.getD stop

/-- Following the links of the items leads from one link to another. -/
def Segment (next : α → α) : Option α → List α → Option α → Prop
  | first, [], last => first = last
  | first, item :: rest, last => first = some item ∧
      Segment next (follow stop (next item)) rest last

variable {stop} {next next' : α → α} {first middle last : Option α} {items others : List α}
  {item : α}

theorem follow_raw {link : Option α} (proper : link ≠ some stop) :
    follow stop (raw stop link) = link := by
  cases link with
  | none => exact if_pos rfl
  | some item =>
    have other : item ≠ stop := fun same => proper (congrArg some same)
    exact if_neg other

theorem segment_append : Segment stop next first (items ++ others) last ↔
    ∃ middle, Segment stop next first items middle ∧ Segment stop next middle others last := by
  induction items generalizing first with
  | nil => exact ⟨fun rest => ⟨first, rfl, rest⟩, fun ⟨_, same, rest⟩ => same ▸ rest⟩
  | cons item items ih =>
    simp only [List.cons_append, Segment, ih]
    exact ⟨fun ⟨same, middle, front, back⟩ => ⟨middle, ⟨same, front⟩, back⟩,
      fun ⟨middle, ⟨same, front⟩, back⟩ => ⟨same, middle, front, back⟩⟩

theorem Segment.append (front : Segment stop next first items middle)
    (back : Segment stop next middle others last) :
    Segment stop next first (items ++ others) last :=
  segment_append.mpr ⟨middle, front, back⟩

section

variable (segment : Segment stop next first items last)

include segment

/-- Only the links of the items matter. -/
theorem Segment.congr (same : ∀ item ∈ items, next' item = next item) :
    Segment stop next' first items last := by
  induction items generalizing first with
  | nil => exact segment
  | cons item items ih =>
    refine ⟨segment.1, ?_⟩
    rw [same item List.mem_cons_self]
    exact ih segment.2 fun other member => same other (List.mem_cons_of_mem _ member)

/-- The first item of a segment, or its end. -/
theorem Segment.first_eq : first = items.head?.or last := by
  cases items with
  | nil => exact segment
  | cons item items => exact segment.1

theorem Segment.update {value : α} (other : item ∉ items) :
    Segment stop (Function.update next item value) first items last :=
  segment.congr fun found member => by
    have different : found ≠ item := fun same => other (same ▸ member)
    rw [Function.update_of_ne different]

end

/-- Write the link of the last item. -/
theorem Segment.redirect {value : α} (segment : Segment stop next first (items ++ [item]) last)
    (once : item ∉ items) :
    Segment stop (Function.update next item value) first (items ++ [item]) (follow stop value) := by
  obtain ⟨middle, front, back⟩ := segment_append.mp segment
  refine (front.update once).append ⟨back.1, ?_⟩
  rw [Function.update_self]
  rfl

end LinkedList
