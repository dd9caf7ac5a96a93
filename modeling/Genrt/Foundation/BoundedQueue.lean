import Mathlib

/-!
# Queues with a fixed reservation

The storage of a bounded queue is reserved once and never grows, so its length
is at most its capacity by construction. Pushing into a full queue fails; it
does not allocate.
-/

/-- A first-in first-out queue that holds at most `capacity` items. -/
structure BoundedQueue (α : Type) where
  capacity : Nat
  items : List α
  fits : items.length ≤ capacity
deriving DecidableEq

namespace BoundedQueue

variable {α : Type}

def empty (capacity : Nat) : BoundedQueue α := ⟨capacity, [], Nat.zero_le _⟩

def pushBack (queue : BoundedQueue α) (item : α) : Option (BoundedQueue α) :=
  if room : queue.items.length < queue.capacity then
    some ⟨queue.capacity, queue.items ++ [item], by
      rw [List.length_append, List.length_singleton]; exact room⟩
  else none

def popFront (queue : BoundedQueue α) : Option (α × BoundedQueue α) :=
  match queue with
  | ⟨_, [], _⟩ => none
  | ⟨capacity, item :: rest, fits⟩ =>
    some (item, ⟨capacity, rest, Nat.le_of_succ_le fits⟩)

/-- Remove the first occurrence of an item. -/
def erase [DecidableEq α] (queue : BoundedQueue α) (item : α) : BoundedQueue α :=
  ⟨queue.capacity, queue.items.erase item, Nat.le_trans List.length_erase_le queue.fits⟩

def clear (queue : BoundedQueue α) : BoundedQueue α := empty queue.capacity

@[simp] theorem empty_items (capacity : Nat) : (empty capacity : BoundedQueue α).items = [] := rfl

@[simp] theorem empty_capacity (capacity : Nat) :
    (empty capacity : BoundedQueue α).capacity = capacity := rfl

variable {queue : BoundedQueue α}

theorem pushBack_of_room (room : queue.items.length < queue.capacity) (item : α) :
    ∃ next, queue.pushBack item = some next ∧ next.items = queue.items ++ [item] ∧
      next.capacity = queue.capacity := by
  rw [pushBack, dif_pos room]
  exact ⟨_, rfl, rfl, rfl⟩

variable {item : α}

theorem pushBack_some {next : BoundedQueue α} (pushed : queue.pushBack item = some next) :
    next.items = queue.items ++ [item] ∧ next.capacity = queue.capacity := by
  unfold pushBack at pushed
  split at pushed
  · cases pushed; exact ⟨rfl, rfl⟩
  · cases pushed

theorem popFront_of_cons {rest : List α} (items : queue.items = item :: rest) :
    ∃ next, queue.popFront = some (item, next) ∧
      next.items = rest ∧ next.capacity = queue.capacity := by
  obtain ⟨capacity, _, fits⟩ := queue
  subst items
  exact ⟨_, rfl, rfl, rfl⟩

theorem popFront_eq_none : queue.popFront = none ↔ queue.items = [] := by
  obtain ⟨capacity, items, fits⟩ := queue
  cases items with
  | nil => simp [popFront]
  | cons item rest => simp [popFront]

theorem popFront_some {next : BoundedQueue α} (popped : queue.popFront = some (item, next)) :
    queue.items = item :: next.items ∧ next.capacity = queue.capacity := by
  obtain ⟨capacity, items, fits⟩ := queue
  cases items with
  | nil => cases popped
  | cons first rest => cases popped; exact ⟨rfl, rfl⟩

end BoundedQueue
