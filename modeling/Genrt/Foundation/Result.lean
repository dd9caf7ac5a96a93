import Mathlib

/-!
# Results of computations that may fail

How a failing computation without state is taken apart: a sequence succeeds if both
parts do, and its errors are those of its parts.
-/

namespace Result

variable {ε α β : Type} {x : Except ε α} {f : α → Except ε β}

theorem ok_bind (a : α) (f : α → Except ε β) : (Except.ok a >>= f) = f a := rfl

variable {b : β}

theorem bind_eq_ok : x >>= f = .ok b ↔ ∃ a, x = .ok a ∧ f a = .ok b := by
  cases x with
  | error e => simp [bind, Except.bind]
  | ok a => simp [bind, Except.bind]

theorem bind_eq_error {e : ε} :
    x >>= f = .error e ↔ x = .error e ∨ ∃ a, x = .ok a ∧ f a = .error e := by
  cases x with
  | error e => simp [bind, Except.bind]
  | ok a => simp [bind, Except.bind]

theorem mapError_eq_ok {ε' : Type} {translate : ε → ε'} {a : α} :
    x.mapError translate = .ok a ↔ x = .ok a := by
  cases x with
  | error e => simp [Except.mapError]
  | ok a => simp [Except.mapError]

variable {g : α → β}

theorem map_eq_ok : g <$> x = .ok b ↔ ∃ a, x = .ok a ∧ g a = b := by
  cases x with
  | error e => simp [Functor.map, Except.map]
  | ok a => simp [Functor.map, Except.map]

theorem eq_ok_of_map_some {a : α} (mapped : some <$> x = .ok (some a)) : x = .ok a := by
  cases x with
  | error e => cases mapped
  | ok value =>
    cases mapped
    rfl

variable {items : List α}

/-- A loop that fails stops at an item. -/
theorem foldlM_error {step : β → α → Except ε β} {e : ε} (run : items.foldlM step b = .error e) :
    ∃ before a after c,
      items = before ++ a :: after ∧ before.foldlM step b = .ok c ∧ step c a = .error e := by
  induction items generalizing b with
  | nil => cases run
  | cons a rest ih =>
    rw [List.foldlM_cons] at run
    rcases bind_eq_error.mp run with failed | ⟨next, first, failed⟩
    · exact ⟨[], a, rest, b, rfl, rfl, failed⟩
    · obtain ⟨before, last, after, c, rfl, done, failed⟩ := ih failed
      refine ⟨a :: before, last, after, c, rfl, ?_, failed⟩
      rw [List.foldlM_cons, first]
      exact done

/-- A loop whose rounds append to a list. -/
theorem foldlM_append {step : List β → α → Except ε (List β)} {added : α → List β}
    (steps : ∀ list, ∀ a ∈ items, step list a = .ok (list ++ added a)) (list : List β) :
    items.foldlM step list = .ok (list ++ items.flatMap added) := by
  induction items generalizing list with
  | nil => exact congrArg Except.ok (List.append_nil list).symm
  | cons a rest ih =>
    rw [List.foldlM_cons, steps list a (.head _), ok_bind,
      ih fun list a member => steps list a (.tail _ member), List.flatMap_cons,
      List.append_assoc]

theorem mapM_eq_ok (steps : ∀ a ∈ items, f a = .ok (g a)) : items.mapM f = .ok (items.map g) := by
  induction items with
  | nil => rfl
  | cons a rest ih =>
    rw [List.mapM_cons, steps a (.head _), ok_bind,
      ih fun a member => steps a (.tail _ member), ok_bind]
    rfl

/-- A loop of checks passes if each check does. -/
theorem forM_eq_ok {check : α → Except ε Unit} :
    items.forM check = .ok () ↔ ∀ a ∈ items, check a = .ok () := by
  induction items with
  | nil => exact ⟨fun _ => nofun, fun _ => rfl⟩
  | cons a rest ih =>
    change check a >>= (fun _ => rest.forM check) = .ok () ↔ _
    rw [bind_eq_ok, List.forall_mem_cons, ← ih]
    exact ⟨fun ⟨_, first, others⟩ => ⟨first, others⟩, fun ⟨first, others⟩ => ⟨(), first, others⟩⟩

end Result
