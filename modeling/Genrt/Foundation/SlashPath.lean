import Mathlib

/-!
# Paths as strings of names

A path is a list of names. As a string every name follows a separator, and the empty path is
a single separator. A name is not empty and holds no separator, so the names can be read
back from the string.
-/

namespace SlashPath

variable {α : Type} (sep : α)

def IsName (name : List α) : Prop := name ≠ [] ∧ sep ∉ name

/-- Every name behind a separator. -/
def body (names : List (List α)) : List α := names.flatMap (sep :: ·)

def render (names : List (List α)) : List α := if names = [] then [sep] else body sep names

variable {sep} {names : List (List α)} {name : List α}

@[simp] theorem body_nil : body sep [] = [] := rfl

theorem body_cons (name : List α) (names : List (List α)) :
    body sep (name :: names) = sep :: name ++ body sep names := List.flatMap_cons

theorem body_append (names more : List (List α)) :
    body sep (names ++ more) = body sep names ++ body sep more := List.flatMap_append

@[simp] theorem render_nil : render sep [] = [sep] := rfl

theorem render_of_ne_nil (nonempty : names ≠ []) : render sep names = body sep names :=
  if_neg nonempty

theorem render_concat (names : List (List α)) (name : List α) :
    render sep (names ++ [name]) = body sep names ++ sep :: name := by
  rw [render_of_ne_nil (by simp), body_append, body_cons, body_nil, List.append_nil]

/-- A string starts with a separator. -/
theorem head?_render (names : List (List α)) : (render sep names).head? = some sep := by
  cases names with
  | nil => rfl
  | cons name rest =>
    rw [render_of_ne_nil (by simp), body_cons]
    rfl

/-! ### The separators of a path -/

/-- A separator inside a path ends the string of the names in front of it. -/
theorem getElem?_body_eq_sep (clean : ∀ name ∈ names, IsName sep name) {index : Nat} :
    (body sep names)[index]? = some sep ↔
      ∃ front back, names = front ++ back ∧ back ≠ [] ∧ index = (body sep front).length := by
  induction names generalizing index with
  | nil =>
    constructor
    · intro found
      cases found
    · rintro ⟨front, back, split, nonempty, -⟩
      exact absurd (List.append_eq_nil_iff.mp split.symm).2 nonempty
  | cons name rest ih =>
    have others := @ih (fun name member => clean name (.tail _ member))
    have plain := (clean name (.head _)).2
    rw [body_cons]
    constructor
    · intro found
      by_cases inside : index < (sep :: name).length
      · rw [List.getElem?_append_left inside] at found
        cases index with
        | zero => exact ⟨[], name :: rest, rfl, by simp, rfl⟩
        | succ index =>
          rw [List.getElem?_cons_succ] at found
          exact absurd (List.mem_of_getElem? found) plain
      · rw [List.getElem?_append_right (Nat.not_lt.mp inside)] at found
        obtain ⟨front, back, split, nonempty, place⟩ := others.mp found
        refine ⟨name :: front, back, by rw [split]; rfl, nonempty, ?_⟩
        rw [body_cons, List.length_append]
        omega
    · rintro ⟨front, back, split, nonempty, place⟩
      cases front with
      | nil =>
        subst place
        rfl
      | cons first front =>
        obtain ⟨rfl, tails⟩ := List.cons.inj split
        rw [body_cons, List.length_append] at place
        rw [List.getElem?_append_right (by omega)]
        exact others.mpr ⟨front, back, tails, nonempty, by omega⟩

/-! ### Reading the names back -/

variable [DecidableEq α]

section

variable (sep)

/-- The names between the separators of any string. -/
def components (path : List α) : List (List α) := (path.splitOn sep).filter (· ≠ [])

/-- The last position of the separator. -/
def rposition : List α → Option Nat
  | [] => none
  | first :: rest =>
    match rposition rest with
    | some index => some (index + 1)
    | none => if first = sep then some 0 else none

end

section

variable (clean : ∀ name ∈ names, IsName sep name)

include clean

theorem splitOn_body : (body sep names).splitOn sep = [] :: names := by
  induction names using List.reverseRecOn with
  | nil => exact List.splitOn_nil sep
  | append_singleton names name ih =>
    have front := ih fun name member => clean name (List.mem_append_left _ member)
    have last := (clean name (List.mem_append_right _ (.head _))).2
    rw [body_append, body_cons, body_nil, List.append_nil, List.splitOn_append_cons_self, front,
      List.splitOn_eq_singleton last, List.cons_append]

/-- The names of a path are the components of its string. -/
theorem components_render : components sep (render sep names) = names := by
  cases names with
  | nil =>
    have halves := List.splitOn_append_cons_self [] [] (a := sep)
    rw [List.splitOn_nil, List.nil_append] at halves
    rw [components, render_nil, halves]
    rfl
  | cons name rest =>
    have kept : (name :: rest).filter (· ≠ []) = name :: rest :=
      List.filter_eq_self.mpr fun name member => by simpa using (clean name member).1
    rw [components, render_of_ne_nil (by simp), splitOn_body clean,
      List.filter_cons_of_neg (by simp), kept]

theorem render_injective {other : List (List α)} (cleanOther : ∀ name ∈ other, IsName sep name)
    (same : render sep names = render sep other) : names = other := by
  rw [← components_render clean, same, components_render cleanOther]

end

/-! ### The last name -/

theorem rposition_eq_none (absent : sep ∉ name) : rposition sep name = none := by
  induction name with
  | nil => rfl
  | cons first rest ih =>
    have other : first ≠ sep := fun same => absent (same ▸ .head _)
    rw [rposition, ih fun member => absent (.tail _ member)]
    exact if_neg other

theorem rposition_append (front : List α) (absent : sep ∉ name) :
    rposition sep (front ++ sep :: name) = some front.length := by
  induction front with
  | nil =>
    rw [List.nil_append, rposition, rposition_eq_none absent]
    exact if_pos rfl
  | cons first front ih => rw [List.cons_append, rposition, ih, List.length_cons]

end SlashPath
