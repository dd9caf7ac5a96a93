import Mathlib

/-!
# Sorting by a key

A list is sorted by a key and then looked at one pair of neighbours at a time. In a sorted
list equal keys are neighbours, so this finds every repetition.
-/

namespace Sorting

variable {α κ : Type} [LinearOrder κ] (key : α → κ)

/-- A stable sort. -/
def sortBy (items : List α) : List α := items.mergeSort fun a b => decide (key a ≤ key b)

/-- No neighbours have the same key. -/
def neighboursDiffer : List α → Bool
  | first :: second :: rest => key first ≠ key second && neighboursDiffer (second :: rest)
  | _ => true

/-- Drop an item in front of an equal one. -/
def dropRepeats [DecidableEq α] : List α → List α
  | first :: second :: rest =>
    if first = second then dropRepeats (second :: rest) else first :: dropRepeats (second :: rest)
  | short => short

def Sorted (items : List α) : Prop := items.Pairwise fun a b => key a ≤ key b

def StrictlySorted (items : List α) : Prop := items.Pairwise fun a b => key a < key b

variable {key} {items : List α}

theorem sortBy_perm (items : List α) : (sortBy key items).Perm items := List.mergeSort_perm ..

@[simp] theorem mem_sortBy {item : α} : item ∈ sortBy key items ↔ item ∈ items :=
  (sortBy_perm items).mem_iff

theorem sorted_sortBy (items : List α) : Sorted key (sortBy key items) := by
  have transitive : ∀ a b c : α, decide (key a ≤ key b) = true → decide (key b ≤ key c) = true →
      decide (key a ≤ key c) = true := by
    intro a b c first second
    exact decide_eq_true (le_trans (of_decide_eq_true first) (of_decide_eq_true second))
  have total : ∀ a b : α, (decide (key a ≤ key b) || decide (key b ≤ key a)) = true := by
    intro a b
    simpa using le_total (key a) (key b)
  exact (List.pairwise_mergeSort transitive total items).imp of_decide_eq_true

theorem StrictlySorted.nodup (strict : StrictlySorted key items) : (items.map key).Nodup :=
  List.pairwise_map.mpr (strict.imp fun below => ne_of_lt below)

/-- Looking at neighbours is enough. -/
theorem neighboursDiffer_iff (sorted : Sorted key items) :
    neighboursDiffer key items = true ↔ StrictlySorted key items := by
  induction items with
  | nil => exact ⟨fun _ => .nil, fun _ => rfl⟩
  | cons first rest ih =>
    cases rest with
    | nil => exact ⟨fun _ => List.pairwise_singleton .., fun _ => rfl⟩
    | cons second rest =>
      obtain ⟨least, sorted⟩ := List.pairwise_cons.mp sorted
      have smallest := (List.pairwise_cons.mp sorted).1
      rw [neighboursDiffer, Bool.and_eq_true, ih sorted, decide_eq_true_eq]
      constructor
      · rintro ⟨differ, strict⟩
        have below := lt_of_le_of_ne (least second (.head _)) differ
        refine .cons (fun item member => ?_) strict
        rcases List.mem_cons.mp member with rfl | later
        · exact below
        · exact lt_of_lt_of_le below (smallest item later)
      · intro strict
        obtain ⟨below, strict⟩ := List.pairwise_cons.mp strict
        exact ⟨ne_of_lt (below second (.head _)), strict⟩

theorem strictlySorted_iff_nodup (sorted : Sorted key items) :
    StrictlySorted key items ↔ (items.map key).Nodup := by
  refine ⟨StrictlySorted.nodup, fun distinct => ?_⟩
  exact (sorted.and (List.pairwise_map.mp distinct)).imp fun both => lt_of_le_of_ne both.1 both.2

theorem neighboursDiffer_sortBy (items : List α) :
    neighboursDiffer key (sortBy key items) = true ↔ (items.map key).Nodup := by
  rw [neighboursDiffer_iff (sorted_sortBy items), strictlySorted_iff_nodup (sorted_sortBy items)]
  exact ((sortBy_perm items).map key).nodup_iff

@[simp] theorem mem_dropRepeats [DecidableEq α] {item : α} :
    item ∈ dropRepeats items ↔ item ∈ items := by
  induction items with
  | nil => rfl
  | cons first rest ih =>
    cases rest with
    | nil => rfl
    | cons second rest =>
      rw [dropRepeats]
      split
      · next same =>
        subst same
        simpa using ih
      · simpa using or_congr_right ih

theorem strictlySorted_dropRepeats [DecidableEq α] (injective : key.Injective)
    (sorted : Sorted key items) : StrictlySorted key (dropRepeats items) := by
  induction items with
  | nil => exact .nil
  | cons first rest ih =>
    cases rest with
    | nil => exact List.pairwise_singleton ..
    | cons second rest =>
      obtain ⟨least, sorted⟩ := List.pairwise_cons.mp sorted
      have smallest := (List.pairwise_cons.mp sorted).1
      rw [dropRepeats]
      split
      · exact ih sorted
      · next differ =>
        have below := lt_of_le_of_ne (least second (.head _))
          fun same => differ (injective same)
        refine .cons (fun item member => ?_) (ih sorted)
        rcases List.mem_cons.mp (mem_dropRepeats.mp member) with rfl | later
        · exact below
        · exact lt_of_lt_of_le below (smallest item later)

/-- Items come to the same when they are grouped by a key that is on a list. -/
theorem regroup_perm {γ : Type} [DecidableEq γ] (group : α → γ) {groups : List γ}
    (distinct : groups.Nodup) (listed : ∀ item ∈ items, group item ∈ groups) :
    (groups.flatMap fun g => items.filter (group · = g)).Perm items := by
  induction groups generalizing items with
  | nil =>
    have none_left : items = [] :=
      List.eq_nil_iff_forall_not_mem.mpr fun item member => nomatch listed item member
    rw [none_left]
    exact .nil
  | cons g rest ih =>
    obtain ⟨fresh, distinct⟩ := List.nodup_cons.mp distinct
    have others : (rest.flatMap fun g => items.filter (group · = g)) =
        rest.flatMap fun g' => (items.filter fun item => !decide (group item = g)).filter
          (group · = g') := by
      refine List.flatMap_congr fun g' member => ?_
      rw [List.filter_filter]
      refine List.filter_congr fun item _ => ?_
      by_cases same : group item = g'
      · have apart : g' ≠ g := fun equal => fresh (equal ▸ member)
        simp [same, apart]
      · simp [same]
    rw [List.flatMap_cons, others]
    refine (List.Perm.append_left _ (ih distinct fun item member => ?_)).trans
      (List.filter_append_perm (fun item => decide (group item = g)) items)
    obtain ⟨member, apart⟩ := List.mem_filter.mp member
    exact (List.mem_cons.mp (listed item member)).resolve_left (by simpa using apart)

end Sorting
