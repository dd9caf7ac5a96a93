import Mathlib

/-!
# Binary heaps stored in a list

A list is read as a complete binary tree: the children of position `i` stand at
`2 * i + 1` and `2 * i + 2`. The comparison is a Boolean strict order whose
incomparability is transitive, so distinct items may tie.

The two sift loops each repair one broken position. Their invariants say which
edges may be out of order and that the edges around the broken position still
hold across it; a swap moves the broken position one level. The last section
assembles insertion, removal at any position and replacement of one key.
-/

namespace Heap

variable {α : Type} (r : α → α → Bool)

/-- A strict order whose negation is transitive. -/
structure StrictWeak : Prop where
  asymm : ∀ a b, r a b = true → r b a = false
  trans : ∀ a b c, r b a = false → r c b = false → r c a = false

variable {r} in
theorem StrictWeak.irrefl (weak : StrictWeak r) (a : α) : r a a = false := by
  cases h : r a a with
  | false => rfl
  | true => rw [← h]; exact weak.asymm a a h

def parent (i : Nat) : Nat := (i - 1) / 2

def left (i : Nat) : Nat := i * 2 + 1

variable {i j : Nat}

theorem parent_lt (h : 0 < i) : parent i < i := by
  unfold parent
  omega

theorem parent_eq_iff {k : Nat} (h : 0 < i) : parent i = k ↔ i = left k ∨ i = left k + 1 := by
  unfold parent left
  omega

/-- Compare the items at two positions; a missing item compares as equal. -/
def less (xs : List α) (i j : Nat) : Bool :=
  match xs[i]?, xs[j]? with
  | some a, some b => r a b
  | _, _ => false

def swap (xs : List α) (i j : Nat) : List α :=
  match xs[i]?, xs[j]? with
  | some a, some b => (xs.set i b).set j a
  | _, _ => xs

@[simp] theorem swap_length (xs : List α) (i j : Nat) : (swap xs i j).length = xs.length := by
  unfold swap
  split <;> simp

theorem swap_getElem? {xs : List α} (hi : i < xs.length) (hj : j < xs.length) (k : Nat) :
    (swap xs i j)[k]? = if k = j then xs[i]? else if k = i then xs[j]? else xs[k]? := by
  simp only [swap, List.getElem?_eq_getElem hi, List.getElem?_eq_getElem hj, List.getElem?_set,
    List.length_set]
  grind

theorem swap_perm (xs : List α) (i j : Nat) : (swap xs i j).Perm xs := by
  unfold swap
  split
  · next a b ha hb =>
    obtain ⟨hi, rfl⟩ := List.getElem?_eq_some_iff.mp ha
    obtain ⟨hj, rfl⟩ := List.getElem?_eq_some_iff.mp hb
    exact List.set_set_perm hi hj
  · exact List.Perm.refl xs

/-- Move the item at `i` towards the root while it precedes its parent. -/
def siftUp : Nat → List α → Nat → List α
  | 0, xs, _ => xs
  | fuel + 1, xs, i =>
    if 0 < i ∧ less r xs i (parent i) = true then
      siftUp fuel (swap xs i (parent i)) (parent i)
    else xs

/-- The child of `i` that the downward loop compares with it. -/
def bestChild (xs : List α) (i : Nat) : Nat :=
  if left i + 1 < xs.length ∧ less r xs (left i + 1) (left i) = true then left i + 1 else left i

/-- Move the item at `i` towards the leaves while a child precedes it. -/
def siftDown : Nat → List α → Nat → List α
  | 0, xs, _ => xs
  | fuel + 1, xs, i =>
    if xs.length ≤ left i then xs
    else if less r xs (bestChild r xs i) i = true then
      siftDown fuel (swap xs i (bestChild r xs i)) (bestChild r xs i)
    else xs

theorem siftUp_perm (fuel : Nat) (xs : List α) (i : Nat) : (siftUp r fuel xs i).Perm xs := by
  induction fuel generalizing xs i with
  | zero => exact List.Perm.refl xs
  | succ fuel ih =>
    rw [siftUp]
    split
    · exact (ih _ _).trans (swap_perm xs i (parent i))
    · exact List.Perm.refl xs

theorem siftDown_perm (fuel : Nat) (xs : List α) (i : Nat) : (siftDown r fuel xs i).Perm xs := by
  induction fuel generalizing xs i with
  | zero => exact List.Perm.refl xs
  | succ fuel ih =>
    rw [siftDown]
    split
    · exact List.Perm.refl xs
    · split
      · exact (ih _ _).trans (swap_perm xs i (bestChild r xs i))
      · exact List.Perm.refl xs

/-- No item precedes its parent. -/
def Ordered (xs : List α) : Prop := ∀ i, 0 < i → less r xs i (parent i) = false

/-- Only the edge above `k` may be out of order, and the children of `k` do not
precede the parent of `k`. -/
structure UpOrdered (xs : List α) (k : Nat) : Prop where
  edge : ∀ i, 0 < i → i ≠ k → less r xs i (parent i) = false
  across : ∀ i, 0 < i → parent i = k → 0 < k → less r xs i (parent k) = false

/-- Only the edges below `k` may be out of order, and the children of `k` do not
precede the parent of `k`. -/
structure DownOrdered (xs : List α) (k : Nat) : Prop where
  edge : ∀ i, 0 < i → parent i ≠ k → less r xs i (parent i) = false
  across : ∀ i, 0 < i → parent i = k → 0 < k → less r xs i (parent k) = false

variable {r} {xs ys : List α} {k : Nat}

theorem less_iff (r : α → α → Bool) {a b : α} (ha : xs[i]? = some a) (hb : xs[j]? = some b) :
    less r xs i j = r a b := by
  simp only [less, ha, hb]

theorem less_eq_false_iff :
    less r xs i j = false ↔ ∀ a b, xs[i]? = some a → xs[j]? = some b → r a b = false := by
  unfold less
  cases xs[i]? <;> cases xs[j]? <;> simp

theorem less_of_length_le (outside : xs.length ≤ i) : less r xs i j = false := by
  simp [less, outside]

theorem less_swap (hi : i < xs.length) (hj : j < xs.length) (m n : Nat) :
    less r (swap xs i j) m n =
      less r xs (if m = j then i else if m = i then j else m)
        (if n = j then i else if n = i then j else n) := by
  have view : ∀ k, (swap xs i j)[k]? = xs[if k = j then i else if k = i then j else k]? := by
    intro k
    rw [swap_getElem? hi hj]
    split <;> [rfl; split <;> rfl]
  simp only [less, view]

theorem parent_bestChild (r : α → α → Bool) (xs : List α) (i : Nat) :
    parent (bestChild r xs i) = i := by
  unfold bestChild parent left
  split <;> omega

theorem bestChild_lt (r : α → α → Bool) (inside : left i < xs.length) :
    bestChild r xs i < xs.length := by
  unfold bestChild
  split
  · next h => exact h.1
  · exact inside

section Weak

variable (weak : StrictWeak r)

include weak

theorem less_asymm (before : less r xs i j = true) : less r xs j i = false := by
  rw [less_eq_false_iff]
  intro b a hb ha
  rw [less_iff r ha hb] at before
  exact weak.asymm a b before

theorem less_trans (inside : j < xs.length) (upper : less r xs j i = false)
    (lower : less r xs k j = false) : less r xs k i = false := by
  have hj := List.getElem?_eq_getElem inside
  rw [less_eq_false_iff] at upper lower ⊢
  intro c a hc ha
  exact weak.trans a _ c (upper _ a hj ha) (lower c _ hc hj)

/-- One round upwards: the edge above the new position is the only one left. -/
theorem UpOrdered.move (inv : UpOrdered r xs i) (bound : i < xs.length) (positive : 0 < i)
    (before : less r xs i (parent i) = true) : UpOrdered r (swap xs i (parent i)) (parent i) := by
  have above := parent_lt positive
  have room := Nat.lt_trans above bound
  have after := less_asymm weak before
  have sibling : ∀ j, 0 < j → j ≠ i → parent j = parent i → less r xs j (parent i) = false := by
    intro j hj hne same
    rw [← same]
    exact inv.edge j hj hne
  constructor
  · intro j hj hne
    rw [less_swap bound room, if_neg hne]
    by_cases hji : j = i
    · subst hji
      rwa [if_pos rfl, if_pos rfl]
    rw [if_neg hji]
    split
    · next same => exact less_trans weak room after (sibling j hj hji same)
    · split
      · next child => exact inv.across j hj child positive
      · exact inv.edge j hj hji
  · intro j hj child hpos
    have higher := parent_lt hpos
    have lower := parent_lt hj
    have upper := inv.edge (parent i) hpos (by omega)
    rw [less_swap bound room, if_neg (show j ≠ parent i by omega),
      if_neg (show parent (parent i) ≠ parent i by omega),
      if_neg (show parent (parent i) ≠ i by omega)]
    split
    · exact upper
    · next hji => exact less_trans weak room upper (sibling j hj hji child)

/-- The upward loop ends in order, after at most `i` rounds. -/
theorem siftUp_ordered {fuel : Nat} (enough : i ≤ fuel) (bound : i < xs.length)
    (inv : UpOrdered r xs i) : Ordered r (siftUp r fuel xs i) := by
  induction fuel generalizing xs i with
  | zero => exact fun j hj => inv.edge j hj (by omega)
  | succ fuel ih =>
    rw [siftUp]
    split
    · next moves =>
      have above := parent_lt moves.1
      exact ih (by omega) (by rw [swap_length]; omega) (inv.move weak bound moves.1 moves.2)
    · next stays =>
      intro j hj
      by_cases hji : j = i
      · subst hji
        simpa [hj] using stays
      · exact inv.edge j hj hji

/-- No child of `i` precedes the chosen one. -/
theorem bestChild_le (hj : 0 < j) (child : parent j = i) :
    less r xs j (bestChild r xs i) = false := by
  have self : ∀ k, less r xs k k = false := fun k =>
    less_eq_false_iff.mpr fun a b ha hb => by
      obtain rfl : a = b := Option.some.inj (ha.symm.trans hb)
      exact weak.irrefl a
  unfold bestChild
  rcases (parent_eq_iff hj).mp child with rfl | rfl
  · split
    · next right => exact less_asymm weak right.2
    · exact self _
  · split
    · exact self _
    · next notRight =>
      by_cases inside : left i + 1 < xs.length
      · simpa [inside] using notRight
      · exact less_of_length_le (by omega)

/-- One round downwards: the edges below the new position are the only ones left. -/
theorem DownOrdered.move {c : Nat} (inv : DownOrdered r xs i) (bound : i < xs.length)
    (fits : c < xs.length) (positive : 0 < c) (child : parent c = i)
    (least : ∀ j, 0 < j → parent j = i → less r xs j c = false)
    (before : less r xs c i = true) : DownOrdered r (swap xs i c) c := by
  have deeper : i < c := child ▸ parent_lt positive
  constructor
  · intro j hj hne
    rw [less_swap bound fits, if_neg hne]
    by_cases hjc : j = c
    · subst hjc
      rw [if_pos rfl, if_pos child]
      exact less_asymm weak before
    rw [if_neg hjc]
    by_cases hji : j = i
    · subst hji
      have higher := parent_lt hj
      rw [if_pos rfl, if_neg (by omega)]
      exact inv.across c positive child hj
    rw [if_neg hji]
    split
    · next below => exact least j hj below
    · next apart => exact inv.edge j hj apart
  · intro j hj below _
    have lower := parent_lt hj
    rw [less_swap bound fits, child, if_neg (show j ≠ c by omega), if_neg (show j ≠ i by omega),
      if_neg (show i ≠ c by omega), if_pos rfl, ← below]
    exact inv.edge j hj (by omega)

/-- The downward loop ends in order, after at most as many rounds as items. -/
theorem siftDown_ordered {fuel : Nat} (enough : xs.length ≤ fuel + i) (bound : i < xs.length)
    (inv : DownOrdered r xs i) : Ordered r (siftDown r fuel xs i) := by
  induction fuel generalizing xs i with
  | zero => omega
  | succ fuel ih =>
    rw [siftDown]
    split
    · next childless =>
      intro j hj
      by_cases child : parent j = i
      · apply less_of_length_le
        rcases (parent_eq_iff hj).mp child with rfl | rfl <;> omega
      · exact inv.edge j hj child
    next inside =>
    have best := parent_bestChild r xs i
    have fits := bestChild_lt r (Nat.lt_of_not_le inside)
    have positive : 0 < bestChild r xs i := by unfold bestChild left; split <;> omega
    have deeper := parent_lt positive
    have least : ∀ j, 0 < j → parent j = i → less r xs j (bestChild r xs i) = false :=
      fun _ => bestChild_le weak
    split
    · next before =>
      exact ih (by rw [swap_length]; omega) (by rwa [swap_length])
        (inv.move weak bound fits positive best least before)
    · next stays =>
      intro j hj
      by_cases child : parent j = i
      · rw [child]
        exact less_trans weak fits (by simpa using stays) (least j hj child)
      · exact inv.edge j hj child

/-- The root precedes or ties with every item. -/
theorem Ordered.root_le (order : Ordered r xs) {root : α} (first : xs[0]? = some root) {a : α}
    (item : xs[i]? = some a) : r a root = false := by
  induction i using Nat.strongRecOn generalizing a with
  | _ i ih =>
    cases Nat.eq_zero_or_pos i with
    | inl zero =>
      subst zero
      obtain rfl : root = a := by simpa [first] using item
      exact weak.irrefl root
    | inr positive =>
      have above := parent_lt positive
      have bound := (List.getElem?_eq_some_iff.mp item).1
      have hp := List.getElem?_eq_getElem (Nat.lt_trans above bound)
      have edge := order i positive
      rw [less_iff r item hp] at edge
      exact weak.trans root _ a (ih (parent i) above hp) edge

end Weak

section Operations

variable (r)

/-- Append an item and move it up. -/
def insert (xs : List α) (x : α) : List α := siftUp r xs.length (xs ++ [x]) xs.length

/-- Restore the order around one replaced position. -/
def repair (xs : List α) (k : Nat) : List α :=
  if 0 < k ∧ less r xs k (parent k) = true then siftUp r k xs k
  else siftDown r xs.length xs k

/-- Remove the item at `k` by moving the last item into its place. -/
def removeAt (xs : List α) (k : Nat) : List α :=
  let rest := (swap xs k (xs.length - 1)).dropLast
  if k < rest.length then repair r rest k else rest

variable {r} (weak : StrictWeak r) (order : Ordered r xs)

theorem insert_perm (xs : List α) (x : α) : (insert r xs x).Perm (x :: xs) :=
  (siftUp_perm r _ _ _).trans (List.perm_append_singleton x xs)

include weak order in
theorem insert_ordered (x : α) : Ordered r (insert r xs x) := by
  apply siftUp_ordered weak (Nat.le_refl _) (by simp)
  constructor
  · intro i hi hne
    have above := parent_lt hi
    by_cases inside : i < xs.length
    · have edge := order i hi
      simpa only [less, List.getElem?_append_left inside,
        List.getElem?_append_left (Nat.lt_trans above inside)] using edge
    · exact less_of_length_le (by rw [List.length_append, List.length_singleton]; omega)
  · intro i hi child _
    have above := parent_lt hi
    exact less_of_length_le (by rw [List.length_append, List.length_singleton]; omega)

theorem repair_perm (xs : List α) (k : Nat) : (repair r xs k).Perm xs := by
  unfold repair
  split
  · exact siftUp_perm r _ _ _
  · exact siftDown_perm r _ _ _

/-- `ys` keeps items of an ordered list at their positions, except at `k`. -/
structure Differs (xs ys : List α) (k : Nat) : Prop where
  bound : k < xs.length
  same : ∀ i a, i ≠ k → ys[i]? = some a → xs[i]? = some a

namespace Differs

variable (diff : Differs xs ys k)

include diff

theorem less (hi : i ≠ k) (hj : j ≠ k) (old : less r xs i j = false) : less r ys i j = false := by
  rw [less_eq_false_iff] at old ⊢
  exact fun a b ha hb => old a b (diff.same i a hi ha) (diff.same j b hj hb)

include weak order

theorem across (hi : 0 < i) (below : parent i = k) (hk : 0 < k) :
    Heap.less r ys i (parent k) = false := by
  have above := parent_lt hi
  have higher := parent_lt hk
  apply diff.less (by omega) (by omega)
  exact less_trans weak diff.bound (order k hk) (below ▸ order i hi)

/-- A replacement that its children do not precede only breaks the edge above. -/
theorem upOrdered (children : ∀ i, 0 < i → parent i = k → Heap.less r ys i k = false) :
    UpOrdered r ys k where
  edge i hi hk := by
    by_cases below : parent i = k
    · rw [below]
      exact children i hi below
    · exact diff.less hk below (order i hi)
  across _ := diff.across weak order

/-- A replacement that does not precede its parent only breaks the edges below. -/
theorem downOrdered (above : 0 < k → Heap.less r ys k (parent k) = false) : DownOrdered r ys k where
  edge i hi hp := by
    by_cases same : i = k
    · subst same
      exact above hi
    · exact diff.less same hp (order i hi)
  across _ := diff.across weak order

theorem repair_ordered (inside : k < ys.length) : Ordered r (repair r ys k) := by
  unfold repair
  split
  · next moves =>
    obtain ⟨hk, before⟩ := moves
    apply siftUp_ordered weak (Nat.le_refl _) inside
    apply diff.upOrdered weak order
    intro i hi below
    exact less_trans weak (Nat.lt_trans (parent_lt hk) inside) (less_asymm weak before)
      (diff.across weak order hi below hk)
  · next stays =>
    apply siftDown_ordered weak (Nat.le_add_right _ _) inside
    apply diff.downOrdered weak order
    intro hk
    simpa [hk] using stays

end Differs

theorem swap_last {a : α} (item : xs[k]? = some a) :
    swap xs k (xs.length - 1) = (swap xs k (xs.length - 1)).dropLast ++ [a] := by
  have bound := (List.getElem?_eq_some_iff.mp item).1
  have view := swap_getElem? bound (j := xs.length - 1) (by omega) (xs.length - 1)
  have full : swap xs k (xs.length - 1) ≠ [] := by
    intro empty
    have := congrArg List.length empty
    simp at this
    simp [this] at bound
  have last : (swap xs k (xs.length - 1)).getLast full = a := by
    rw [List.getLast_eq_getElem]
    apply Option.some.inj
    rw [← List.getElem?_eq_getElem, swap_length, view, if_pos rfl, item]
  rw [← last, List.dropLast_append_getLast]

theorem removeAt_perm {a : α} (item : xs[k]? = some a) : xs.Perm (a :: removeAt r xs k) := by
  have split := swap_last item
  have whole : xs.Perm (a :: (swap xs k (xs.length - 1)).dropLast) := by
    refine (swap_perm xs k (xs.length - 1)).symm.trans ?_
    nth_rewrite 1 [split]
    exact List.perm_append_singleton a (swap xs k (xs.length - 1)).dropLast
  unfold removeAt
  dsimp only
  split
  · exact whole.trans ((repair_perm _ k).symm.cons a)
  · exact whole

include weak order

theorem removeAt_ordered (bound : k < xs.length) : Ordered r (removeAt r xs k) := by
  have view := swap_getElem? bound (j := xs.length - 1) (by omega)
  have diff : Differs xs (swap xs k (xs.length - 1)).dropLast k := by
    refine ⟨bound, fun i a hi ha => ?_⟩
    have inside := (List.getElem?_eq_some_iff.mp ha).1
    rw [List.length_dropLast, swap_length] at inside
    rw [List.getElem?_dropLast, swap_length, if_pos inside, view] at ha
    simpa only [hi, Nat.ne_of_lt inside, if_false] using ha
  unfold removeAt
  dsimp only
  split
  · next inside => exact diff.repair_ordered weak order inside
  · next outside =>
    intro i hi
    have above := parent_lt hi
    by_cases inside : i < k
    · exact diff.less (by omega) (by omega) (order i hi)
    · exact less_of_length_le (by omega)

omit weak order in
theorem differs_set (bound : k < xs.length) (x : α) : Differs xs (xs.set k x) k := by
  refine ⟨bound, fun i a hi ha => ?_⟩
  grind

variable {old x : α} (item : xs[k]? = some old)

include item

/-- An item that moved forward is sifted up. -/
theorem siftUp_set_ordered (sooner : r old x = false) : Ordered r (siftUp r k (xs.set k x) k) := by
  have bound := (List.getElem?_eq_some_iff.mp item).1
  have diff := differs_set bound x
  apply siftUp_ordered weak (Nat.le_refl _) (by simpa using bound)
  apply diff.upOrdered weak order
  intro i hi below
  have above := parent_lt hi
  have child := order i hi
  rw [below, less_eq_false_iff] at child
  rw [less_eq_false_iff, List.getElem?_set_self bound]
  rintro a _ ha ⟨⟩
  exact weak.trans x old a sooner (child a old (diff.same i a (by omega) ha) item)

/-- An item that moved back is sifted down. -/
theorem siftDown_set_ordered (later : r x old = false) :
    Ordered r (siftDown r xs.length (xs.set k x) k) := by
  have bound := (List.getElem?_eq_some_iff.mp item).1
  have diff := differs_set bound x
  apply siftDown_ordered weak (by simp) (by simpa using bound)
  apply diff.downOrdered weak order
  intro hk
  have above := parent_lt hk
  have upper := order k hk
  rw [less_eq_false_iff] at upper
  rw [less_eq_false_iff, List.getElem?_set_self bound]
  rintro _ b ⟨⟩ hb
  exact weak.trans b old x (upper old b item (diff.same _ b (by omega) hb)) later

end Operations

end Heap
