import Genrt.Foundation.Effect

/-!
# Byte memories, words and counted loops

A memory maps addresses to bytes. A word is stored with its lowest byte first, so that
reading some bytes as a word and writing that word copies the bytes.

A loop that counts up to a limit runs its body for the values of the counter. Its rule
asks for an invariant of the counter.
-/

namespace Words

abbrev ByteMemory := Nat → UInt8

def ofBytes : List UInt8 → Nat
  | [] => 0
  | byte :: rest => byte.toNat + 256 * ofBytes rest

def toBytes : Nat → Nat → List UInt8
  | 0, _ => []
  | size + 1, word => UInt8.ofNat word :: toBytes size (word / 256)

def load (memory : ByteMemory) (address : Nat) : Nat → List UInt8
  | 0 => []
  | size + 1 => memory address :: load memory (address + 1) size

def store (memory : ByteMemory) (address : Nat) (bytes : List UInt8) : ByteMemory := fun place =>
  if address ≤ place then (bytes[place - address]?).getD (memory place) else memory place

/-- The bytes of a range are replaced by those of another memory. -/
def copyRange (target : ByteMemory) (base : Nat) (source : ByteMemory) (start size : Nat) :
    ByteMemory := fun place =>
  if base ≤ place ∧ place < base + size then source (start + (place - base)) else target place

theorem ofNat_toNat_add (byte : UInt8) (rest : Nat) :
    UInt8.ofNat (byte.toNat + 256 * rest) = byte := by
  apply UInt8.toNat_inj.mp
  have bound := byte.toNat_lt
  rw [UInt8.toNat_ofNat']
  omega

theorem toBytes_ofBytes (bytes : List UInt8) : toBytes bytes.length (ofBytes bytes) = bytes := by
  induction bytes with
  | nil => rfl
  | cons byte rest ih =>
    have bound := byte.toNat_lt
    have shifted : (byte.toNat + 256 * ofBytes rest) / 256 = ofBytes rest := by omega
    rw [List.length_cons, ofBytes, toBytes, ofNat_toNat_add, shifted, ih]

theorem length_load (memory : ByteMemory) (address size : Nat) :
    (load memory address size).length = size := by
  induction size generalizing address with
  | zero => rfl
  | succ size ih => rw [load, List.length_cons, ih]

theorem getElem?_load (memory : ByteMemory) (address size index : Nat) :
    (load memory address size)[index]? =
      if index < size then some (memory (address + index)) else none := by
  induction size generalizing address index with
  | zero => rfl
  | succ size ih =>
    cases index with
    | zero => simp [load]
    | succ index =>
      rw [load, List.getElem?_cons_succ, ih]
      simp only [Nat.add_lt_add_iff_right, Nat.add_assoc, Nat.add_comm 1]

theorem load_succ (memory : ByteMemory) (address size : Nat) :
    load memory address (size + 1) = load memory address size ++ [memory (address + size)] := by
  induction size generalizing address with
  | zero => rfl
  | succ size ih =>
    rw [load, ih, load, List.cons_append, Nat.add_assoc, Nat.add_comm 1]

theorem load_add (memory : ByteMemory) (address size more : Nat) :
    load memory address (size + more) =
      load memory address size ++ load memory (address + size) more := by
  induction size generalizing address with
  | zero => rw [Nat.zero_add, load, List.nil_append, Nat.add_zero]
  | succ size ih =>
    rw [Nat.succ_add, load, ih, load, List.cons_append, Nat.add_assoc, Nat.add_comm 1]

variable {memory : ByteMemory} {address place start step : Nat}

/-- Only the bytes of the range matter. -/
theorem load_congr {other : ByteMemory} {size : Nat}
    (same : ∀ index < size, memory (address + index) = other (place + index)) :
    load memory address size = load other place size := by
  apply List.ext_getElem?
  intro index
  rw [getElem?_load, getElem?_load]
  split
  · next inside => rw [same index inside]
  · rfl

/-- The parts of a loaded list are loaded from the parts of the range. -/
theorem load_parts {first second : List UInt8}
    (whole : load memory address (first ++ second).length = first ++ second) :
    load memory address first.length = first ∧
      load memory (address + first.length) second.length = second := by
  rw [List.length_append, load_add] at whole
  exact List.append_inj whole (length_load ..)

theorem length_toBytes (size word : Nat) : (toBytes size word).length = size := by
  induction size generalizing word with
  | zero => rfl
  | succ size ih => rw [toBytes, List.length_cons, ih]

theorem ofBytes_toBytes {size word : Nat} (fits : word < 256 ^ size) :
    ofBytes (toBytes size word) = word := by
  induction size generalizing word with
  | zero => exact (Nat.lt_one_iff.mp fits).symm
  | succ size ih =>
    have rest : word / 256 < 256 ^ size := by
      rw [Nat.div_lt_iff_lt_mul (by decide)]
      rwa [← Nat.pow_succ]
    rw [toBytes, ofBytes, ih rest, UInt8.toNat_ofNat']
    omega

theorem toBytes_word (memory : ByteMemory) (address size : Nat) :
    toBytes size (ofBytes (load memory address size)) = load memory address size := by
  have bytes := toBytes_ofBytes (load memory address size)
  rwa [length_load] at bytes

theorem store_load (target : ByteMemory) (base : Nat) (source : ByteMemory) (start size : Nat) :
    store target base (load source start size) = copyRange target base source start size := by
  funext place
  rw [store, copyRange, getElem?_load]
  by_cases above : base ≤ place
  · by_cases below : place < base + size
    · rw [if_pos above, if_pos (by omega), if_pos ⟨above, below⟩, Option.getD_some]
    · rw [if_pos above, if_neg (by omega), if_neg (by omega), Option.getD_none]
  · rw [if_neg above, if_neg (by omega)]

theorem store_of_outside {bytes : List UInt8}
    (outside : place < address ∨ address + bytes.length ≤ place) :
    store memory address bytes place = memory place := by
  rw [store]
  split
  · rw [List.getElem?_eq_none (by omega), Option.getD_none]
  · rfl

theorem load_store (memory : ByteMemory) (address : Nat) (bytes : List UInt8) :
    load (store memory address bytes) address bytes.length = bytes := by
  apply List.ext_getElem?
  intro index
  rw [getElem?_load]
  split
  · next inside =>
    rw [store, if_pos (Nat.le_add_right ..), Nat.add_sub_cancel_left,
      List.getElem?_eq_getElem inside, Option.getD_some]
  · next outside => rw [List.getElem?_eq_none (Nat.not_lt.mp outside)]

@[simp] theorem copyRange_zero (target : ByteMemory) (base : Nat) (source : ByteMemory)
    (start : Nat) : copyRange target base source start 0 = target := by
  funext place
  rw [copyRange, if_neg (by omega)]

/-- Copies of adjacent ranges make one copy. -/
theorem copyRange_add (target : ByteMemory) (base : Nat) (source : ByteMemory)
    (start size more : Nat) :
    copyRange (copyRange target base source start size) (base + size) source (start + size) more =
      copyRange target base source start (size + more) := by
  funext place
  simp only [copyRange]
  by_cases first : base ≤ place ∧ place < base + size
  · rw [if_neg (by omega), if_pos first, if_pos (by omega)]
  · by_cases second : base + size ≤ place ∧ place < base + size + more
    · rw [if_pos second, if_pos (by omega)]
      congr 1
      omega
    · rw [if_neg second, if_neg first, if_neg (by omega)]

/-! ### Counted loops -/

/-- The values of a counter that grows by a step while it is below the limit. -/
def counter (start limit step : Nat) : List Nat :=
  List.range' start ((limit - start + (step - 1)) / step) step

theorem counter_whole (positive : 0 < step) (rounds : Nat) :
    counter start (start + rounds * step) step = List.range' start rounds step := by
  rw [counter, Nat.add_sub_cancel_left, Nat.add_comm, Nat.mul_comm,
    Nat.add_mul_div_left _ _ positive, Nat.div_eq_of_lt (by omega), Nat.zero_add]

theorem mem_counter {limit value : Nat} (positive : 0 < step) : value ∈ counter start limit step ↔
      start ≤ value ∧ value < limit ∧ (value - start) % step = 0 := by
  rw [counter, List.mem_range']
  constructor
  · rintro ⟨round, below, rfl⟩
    have scaled := (Nat.lt_div_iff_mul_lt positive).mp below
    refine ⟨by omega, ?_, ?_⟩
    · rw [Nat.mul_comm] at scaled
      omega
    · rw [Nat.add_sub_cancel_left, Nat.mul_mod_right]
  · rintro ⟨above, below, whole⟩
    refine ⟨(value - start) / step, ?_, ?_⟩
    · rw [Nat.lt_div_iff_mul_lt positive]
      have parts := Nat.div_add_mod (value - start) step
      rw [Nat.mul_comm] at parts
      omega
    · have parts := Nat.div_add_mod (value - start) step
      omega

variable {σ ε : Type} {E : ε → Prop}

/-- A counted loop keeps an invariant of its counter. -/
theorem wp_counter {rounds : Nat} {body : Nat → Effect σ ε Unit} (inv : Nat → σ → Prop)
    (positive : 0 < step) (keep : ∀ round < rounds, ∀ s, inv (start + round * step) s →
      Effect.WP E (body (start + round * step)) (fun _ t => inv (start + (round + 1) * step) t) s)
    {s : σ} (first : inv start s) :
    Effect.WP E (Effect.forEach (counter start (start + rounds * step) step) body)
      (fun _ t => inv (start + rounds * step) t) s := by
  rw [counter_whole positive]
  induction rounds generalizing start s with
  | zero =>
    rw [Nat.zero_mul]
    exact first
  | succ rounds ih =>
    rw [List.range'_succ, Effect.forEach, Effect.wp_bind]
    have once := keep 0 (Nat.succ_pos _) s (by simpa using first)
    simp only [Nat.zero_mul, Nat.add_zero, Nat.zero_add, Nat.one_mul] at once
    refine once.mono fun _ t held => ?_
    have shift : ∀ round, start + step + round * step = start + (round + 1) * step := by
      intro round
      rw [Nat.add_mul, Nat.one_mul]
      omega
    have rest : ∀ round < rounds, ∀ u, inv (start + step + round * step) u →
        Effect.WP E (body (start + step + round * step))
          (fun _ v => inv (start + step + (round + 1) * step) v) u := by
      intro round less u before
      rw [shift] at before ⊢
      rw [shift]
      exact keep (round + 1) (Nat.succ_lt_succ less) u before
    rw [← shift]
    exact ih rest held

end Words
