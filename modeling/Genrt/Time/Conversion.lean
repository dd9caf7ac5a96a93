import Genrt.Foundation.Result

/-!
# Counter values and civil time

The counter is a 64-bit word that advances at a fixed frequency. Reading it as a
time rounds down to a nanosecond; turning a time into a counter value rounds up.
The two roundings are adjoint: a counter value shows at least a given time exactly
from the converted value on.

Words are natural numbers below `2 ^ 64`; what the code computes in 128 bits fits,
so it is computed in the natural numbers. Where the code saturates or checks, the
model does.
-/

namespace Genrt

/-- One more than the largest 64-bit word. -/
def u64Limit : Nat := 2 ^ 64

/-- One more than the largest 128-bit word. -/
def u128Limit : Nat := 2 ^ 128

def nanosecondsPerSecond : Nat := 1000000000

inductive TimeConversionError where
  | invalidFrequency
  | overflow
deriving DecidableEq, Repr

/-- A normalized time: the fraction is below one second. -/
structure MonotonicTime where
  seconds : Nat
  nanoseconds : Nat
deriving DecidableEq, Repr

/-- Times are compared by their seconds first. -/
def MonotonicTime.NotAfter (left right : MonotonicTime) : Prop :=
  left.seconds < right.seconds ∨
    (left.seconds = right.seconds ∧ left.nanoseconds ≤ right.nanoseconds)

/-- The quotient rounded up, as the integer types compute it. -/
def divCeil (numerator denominator : Nat) : Nat :=
  if 0 < numerator % denominator then numerator / denominator + 1 else numerator / denominator

theorem divCeil_le_iff {numerator denominator bound : Nat} (positive : 0 < denominator) :
    divCeil numerator denominator ≤ bound ↔ numerator ≤ bound * denominator := by
  have split := Nat.div_add_mod numerator denominator
  have small := Nat.mod_lt numerator positive
  unfold divCeil
  split
  · rw [Nat.add_one_le_iff, Nat.div_lt_iff_lt_mul positive]
    constructor
    · exact Nat.le_of_lt
    · intro le
      refine Nat.lt_of_le_of_ne le fun same => ?_
      have whole : numerator % denominator = 0 := by rw [same, Nat.mul_mod_left]
      omega
  · have exact_quotient : numerator = numerator / denominator * denominator := by
      rw [Nat.mul_comm]
      omega
    constructor
    · intro le
      calc numerator = numerator / denominator * denominator := exact_quotient
        _ ≤ bound * denominator := Nat.mul_le_mul_right _ le
    · exact fun le => Nat.div_le_of_le_mul (by rwa [Nat.mul_comm])

def checkedMulU64 (left right : Nat) : Option Nat :=
  if left * right < u64Limit then some (left * right) else none

def checkedAddU64 (left right : Nat) : Option Nat :=
  if left + right < u64Limit then some (left + right) else none

def wrappingAddU64 (left right : Nat) : Nat := (left + right) % u64Limit

def orOverflow (value : Option Nat) : Except TimeConversionError Nat :=
  match value with
  | some value => .ok value
  | none => .error .overflow

/-- The time a counter value shows. -/
def counterToMonotonicTimeAtFrequency (counter frequency : Nat) :
    Except TimeConversionError MonotonicTime :=
  if frequency = 0 then .error .invalidFrequency
  else
    .ok { seconds := counter / frequency
          nanoseconds := counter % frequency * nanosecondsPerSecond / frequency % 2 ^ 32 }

/-- The fraction of a second in counts, when the product fits in 64 bits. -/
def fractionalNarrow (product : Nat) : Nat := divCeil product nanosecondsPerSecond

/-- The same through a 128-bit product. -/
def fractionalWide (nanoseconds frequency : Nat) : Except TimeConversionError Nat :=
  let counts := divCeil (nanoseconds * frequency) nanosecondsPerSecond
  if counts < u64Limit then .ok counts else .error .overflow

def fractionalCounts (nanoseconds frequency : Nat) : Except TimeConversionError Nat :=
  match checkedMulU64 nanoseconds frequency with
  | some product => .ok (fractionalNarrow product)
  | none => fractionalWide nanoseconds frequency

/-- The first counter value that shows a time, if the counter can reach it. -/
def monotonicTimeToCounterAtFrequency (seconds nanoseconds frequency : Nat) :
    Except TimeConversionError Nat := do
  if frequency = 0 then .error .invalidFrequency
  if nanosecondsPerSecond ≤ nanoseconds then .error .overflow
  let whole ← orOverflow (checkedMulU64 seconds frequency)
  let fractional ← fractionalCounts nanoseconds frequency
  orOverflow (checkedAddU64 whole fractional)

/-- A duration in counts, rounded up and saturated; a nonzero duration is at
least one count. -/
def scaleToCounts (frequency units denomPerSecond : Nat) : Nat :=
  if units = 0 then 0
  else
    let numerator := min (units * max frequency 1) (u128Limit - 1)
    min (max (divCeil numerator denomPerSecond) 1) (u64Limit - 1)

theorem scaleToCounts_eq (frequency units : Nat) {denomPerSecond : Nat}
    (positive : 0 < denomPerSecond) (word : denomPerSecond ≤ u64Limit) :
    scaleToCounts frequency units denomPerSecond =
      min (divCeil (units * max frequency 1) denomPerSecond) (u64Limit - 1) := by
  unfold scaleToCounts
  split
  · next zero => simp [zero, divCeil]
  · next nonzero =>
    have product : 0 < units * max frequency 1 :=
      Nat.mul_pos (Nat.pos_of_ne_zero nonzero) (Nat.le_max_right _ _)
    generalize units * max frequency 1 = numerator at product ⊢
    have least : ∀ {bound : Nat}, bound * denomPerSecond < numerator →
        bound < divCeil numerator denomPerSecond := fun {bound} lt => by
      rw [← Nat.not_le, divCeil_le_iff positive]
      exact Nat.not_le.mpr lt
    have some_counts : 0 < divCeil numerator denomPerSecond := least (by rwa [Nat.zero_mul])
    dsimp only
    by_cases narrow : numerator ≤ u128Limit - 1
    · rw [Nat.min_eq_left narrow, Nat.max_eq_left some_counts]
    · -- both roundings are too large for a word
      have wide : (u64Limit - 1) * denomPerSecond ≤ u128Limit - 1 :=
        Nat.le_trans (Nat.mul_le_mul_left _ word) (by decide)
      have saturated : u64Limit - 1 ≤ divCeil (u128Limit - 1) denomPerSecond := by
        refine Nat.le_of_pred_lt (Nat.not_le.mp fun le => ?_)
        have below := Nat.le_trans ((divCeil_le_iff positive).mp le) (Nat.mul_le_mul_left _ word)
        exact absurd below (by decide)
      rw [Nat.min_eq_right (Nat.le_of_not_le narrow),
        Nat.max_eq_left (Nat.le_trans (by decide) saturated),
        Nat.min_eq_right saturated, Nat.min_eq_right (Nat.le_of_lt (least (by omega)))]

/-! ### Reading and setting the clock -/

section Conversion

variable {frequency : Nat}

/-- The counter value shows at least the time. -/
def Shows (frequency counter : Nat) (time : MonotonicTime) : Prop :=
  ∃ observed, counterToMonotonicTimeAtFrequency counter frequency = .ok observed ∧
    time.NotAfter observed

/-- The smallest counter value that shows a time, without a bound on the counter. -/
def firstCounter (frequency : Nat) (time : MonotonicTime) : Nat :=
  time.seconds * frequency + divCeil (time.nanoseconds * frequency) nanosecondsPerSecond

theorem fraction_lt_second (positive : 0 < frequency) (counter : Nat) :
    counter % frequency * nanosecondsPerSecond / frequency < nanosecondsPerSecond := by
  rw [Nat.div_lt_iff_lt_mul positive, Nat.mul_comm]
  exact Nat.mul_lt_mul_of_pos_left (Nat.mod_lt _ positive) (by decide)

theorem shows_iff_fields (positive : 0 < frequency) (counter : Nat) (time : MonotonicTime) :
    Shows frequency counter time ↔
      time.seconds < counter / frequency ∨ (time.seconds = counter / frequency ∧
        time.nanoseconds ≤ counter % frequency * nanosecondsPerSecond / frequency) := by
  have narrow : counter % frequency * nanosecondsPerSecond / frequency < 2 ^ 32 :=
    Nat.lt_trans (fraction_lt_second positive counter) (by decide)
  rw [Shows, counterToMonotonicTimeAtFrequency, if_neg (Nat.ne_of_gt positive),
    Nat.mod_eq_of_lt narrow]
  constructor
  · rintro ⟨_, ⟨⟩, shown⟩
    exact shown
  · exact fun shown => ⟨_, rfl, shown⟩

variable {nanoseconds : Nat}

/-- A fraction of a second takes at most a second's counts. -/
theorem fraction_le_frequency (fraction : nanoseconds < nanosecondsPerSecond) :
    divCeil (nanoseconds * frequency) nanosecondsPerSecond ≤ frequency := by
  rw [divCeil_le_iff (by decide), Nat.mul_comm]
  exact Nat.mul_le_mul_left _ (Nat.le_of_lt fraction)

/-- Rounding down and rounding up are adjoint. -/
theorem shows_iff (positive : 0 < frequency) {time : MonotonicTime}
    (fraction : time.nanoseconds < nanosecondsPerSecond) (counter : Nat) :
    Shows frequency counter time ↔ firstCounter frequency time ≤ counter := by
  have whole : counter = counter / frequency * frequency + counter % frequency := by
    rw [Nat.mul_comm, Nat.div_add_mod]
  have rest := Nat.mod_lt counter positive
  have short : divCeil (time.nanoseconds * frequency) nanosecondsPerSecond ≤ frequency :=
    fraction_le_frequency fraction
  rw [shows_iff_fields positive, firstCounter]
  rcases Nat.lt_trichotomy time.seconds (counter / frequency) with less | same | more
  · have room : (time.seconds + 1) * frequency ≤ counter / frequency * frequency :=
      Nat.mul_le_mul_right _ less
    rw [Nat.add_one_mul] at room
    exact iff_of_true (.inl less) (by omega)
  · rw [same, Nat.le_div_iff_mul_le positive, ← divCeil_le_iff (by decide)]
    omega
  · have room : (counter / frequency + 1) * frequency ≤ time.seconds * frequency :=
      Nat.mul_le_mul_right _ more
    rw [Nat.add_one_mul] at room
    exact iff_of_false (by omega) (by omega)

/-- Both ways to convert the fraction give the rounded quotient. -/
theorem fractionalWide_eq (fraction : nanoseconds < nanosecondsPerSecond)
    (word : frequency < u64Limit) : fractionalWide nanoseconds frequency =
      .ok (divCeil (nanoseconds * frequency) nanosecondsPerSecond) :=
  if_pos (Nat.lt_of_le_of_lt (fraction_le_frequency fraction) word)

theorem fractionalCounts_eq (fraction : nanoseconds < nanosecondsPerSecond)
    (word : frequency < u64Limit) : fractionalCounts nanoseconds frequency =
      .ok (divCeil (nanoseconds * frequency) nanosecondsPerSecond) := by
  unfold fractionalCounts checkedMulU64
  split
  · next product fits =>
    split at fits
    · cases fits
      rfl
    · cases fits
  · exact fractionalWide_eq fraction word

theorem monotonicTimeToCounter_eq (positive : 0 < frequency) (word : frequency < u64Limit)
    (time : MonotonicTime) (fraction : time.nanoseconds < nanosecondsPerSecond) :
    monotonicTimeToCounterAtFrequency time.seconds time.nanoseconds frequency =
      if firstCounter frequency time < u64Limit then .ok (firstCounter frequency time)
      else .error .overflow := by
  rw [monotonicTimeToCounterAtFrequency, if_neg (Nat.ne_of_gt positive),
    if_neg (Nat.not_le_of_lt fraction), fractionalCounts_eq fraction word]
  unfold firstCounter checkedMulU64
  by_cases whole : time.seconds * frequency < u64Limit
  · rw [if_pos whole]
    simp only [orOverflow, checkedAddU64, bind, Except.bind]
    split_ifs <;> rfl
  · rw [if_neg whole, if_neg (by omega)]
    rfl

theorem fractionalCounts_of_ok {counts : Nat}
    (counted : fractionalCounts nanoseconds frequency = .ok counts) :
    counts = divCeil (nanoseconds * frequency) nanosecondsPerSecond := by
  unfold fractionalCounts checkedMulU64 at counted
  split_ifs at counted
  · cases counted
    rfl
  · dsimp only [fractionalWide] at counted
    split_ifs at counted
    cases counted
    rfl

/-- A conversion that succeeds gives the smallest counter value that shows the time. -/
theorem firstCounter_of_ok {time : MonotonicTime} {counter : Nat}
    (converted : monotonicTimeToCounterAtFrequency time.seconds time.nanoseconds frequency =
      .ok counter) : counter = firstCounter frequency time := by
  by_cases zero : frequency = 0
  · rw [monotonicTimeToCounterAtFrequency, if_pos zero] at converted
    cases converted
  by_cases whole : nanosecondsPerSecond ≤ time.nanoseconds
  · rw [monotonicTimeToCounterAtFrequency, if_neg zero, if_pos whole] at converted
    cases converted
  rw [monotonicTimeToCounterAtFrequency, if_neg zero, if_neg whole] at converted
  obtain ⟨seconds, multiplied, converted⟩ := Result.bind_eq_ok.mp converted
  obtain ⟨fractional, counted, added⟩ := Result.bind_eq_ok.mp converted
  rw [fractionalCounts_of_ok counted] at added
  unfold checkedMulU64 orOverflow at multiplied
  unfold checkedAddU64 orOverflow at added
  split_ifs at multiplied added
  cases multiplied
  cases added
  rfl

/-- Absolute times convert exactly. The result is the first counter value that
shows the time, an overflow is reported when that value does not fit in a word,
and the narrow product gives what the wide one does. -/
theorem absolute_conversion_exact (frequency : Nat) (positive : 0 < frequency)
    (word : frequency < u64Limit) (seconds nanoseconds : Nat)
    (fraction : nanoseconds < nanosecondsPerSecond) :
    (∀ counter, monotonicTimeToCounterAtFrequency seconds nanoseconds frequency = .ok counter →
      counter < u64Limit ∧
      ∀ c, ∃ observed, counterToMonotonicTimeAtFrequency c frequency = .ok observed ∧
        (MonotonicTime.NotAfter ⟨seconds, nanoseconds⟩ observed ↔ counter ≤ c)) ∧
    (∃ least, IsLeast {c | Shows frequency c ⟨seconds, nanoseconds⟩} least ∧
      (monotonicTimeToCounterAtFrequency seconds nanoseconds frequency = .error .overflow ↔
        u64Limit ≤ least)) ∧ (∀ product, checkedMulU64 nanoseconds frequency = some product →
      .ok (fractionalNarrow product) = fractionalWide nanoseconds frequency) := by
  let time : MonotonicTime := ⟨seconds, nanoseconds⟩
  have adjoint : ∀ c, Shows frequency c time ↔ firstCounter frequency time ≤ c :=
    shows_iff positive fraction
  have converted : monotonicTimeToCounterAtFrequency seconds nanoseconds frequency =
      if firstCounter frequency time < u64Limit then .ok (firstCounter frequency time)
      else .error .overflow := monotonicTimeToCounter_eq positive word time fraction
  refine ⟨?_, ⟨firstCounter frequency time, ⟨?_, ?_⟩, ?_⟩, ?_⟩
  · intro counter found
    rw [converted] at found
    split at found
    · next fits =>
      cases found
      refine ⟨fits, fun c => ?_⟩
      have shown := adjoint c
      rw [Shows, counterToMonotonicTimeAtFrequency, if_neg (Nat.ne_of_gt positive)] at shown
      rw [counterToMonotonicTimeAtFrequency, if_neg (Nat.ne_of_gt positive)]
      exact ⟨_, rfl, by simpa using shown⟩
    · cases found
  · exact (adjoint _).mpr le_rfl
  · exact fun c shown => (adjoint c).mp shown
  · rw [converted]
    split
    · exact iff_of_false (by simp) (by omega)
    · exact iff_of_true rfl (by omega)
  · intro product fits
    rw [fractionalWide_eq fraction word]
    unfold checkedMulU64 at fits
    split at fits
    · cases fits
      rfl
    · cases fits

/-- At 19.2 MHz one nanosecond past a second is shown one count later. -/
theorem absolute_conversion_exact_pi :
    monotonicTimeToCounterAtFrequency 1 1 19200000 = .ok 19200001 ∧
      ∀ c, ∃ observed, counterToMonotonicTimeAtFrequency c 19200000 = .ok observed ∧
        (MonotonicTime.NotAfter ⟨1, 1⟩ observed ↔ 19200001 ≤ c) := by
  have converted : monotonicTimeToCounterAtFrequency 1 1 19200000 = .ok 19200001 := by decide
  have exact_at :=
    absolute_conversion_exact 19200000 (by decide) (by decide) 1 1 (by decide)
  exact ⟨converted, (exact_at.1 19200001 converted).2⟩

end Conversion

end Genrt
