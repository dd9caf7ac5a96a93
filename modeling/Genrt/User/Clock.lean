import Genrt.Sched.Punctuality

/-!
# The clock of a user process

The C library reads the counter itself. It computes in 64 bits, with its own bound on
the frequency, what the kernel computes in 128 bits. Sums and products of the library
are taken modulo `2 ^ 64`, as C takes them.
-/

namespace Genrt

def uint32Max : Nat := 2 ^ 32 - 1

def uint64Max : Nat := 2 ^ 64 - 1

def int64Max : Nat := 2 ^ 63 - 1

/-- A product of `uint64_t` values. -/
def mulU64 (left right : Nat) : Nat := left * right % u64Limit

/-- A difference of `uint64_t` values. -/
def subU64 (left right : Nat) : Nat := (left + u64Limit - right) % u64Limit

/-- A `uint64_t` value as a `long`. -/
def toLong (value : Nat) : Int := if value ≤ int64Max then value else value - (2 ^ 64 : Int)

structure Timespec where
  tvSec : Int
  tvNsec : Int
deriving DecidableEq, Repr

/-- Times are compared by their seconds first. -/
def Timespec.NotAfter (left right : Timespec) : Prop :=
  left.tvSec < right.tvSec ∨ (left.tvSec = right.tvSec ∧ left.tvNsec ≤ right.tvNsec)

/-- The kernel's time in the fields of the library. -/
def Timespec.ofMonotonic (time : MonotonicTime) : Timespec := ⟨time.seconds, time.nanoseconds⟩

/-- Larger frequencies are read as zero. -/
def clockFrequency (counterFrequency : Nat) : Nat :=
  if counterFrequency ≤ uint32Max then counterFrequency else 0

/-- `clock_gettime`; `tp` says whether the result pointer is not null. -/
def clockGettime (clockid : Int) (tp : Bool) (counterFrequency counter : Nat) :
    Except ClockErrno Timespec :=
  if clockid ≠ clockMonotonic then .error .einval
  else if tp = false then .error .efault
  else
    let frequency := clockFrequency counterFrequency
    if frequency = 0 then .error .einval
    else
      let seconds := counter / frequency
      if int64Max < seconds then .error .eoverflow
      else
        .ok { tvSec := toLong seconds
              tvNsec := toLong (mulU64 (counter % frequency) nanosecondsPerSecond / frequency) }

/-- `clock_getres` stores a result if the pointer is not null. -/
def clockGetres (clockid : Int) (res : Bool) (counterFrequency : Nat) :
    Except ClockErrno (Option Timespec) :=
  if clockid ≠ clockMonotonic then .error .einval
  else
    let frequency := clockFrequency counterFrequency
    if frequency = 0 then .error .einval
    else if res = false then .ok none
    else
      let tick := subU64 (wrappingAddU64 nanosecondsPerSecond frequency) 1 / frequency
      .ok (some { tvSec := toLong (tick / nanosecondsPerSecond)
                  tvNsec := toLong (tick % nanosecondsPerSecond) })

/-- `rtbench_add` fails if the sum does not fit. -/
def rtbenchAdd (lhs rhs : Nat) : Option Nat :=
  if uint64Max - lhs < rhs then none else some (wrappingAddU64 lhs rhs)

/-- `profile_deadline_ticks`, the counter value of a time in nanoseconds. -/
def profileDeadlineTicks (ns frequency : Nat) : Option Nat :=
  if frequency = 0 ∨ uint32Max < frequency ∨
      uint64Max / frequency < ns / nanosecondsPerSecond then none
  else
    let remainder := mulU64 (ns % nanosecondsPerSecond) frequency
    rtbenchAdd (mulU64 (ns / nanosecondsPerSecond) frequency)
      (remainder / nanosecondsPerSecond + if remainder % nanosecondsPerSecond ≠ 0 then 1 else 0)

/-- The kernel's resolution: the length of a count, rounded up to nanoseconds. -/
def monotonicResolution (frequency : Nat) : Except TimeConversionError MonotonicTime :=
  if frequency = 0 then .error .invalidFrequency
  else
    let nanoseconds := max (divCeil nanosecondsPerSecond frequency) 1
    .ok ⟨nanoseconds / nanosecondsPerSecond, nanoseconds % nanosecondsPerSecond⟩

section Agreement

variable {frequency : Nat}

theorem clockFrequency_eq (bounded : frequency ≤ uint32Max) :
    clockFrequency frequency = frequency :=
  if_pos bounded

theorem toLong_eq {value : Nat} (small : value ≤ int64Max) : toLong value = value := if_pos small

theorem product_fits {left right : Nat} (less : left ≤ uint32Max) (short : right ≤ uint32Max) :
    left * right < u64Limit := by
  calc left * right ≤ uint32Max * uint32Max := Nat.mul_le_mul less short
    _ < u64Limit := by decide

theorem mulU64_eq {left right : Nat} (fits : left * right < u64Limit) :
    mulU64 left right = left * right := Nat.mod_eq_of_lt fits

theorem nanoseconds_fit : nanosecondsPerSecond ≤ uint32Max := by decide

/-- The remainder of the counter in nanoseconds. -/
theorem remainder_fits (positive : 0 < frequency) (bounded : frequency ≤ uint32Max)
    (counter : Nat) : counter % frequency * nanosecondsPerSecond < u64Limit :=
  product_fits (Nat.le_trans (Nat.le_of_lt (Nat.mod_lt _ positive)) bounded) nanoseconds_fit

/-- The fraction of a second in counts. -/
theorem fraction_fits (bounded : frequency ≤ uint32Max) (ns : Nat) :
    ns % nanosecondsPerSecond * frequency < u64Limit :=
  product_fits (Nat.le_trans (Nat.le_of_lt (Nat.mod_lt _ (by decide))) nanoseconds_fit) bounded

section

variable (positive : 0 < frequency)

include positive

/-- The library's guard on the whole seconds is the test of their product. -/
theorem seconds_fit_iff (seconds : Nat) :
    seconds ≤ uint64Max / frequency ↔ seconds * frequency < u64Limit := by
  rw [Nat.le_div_iff_mul_le positive]
  exact Nat.lt_succ_iff.symm

theorem clockGettime_eq (bounded : frequency ≤ uint32Max) (counter : Nat) :
    ∃ time, counterToMonotonicTimeAtFrequency counter frequency = .ok time ∧
      clockGettime clockMonotonic true frequency counter =
        if time.seconds ≤ int64Max then .ok (.ofMonotonic time) else .error .eoverflow := by
  have nonzero : frequency ≠ 0 := Nat.ne_of_gt positive
  have short := fraction_lt_second positive counter
  have narrow : counter % frequency * nanosecondsPerSecond / frequency < 2 ^ 32 :=
    Nat.lt_trans short (by decide)
  have small : counter % frequency * nanosecondsPerSecond / frequency ≤ int64Max :=
    Nat.le_trans (Nat.le_of_lt narrow) (by decide)
  refine ⟨⟨counter / frequency, counter % frequency * nanosecondsPerSecond / frequency⟩, ?_, ?_⟩
  · rw [counterToMonotonicTimeAtFrequency, if_neg nonzero, Nat.mod_eq_of_lt narrow]
  · simp only [clockGettime, clockFrequency_eq bounded, ne_eq, not_true_eq_false, if_false,
      Bool.true_eq_false, nonzero, mulU64_eq (remainder_fits positive bounded counter)]
    by_cases fits : counter / frequency ≤ int64Max
    · rw [if_neg (Nat.not_lt.mpr fits), if_pos fits, toLong_eq fits, toLong_eq small]
      rfl
    · rw [if_pos (Nat.lt_of_not_le fits), if_neg fits]

/-- A count is never shorter than the resolution says. -/
theorem divCeil_eq : (nanosecondsPerSecond + (frequency - 1)) / frequency =
    divCeil nanosecondsPerSecond frequency := by
  apply Nat.le_antisymm
  · have above : nanosecondsPerSecond ≤ divCeil nanosecondsPerSecond frequency * frequency :=
      (divCeil_le_iff positive).mp le_rfl
    rw [← Nat.lt_succ_iff, Nat.div_lt_iff_lt_mul positive, Nat.succ_mul]
    omega
  · have split := Nat.div_add_mod (nanosecondsPerSecond + (frequency - 1)) frequency
    have small := Nat.mod_lt (nanosecondsPerSecond + (frequency - 1)) positive
    rw [divCeil_le_iff positive, Nat.mul_comm]
    omega

theorem clockGetres_eq (bounded : frequency ≤ uint32Max) :
    ∃ resolution, monotonicResolution frequency = .ok resolution ∧
      clockGetres clockMonotonic true frequency = .ok (some (.ofMonotonic resolution)) := by
  have nonzero : frequency ≠ 0 := Nat.ne_of_gt positive
  have sum : subU64 (wrappingAddU64 nanosecondsPerSecond frequency) 1 =
      nanosecondsPerSecond + (frequency - 1) := by
    unfold uint32Max at bounded
    unfold subU64 wrappingAddU64 nanosecondsPerSecond u64Limit
    omega
  have some_time : 1 ≤ divCeil nanosecondsPerSecond frequency := by
    refine Nat.pos_of_ne_zero fun zero => ?_
    have none := (divCeil_le_iff positive).mp (Nat.le_of_eq zero)
    simp [nanosecondsPerSecond] at none
  have second : divCeil nanosecondsPerSecond frequency ≤ nanosecondsPerSecond := by
    rw [divCeil_le_iff positive]
    exact Nat.le_mul_of_pos_right _ positive
  refine ⟨_, if_neg nonzero, ?_⟩
  simp only [clockGetres, clockFrequency_eq bounded, ne_eq, not_true_eq_false, if_false,
    Bool.true_eq_false, nonzero, sum, divCeil_eq positive, Nat.max_eq_left some_time]
  rw [toLong_eq, toLong_eq]
  · rfl
  · exact Nat.le_trans (Nat.le_trans (Nat.mod_le _ _) second) (by decide)
  · exact Nat.le_trans (Nat.le_trans (Nat.div_le_self _ _) second) (by decide)

end

/-- The library's rounded quotient. -/
theorem roundedQuotient_eq (product : Nat) :
    (product / nanosecondsPerSecond + if product % nanosecondsPerSecond ≠ 0 then 1 else 0) =
      divCeil product nanosecondsPerSecond := by
  unfold divCeil
  by_cases exact_quotient : product % nanosecondsPerSecond = 0
  · rw [if_neg (not_not.mpr exact_quotient), if_neg (by omega), Nat.add_zero]
  · rw [if_pos exact_quotient, if_pos (Nat.pos_of_ne_zero exact_quotient)]

theorem rtbenchAdd_eq {lhs : Nat} (word : lhs < u64Limit) (rhs : Nat) :
    rtbenchAdd lhs rhs = if lhs + rhs < u64Limit then some (lhs + rhs) else none := by
  unfold rtbenchAdd uint64Max
  by_cases fits : lhs + rhs < u64Limit
  · rw [if_pos fits, wrappingAddU64, Nat.mod_eq_of_lt fits]
    refine if_neg ?_
    unfold u64Limit at fits
    omega
  · rw [if_neg fits]
    refine if_pos ?_
    unfold u64Limit at fits word
    omega

/-- The time that a number of nanoseconds is. -/
def timeOfNanoseconds (ns : Nat) : MonotonicTime :=
  ⟨ns / nanosecondsPerSecond, ns % nanosecondsPerSecond⟩

theorem profileDeadlineTicks_eq (positive : 0 < frequency) (bounded : frequency ≤ uint32Max)
    (ns : Nat) : profileDeadlineTicks ns frequency =
      if firstCounter frequency (timeOfNanoseconds ns) < u64Limit then
        some (firstCounter frequency (timeOfNanoseconds ns))
      else none := by
  have nonzero : frequency ≠ 0 := Nat.ne_of_gt positive
  by_cases whole : ns / nanosecondsPerSecond * frequency < u64Limit
  · have guard : ¬ (frequency = 0 ∨ uint32Max < frequency ∨
        uint64Max / frequency < ns / nanosecondsPerSecond) := by
      simp only [nonzero, false_or, not_or, Nat.not_lt]
      exact ⟨bounded, (seconds_fit_iff positive _).mpr whole⟩
    rw [profileDeadlineTicks, if_neg guard]
    dsimp only
    rw [mulU64_eq (fraction_fits bounded ns), mulU64_eq whole, roundedQuotient_eq,
      rtbenchAdd_eq whole]
    rfl
  · have guard : frequency = 0 ∨ uint32Max < frequency ∨
        uint64Max / frequency < ns / nanosecondsPerSecond :=
      .inr (.inr (Nat.lt_of_not_le fun le => whole ((seconds_fit_iff positive _).mp le)))
    rw [profileDeadlineTicks, if_pos guard, if_neg]
    unfold firstCounter timeOfNanoseconds
    dsimp only
    omega

end Agreement

/-- The user's clock agrees with the kernel's at every frequency the architecture
allows. The library reads the kernel's time unless its seconds do not fit in a `long`,
reports the kernel's resolution, and converts a time to the kernel's counter value or
fails with it; no product of the library wraps. So a time read after an absolute sleep
to `t` has succeeded is not before `t`, as long as the 64-bit counter has not wrapped. -/
theorem user_time_agrees (frequency : Nat) (positive : 0 < frequency)
    (bounded : frequency ≤ uint32Max) :
    (∀ counter < u64Limit, ∃ time,
      counterToMonotonicTimeAtFrequency counter frequency = .ok time ∧
        clockGettime clockMonotonic true frequency counter =
          if time.seconds ≤ int64Max then .ok (.ofMonotonic time) else .error .eoverflow) ∧
    (∃ resolution, monotonicResolution frequency = .ok resolution ∧
      clockGetres clockMonotonic true frequency = .ok (some (.ofMonotonic resolution))) ∧
    (∀ ns < u64Limit,
      (∀ ticks, profileDeadlineTicks ns frequency = some ticks ↔ monotonicTimeToCounterAtFrequency
        (ns / nanosecondsPerSecond) (ns % nanosecondsPerSecond) frequency = .ok ticks) ∧
      (profileDeadlineTicks ns frequency = none ↔ monotonicTimeToCounterAtFrequency
        (ns / nanosecondsPerSecond) (ns % nanosecondsPerSecond) frequency = .error .overflow)) ∧
    (∀ counter < u64Limit, counter % frequency * nanosecondsPerSecond < u64Limit) ∧
    (∀ ns < u64Limit, ns % nanosecondsPerSecond * frequency < u64Limit ∧
      (ns / nanosecondsPerSecond ≤ uint64Max / frequency →
        ns / nanosecondsPerSecond * frequency < u64Limit)) ∧
    (∀ s, Sleepers.machine.Reachable s → s.frequency = frequency → s.clock < u64Limit →
      ∀ request clock, (.user request, clock) ∈ s.ended → request.flags = timerAbstime →
        ∃ seconds nanoseconds, request.requested = some (seconds, nanoseconds) ∧ ∀ value,
          clockGettime clockMonotonic true frequency s.nowCounter = .ok value →
            Timespec.NotAfter ⟨seconds, nanoseconds⟩ value) := by
  refine ⟨fun counter _ => clockGettime_eq positive bounded counter,
    clockGetres_eq positive bounded,
    fun ns _ => ?_, fun counter _ => remainder_fits positive bounded counter,
    fun ns _ => ⟨fraction_fits bounded ns, (seconds_fit_iff positive _).mp⟩, ?_⟩
  · have converted : monotonicTimeToCounterAtFrequency (ns / nanosecondsPerSecond)
        (ns % nanosecondsPerSecond) frequency =
        if firstCounter frequency (timeOfNanoseconds ns) < u64Limit then
          .ok (firstCounter frequency (timeOfNanoseconds ns))
        else .error .overflow :=
      monotonicTimeToCounter_eq positive (Nat.lt_of_le_of_lt bounded (by decide))
        (timeOfNanoseconds ns) (Nat.mod_lt _ (by decide))
    rw [profileDeadlineTicks_eq positive bounded, converted]
    split <;> simp
  · rintro s reached rfl unwrapped request clock success absolute
    obtain ⟨before, done⟩ := Sleepers.ended_over reached success
    obtain ⟨time, passed, come⟩ := done absolute
    obtain ⟨normalized, given⟩ := NanosleepRequest.time_eq_ok passed
    refine ⟨_, _, given, fun value read => ?_⟩
    have now : s.nowCounter = s.clock := Nat.mod_eq_of_lt unwrapped
    have shown : Shows s.frequency s.nowCounter time := by
      rw [shows_iff positive normalized, now]
      exact Nat.le_trans come before
    obtain ⟨observed, conversion, gettime⟩ := clockGettime_eq positive bounded s.nowCounter
    obtain ⟨_, same, after⟩ := shown
    cases conversion.symm.trans same
    rw [gettime] at read
    split at read
    · cases read
      unfold Timespec.NotAfter Timespec.ofMonotonic
      unfold MonotonicTime.NotAfter at after
      dsimp only
      omega
    · cases read

/-- At 19.2 MHz, with a sleep until the first microsecond that blocks for two counts. -/
theorem user_time_agrees_pi :
    (∃ time, counterToMonotonicTimeAtFrequency 28800000 19200000 = .ok time ∧
      clockGettime clockMonotonic true 19200000 28800000 =
        if time.seconds ≤ int64Max then .ok (.ofMonotonic time) else .error .eoverflow) ∧
    clockGettime clockMonotonic true 19200000 28800000 = .ok ⟨1, 500000000⟩ ∧
    profileDeadlineTicks 1500000000 19200000 = some 28800000 ∧
    ∃ s, Sleepers.machine.Reachable s ∧ s.nowCounter = 20 ∧
      (.user ⟨clockMonotonic, timerAbstime, some (0, 1000)⟩, 20) ∈ s.ended ∧
      clockGettime clockMonotonic true 19200000 s.nowCounter = .ok ⟨0, 1041⟩ ∧
      Timespec.NotAfter ⟨0, 1000⟩ ⟨0, 1041⟩ := by
  have agrees := user_time_agrees 19200000 (by decide) (by decide)
  refine ⟨agrees.1 28800000 (by decide), by decide, by decide, ?_⟩
  obtain ⟨s, reached, shown⟩ := Sleepers.exists_played 19200000 18
    [.nanosleep ⟨1, 1⟩ ⟨clockMonotonic, timerAbstime, some (0, 1000)⟩, .advance ⟨1, 1⟩,
      .advance ⟨1, 1⟩, .tick, .tick, .popExpired 0, .complete ⟨⟨1, 1⟩, 0, 1⟩, .advance ⟨1, 1⟩]
    (fun s => decide (s.frequency = 19200000 ∧ s.clock = 20) && decide
      ((.user ⟨clockMonotonic, timerAbstime, some (0, 1000)⟩, 20) ∈ s.ended)) (by decide +kernel)
  rw [Bool.and_eq_true, decide_eq_true_eq, decide_eq_true_eq] at shown
  obtain ⟨⟨frequency, clock⟩, slept⟩ := shown
  have now : s.nowCounter = 20 := by rw [Sleepers.nowCounter, clock]; rfl
  have read : clockGettime clockMonotonic true 19200000 s.nowCounter = .ok ⟨0, 1041⟩ := by
    rw [now]
    decide
  obtain ⟨_, _, given, after⟩ := agrees.2.2.2.2.2 s reached frequency (by rw [clock]; decide) _ _
    slept rfl
  cases given
  exact ⟨s, reached, now, slept, read, after _ read⟩

end Genrt
