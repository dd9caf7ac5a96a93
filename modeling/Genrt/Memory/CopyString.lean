import Genrt.Memory.CopyExact

/-!
# Strings from user memory

A scan returns the bytes up to the first zero byte if all of them, the zero byte
included, may be read and the bound is not exceeded. Only the kernel heap can keep it
from doing so: the vector of the bytes grows while the scan runs, and the scan ends at the
first reservation that is refused.
-/

namespace Genrt.UserCopy

open Effect Words

/-- The bytes in front of the first zero byte from the address on, which the process may
all read, are no more than the bound. -/
structure IsCString (view : UserView) (user : ByteMemory) (ptr maxLen : Nat)
    (bytes : List UInt8) : Prop where
  bounded : bytes.length ≤ maxLen
  content : load user ptr (bytes.length + 1) = bytes ++ [0]
  nonzero : 0 ∉ bytes
  readable : ∀ address, ptr ≤ address → address ≤ ptr + bytes.length →
    Permits view .read address

/-- The bytes read so far. -/
structure HasScanned (view : UserView) (s : CopyState) (ptr : Nat) (bytes : List UInt8)
    (t : CopyState) : Prop where
  user : t.user = s.user
  kernel : t.kernel = s.kernel
  confined : Confined view t.trace
  content : load s.user ptr bytes.length = bytes
  nonzero : 0 ∉ bytes
  readable : ∀ address, ptr ≤ address → address < ptr + bytes.length →
    Permits view .read address

/-- The capacity of the vector when that many bytes have been pushed, if all reservations on
the way were granted. -/
def capacityAfter (heap : ReserveHeap) (maxLen : Nat) : Nat → Option Nat
  | 0 => some 0
  | len + 1 => do
      let capacity ← capacityAfter heap maxLen len
      if len = capacity then heap.tryReserveExact len (min (maxLen - len) 64) else some capacity

/-- What a scan may answer. -/
def Answers (view : UserView) (heap : ReserveHeap) (user : ByteMemory) (ptr maxLen : Nat) :
    Except UserCopyError (List UInt8) → Prop
  | .ok bytes => IsCString view user ptr maxLen bytes ∧
      (capacityAfter heap maxLen bytes.length).isSome = true
  | .error error =>
    error = .outOfMemory ∧ (∃ len, capacityAfter heap maxLen len = none ∧
        ∀ bytes, IsCString view user ptr maxLen bytes → len ≤ bytes.length) ∨
      ∀ bytes, ¬ IsCString view user ptr maxLen bytes

variable {view : UserView} {heap : ReserveHeap} {s t : CopyState} {ptr maxLen : Nat}
  {E : CopyFault → Prop} {bytes : List UInt8}

theorem IsCString.memory {user : ByteMemory} (string : IsCString view user ptr maxLen bytes) :
    load user ptr bytes.length = bytes ∧ user (ptr + bytes.length) = 0 := by
  have content := string.content
  rw [load_succ] at content
  obtain ⟨front, last⟩ := List.append_inj' content rfl
  exact ⟨front, by simpa using last⟩

/-- A string is not shorter than what has been scanned of it. -/
theorem HasScanned.length_le {string : List UInt8} (scanned : HasScanned view s ptr bytes t)
    (isString : IsCString view s.user ptr maxLen string) : bytes.length ≤ string.length := by
  by_contra longer
  refine scanned.nonzero ?_
  have found : bytes[string.length]? = some 0 := by
    rw [← scanned.content, getElem?_load, if_pos (Nat.lt_of_not_le longer), isString.memory.2]
  exact List.mem_of_getElem? found

theorem HasScanned.push (scanned : HasScanned view s ptr bytes t)
    (byte : s.user (ptr + bytes.length) ≠ 0) (readable : Permits view .read (ptr + bytes.length)) :
    HasScanned view s ptr (bytes ++ [s.user (ptr + bytes.length)]) t := by
  refine ⟨scanned.user, scanned.kernel, scanned.confined, ?_, ?_, fun address above below => ?_⟩
  · rw [List.length_append, List.length_singleton, load_succ, scanned.content]
  · rw [List.mem_append, List.mem_singleton]
    rintro (member | zero)
    · exact scanned.nonzero member
    · exact byte zero.symm
  · rw [List.length_append, List.length_singleton] at below
    rcases Nat.lt_or_eq_of_le (Nat.le_of_lt_succ below) with before | rfl
    · exact scanned.readable address above before
    · exact readable

variable {path : PathBuffer} {cursor : Nat}

/-- The vector has the capacity that the reservations have given it. -/
def PathBuffer.Reserved (heap : ReserveHeap) (maxLen : Nat) (path : PathBuffer) : Prop :=
  capacityAfter heap maxLen path.bytes.length = some path.capacity

theorem PathBuffer.Reserved.grow (reserved : path.Reserved heap maxLen) :
    path.grow heap maxLen = (capacityAfter heap maxLen (path.bytes.length + 1)).map
      fun capacity => { path with capacity } := by
  rw [capacityAfter, reserved, PathBuffer.grow]
  dsimp only [bind, Option.bind]
  split <;> rfl

theorem capacityAfter_mono {len longer : Nat} (refused : capacityAfter heap maxLen len = none)
    (le : len ≤ longer) : capacityAfter heap maxLen longer = none := by
  induction le with
  | refl => exact refused
  | step _ ih =>
    rw [capacityAfter, ih]
    rfl

/-- The scan of a validated chunk answers or goes on behind the chunk. -/
theorem wp_scanChunk {start len count : Nat} (scanned : HasScanned view s ptr path.bytes t)
    (reserved : path.Reserved heap maxLen)
    (valid : Valid view .read start len t.trace) (inside : start ≤ ptr + path.bytes.length)
    (rest : ptr + path.bytes.length + count ≤ start + len)
    (bounded : path.bytes.length + count ≤ maxLen + 1) :
    WP E (scanChunk view heap maxLen count (ptr + path.bytes.length) path)
      (fun scan u =>
        match scan with
        | .returns result => u.user = s.user ∧ u.kernel = s.kernel ∧ Confined view u.trace ∧
            Answers view heap s.user ptr maxLen result
        | .continues next => HasScanned view s ptr next.bytes u ∧ next.Reserved heap maxLen ∧
            next.bytes.length = path.bytes.length + count) t := by
  induction count generalizing path t with
  | zero => exact ⟨scanned, reserved, rfl⟩
  | succ count ih =>
    obtain ⟨offset, address⟩ := Nat.exists_eq_add_of_le inside
    have permits : Permits view .read (ptr + path.bytes.length) :=
      valid.confined.permits valid.validated ⟨inside, by dsimp only; omega⟩
    rw [scanChunk, wp_bind]
    have load := wp_readVolatile (E := E) valid (by omega : offset + 1 ≤ len) (Nat.mod_one _)
    rw [← address] at load
    refine load.mono ?_
    rintro byte u ⟨rfl, user, kernel, valid⟩
    have scanned : HasScanned view s ptr path.bytes u :=
      { scanned with
        user := user.trans scanned.user, kernel := kernel.trans scanned.kernel
        confined := valid.confined }
    have one : ofBytes (Words.load t.user (ptr + path.bytes.length) 1) =
        (t.user (ptr + path.bytes.length)).toNat := rfl
    rw [one, ← user, scanned.user, wp_ite]
    refine ⟨fun zero => ?_, fun nonzero => ?_⟩
    · have zero : s.user (ptr + path.bytes.length) = 0 := UInt8.toNat_inj.mp zero
      -- the string has been scanned up to its zero byte
      refine ⟨scanned.user, scanned.kernel, scanned.confined, ⟨by omega, ?_, scanned.nonzero,
        fun address above below => ?_⟩, reserved ▸ rfl⟩
      · rw [load_succ, scanned.content, zero]
      · rcases Nat.lt_or_eq_of_le below with before | rfl
        · exact scanned.readable address above before
        · exact permits
    have nonzero : s.user (ptr + path.bytes.length) ≠ 0 :=
      fun zero => nonzero (congrArg UInt8.toNat zero)
    rw [wp_ite]
    refine ⟨fun full => ?_, fun room => ?_⟩
    · refine ⟨scanned.user, scanned.kernel, scanned.confined, .inr fun string isString => ?_⟩
      have same : string.length = path.bytes.length :=
        Nat.le_antisymm (full ▸ isString.bounded) (scanned.length_le isString)
      rw [← same] at nonzero
      exact nonzero isString.memory.2
    have pushed := scanned.push nonzero permits
    have length : (path.bytes ++ [s.user (ptr + path.bytes.length)]).length =
        path.bytes.length + 1 := by
      rw [List.length_append, List.length_singleton]
    rw [reserved.grow]
    cases reserves : capacityAfter heap maxLen (path.bytes.length + 1) with
    | none =>
      exact ⟨scanned.user, scanned.kernel, scanned.confined, .inl ⟨rfl, path.bytes.length + 1,
        reserves, fun string isString => length ▸ pushed.length_le isString⟩⟩
    | some capacity =>
      dsimp only [Option.map_some]
      rw [UInt8.ofNat_toNat, Nat.add_assoc]
      have next := @ih u ⟨path.bytes ++ [s.user (ptr + path.bytes.length)], capacity⟩
        pushed (by rw [PathBuffer.Reserved, length, reserves]) valid (by dsimp only; omega)
        (by dsimp only; omega) (by dsimp only; omega)
      dsimp only at next
      rw [length] at next
      refine next.mono fun scan v outcome => ?_
      cases scan with
      | returns result => exact outcome
      | continues path' => exact ⟨outcome.1, outcome.2.1, by omega⟩

/-- A chunk in one page may be read if its first byte may be. -/
theorem permits_chunk {chunkLen : Nat} (first : Permits view .read cursor)
    (page : cursor + chunkLen ≤ alignDown cursor pageSize + pageSize) :
    ∀ address, cursor ≤ address → address < cursor + chunkLen → Permits view .read address := by
  intro address above below
  obtain ⟨low, high, current, translates⟩ := first
  rw [alignDown_page] at page
  have top : userStackTop % pageSize = 0 := by decide
  have samePage : address / pageSize = cursor / pageSize := by
    simp only [pageSize] at page ⊢
    omega
  refine ⟨Nat.le_trans low above, ?_, current, ?_⟩
  · simp only [pageSize] at page top samePage
    omega
  · rwa [translates_congr view .read samePage]

theorem checkedAdd_page_some {pageEnd : Nat}
    (sum : checkedAdd (alignDown cursor pageSize) pageSize = some pageEnd) :
    pageEnd < usizeLimit ∧ pageEnd = alignDown cursor pageSize + pageSize ∧ cursor < pageEnd := by
  have inPage : cursor < alignDown cursor pageSize + pageSize := by
    rw [alignDown_page]
    exact Nat.lt_div_mul_add (by decide)
  unfold checkedAdd at sum
  generalize alignDown cursor pageSize + pageSize = last at *
  split at sum
  · cases sum
    exact ⟨‹_›, rfl, inPage⟩
  · cases sum

/-- The scan has enough rounds: each one passes a byte at least. -/
theorem wp_scanPages {rounds : Nat} (small : maxLen + 1 < usizeLimit)
    (scanned : HasScanned view s ptr path.bytes t) (reserved : path.Reserved heap maxLen)
    (enough : maxLen + 1 < rounds + path.bytes.length) (bounded : path.bytes.length ≤ maxLen + 1) :
    WP E (scanPages view heap maxLen rounds (ptr + path.bytes.length) path.bytes.length path)
      (fun result u => u.user = s.user ∧ u.kernel = s.kernel ∧ Confined view u.trace ∧
        Answers view heap s.user ptr maxLen result) t := by
  induction rounds generalizing path t with
  | zero => omega
  | succ rounds ih =>
    -- a string goes on at the cursor
    have readable : ∀ string, IsCString view s.user ptr maxLen string →
        Permits view .read (ptr + path.bytes.length) := by
      intro string isString
      have := scanned.length_le isString
      exact isString.readable _ (by omega) (by omega)
    rw [scanPages, wp_ite]
    refine ⟨fun passed => ?_, fun room => ?_⟩
    · refine ⟨scanned.user, scanned.kernel, scanned.confined, .inr fun string isString => ?_⟩
      have := scanned.length_le isString
      have := isString.bounded
      omega
    generalize sum : checkedAdd (alignDown (ptr + path.bytes.length) pageSize) pageSize = last
    refine wp_whenFits (fun overflow => ?_) fun pageEnd fits => ?_
    · refine ⟨scanned.user, scanned.kernel, scanned.confined, .inr fun string isString => ?_⟩
      -- the end of a page that may be read is an address
      have high := (readable string isString).2.1
      have lower := Nat.div_mul_le_self (ptr + path.bytes.length) pageSize
      have limit : userStackTop + pageSize < usizeLimit := by decide
      rw [overflow, alignDown_page, checkedAdd] at sum
      split at sum
      · cases sum
      · omega
    rw [fits] at sum
    obtain ⟨fits, rounded, inPage⟩ := checkedAdd_page_some sum
    rw [wp_bind, wp_stopIf]
    refine ⟨fun overflow => by omega, fun _ => ?_⟩
    dsimp only
    generalize chunk : min (pageEnd - (ptr + path.bytes.length))
      (maxLen + 1 - path.bytes.length) = chunkLen
    refine wp_whenValid (fun error fails => ?_) fun passed => ?_
    · refine ⟨scanned.user, scanned.kernel, scanned.confined, .inr fun string isString => ?_⟩
      have page : ptr + path.bytes.length + chunkLen ≤
          alignDown (ptr + path.bytes.length) pageSize + pageSize := by omega
      have passes := validateUserRangeUnbounded_iff.mpr
        ⟨by omega, permits_chunk (readable string isString) page⟩
      rw [passes] at fails
      cases fails
    have permits := (validateUserRangeUnbounded_iff.mp passed).2
    rw [wp_bind]
    have valid := Valid.of_permits scanned.confined permits
    let read : CopyEvent :=
      .validated ⟨ptr + path.bytes.length, ptr + path.bytes.length + chunkLen⟩ .read
    have held : HasScanned view s ptr path.bytes { t with trace := read :: t.trace } :=
      { scanned with confined := valid.confined }
    refine (wp_scanChunk held reserved valid le_rfl le_rfl (by omega)).mono fun scan u outcome => ?_
    cases scan with
    | returns result => exact outcome
    | continues next =>
      obtain ⟨later, reserved, length⟩ := outcome
      refine wp_whenFits (fun overflow => ?_) fun cursor sum => ?_
      · rw [checkedAdd, if_pos (by omega)] at overflow
        cases overflow
      · obtain ⟨-, rfl⟩ : ptr + path.bytes.length + chunkLen < usizeLimit ∧
            ptr + path.bytes.length + chunkLen = cursor := by simpa [checkedAdd] using sum
        rw [Nat.add_assoc, ← length]
        exact ih later reserved (by omega) (by omega)

theorem wp_copyCstrFromUser (s : CopyState) (small : maxLen + 1 < usizeLimit)
    (confined : Confined view s.trace) : WP E (copyCstrFromUser view heap ptr maxLen)
      (fun result t => t.user = s.user ∧ t.kernel = s.kernel ∧ Confined view t.trace ∧
        Answers view heap s.user ptr maxLen result) s := by
  have start : HasScanned view s ptr (PathBuffer.mk [] 0).bytes s :=
    ⟨rfl, rfl, confined, rfl, nofun, fun address above below => (Nat.not_le.mpr below above).elim⟩
  have enough : maxLen + 1 < 2 + maxLen + (PathBuffer.mk [] 0).bytes.length := by
    rw [List.length_nil]
    omega
  exact wp_scanPages small start rfl enough (Nat.zero_le _)

/-- No two strings start at one address. -/
theorem IsCString.unique {user : ByteMemory} {other : List UInt8}
    (string : IsCString view user ptr maxLen bytes)
    (string' : IsCString view user ptr maxLen other) : bytes = other := by
  have shorter : ∀ {first second : List UInt8}, IsCString view user ptr maxLen first →
      IsCString view user ptr maxLen second → first.length ≤ second.length := by
    intro first second one two
    by_contra longer
    refine one.nonzero (List.mem_of_getElem? (i := second.length) ?_)
    rw [← one.memory.1, getElem?_load, if_pos (Nat.lt_of_not_le longer), two.memory.2]
  have length := Nat.le_antisymm (shorter string string') (shorter string' string)
  rw [← string.memory.1, ← string'.memory.1, length]

/-- Copies return without a fault, whatever the tables, the memories, the addresses, the
lengths and the alignments are. They move exactly the bytes of the range or nothing, and
access only what they have validated. Only a string that is there, may be read and fits the
bound is returned. It is returned if the kernel heap grants the reservations on the way, and
otherwise the answer is that memory is exhausted. -/
theorem user_copies_exact (view : UserView) (user kernel : ByteMemory) :
    (∀ dst len userSrc, ∃ result t,
      copyFromUser view dst len userSrc ⟨user, kernel, []⟩ = .ok (result, t) ∧
        Confined view t.trace ∧ t.user = user ∧
        match result with
        | .ok () => t.kernel = copyRange kernel dst user userSrc len
        | .error _ => t.kernel = kernel) ∧
    (∀ userDst src len, ∃ result t,
      copyToUser view userDst src len ⟨user, kernel, []⟩ = .ok (result, t) ∧
        Confined view t.trace ∧ t.kernel = kernel ∧
        match result with
        | .ok () => t.user = copyRange user userDst kernel src len
        | .error _ => t.user = user) ∧
    (∀ userDst value len maxLen, ∃ result t,
      copyCstrToUser view userDst value len maxLen ⟨user, kernel, []⟩ = .ok (result, t) ∧
        Confined view t.trace ∧ t.kernel = kernel ∧
        match result with
        | .ok count => count = len + 1 ∧
            t.user = store (copyRange user userDst kernel value len) (userDst + len) [0]
        | .error _ => t.user = user) ∧
    ∀ heap ptr maxLen, maxLen + 1 < usizeLimit → ∃ result t,
      copyCstrFromUser view heap ptr maxLen ⟨user, kernel, []⟩ = .ok (result, t) ∧
        Confined view t.trace ∧ t.user = user ∧ t.kernel = kernel ∧
        (∀ bytes, result = .ok bytes → IsCString view user ptr maxLen bytes) ∧
        ∀ bytes, IsCString view user ptr maxLen bytes → result =
          if (capacityAfter heap maxLen bytes.length).isSome then .ok bytes
          else .error .outOfMemory := by
  refine ⟨fun dst len userSrc => ?_, fun userDst src len => ?_,
    fun userDst value len maxLen => ?_, fun heap ptr maxLen small => ?_⟩
  · exact (wp_copyFromUser ⟨user, kernel, []⟩ trivial).returns
  · exact (wp_copyToUser ⟨user, kernel, []⟩ trivial).returns
  · exact (wp_copyCstrToUser ⟨user, kernel, []⟩ trivial).returns
  · have copied := @wp_copyCstrFromUser view heap ptr maxLen (fun _ => False) ⟨user, kernel, []⟩
      small trivial
    obtain ⟨result, t, run, outcome⟩ := copied.returns
    obtain ⟨user, kernel, confined, answer⟩ := outcome
    refine ⟨result, t, run, confined, user, kernel, ?_, fun bytes string => ?_⟩
    · rintro bytes rfl
      exact answer.1
    · cases result with
      | ok other =>
        obtain rfl := answer.1.unique string
        rw [if_pos answer.2]
      | error error =>
        rcases answer with ⟨rfl, len, refused, shorter⟩ | missing
        · rw [capacityAfter_mono refused (shorter bytes string)]
          rfl
        · exact absurd string (missing bytes)

/-- One readable page at the start of the user range. -/
def onePage : UserView where
  installed := fun page =>
    if page = userTextBase / pageSize then some ⟨0, true, true, false, false⟩ else none
  current := some 0
  tables := fun _ page =>
    if page = userTextBase / pageSize then some ⟨0, true, true, false, false⟩ else none
  active := fun _ _ => rfl

/-- A heap without free memory. -/
def fullHeap : ReserveHeap := ⟨fun _ _ => none, nofun⟩

/-- A string of one byte. -/
def letterA : ByteMemory := fun address => if address = userTextBase then 65 else 0

theorem isCString_letterA : IsCString onePage letterA userTextBase 4 [65] := by
  refine ⟨by decide, by decide, by decide, fun address above below => ?_⟩
  obtain rfl | rfl : address = userTextBase ∨ address = userTextBase + 1 := by
    rw [List.length_singleton] at below
    omega
  · exact ⟨by decide, by decide, rfl, by decide⟩
  · exact ⟨by decide, by decide, rfl, by decide⟩

/-- A heap that reserves what it is asked for returns the string. -/
theorem user_copies_exact_letter : ∃ t, copyCstrFromUser onePage
      ⟨fun len additional => some (len + additional), by simp⟩ userTextBase 4
      ⟨letterA, fun _ => 0, []⟩ = .ok (.ok [65], t) ∧ t.user = letterA := by
  obtain ⟨-, -, -, strings⟩ := user_copies_exact onePage letterA fun _ => 0
  obtain ⟨result, t, run, -, user, -, -, returned⟩ := strings
    ⟨fun len additional => some (len + additional), by simp⟩ userTextBase 4 (by decide)
  rw [returned [65] isCString_letterA] at run
  exact ⟨t, run, user⟩

/-- If the heap refuses the first reservation, a string that could be read is not returned. -/
theorem cstr_refused : IsCString onePage letterA userTextBase 4 [65] ∧
      (copyCstrFromUser onePage fullHeap userTextBase 4 ⟨letterA, fun _ => 0, []⟩).map Prod.fst =
        .ok (.error .outOfMemory) :=
  ⟨isCString_letterA, by decide +kernel⟩

end Genrt.UserCopy
