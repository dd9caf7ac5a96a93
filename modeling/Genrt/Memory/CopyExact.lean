import Genrt.Foundation.Result
import Genrt.Memory.UserCopy

/-!
# Copies are exact and confined

Validation accepts exactly the ranges all of whose bytes the process may access. The
loops over bytes and words then move the range, and every access lies in a range that
has been validated, so that none faults.
-/

namespace Genrt.UserCopy

open Effect Words

/-- The running process may access the byte. -/
def Permits (view : UserView) (access : AccessKind) (address : Nat) : Prop :=
  userTextBase ≤ address ∧ address < userStackTop ∧ view.current.isSome = true ∧
    view.translates access address = true

/-! ### Validation -/

variable {address stop ptr value user dst userSrc userDst src : Nat}

theorem translates_congr (view : UserView) (access : AccessKind) {other : Nat}
    (page : address / pageSize = other / pageSize) :
    view.translates access address = view.translates access other := by
  rw [UserView.translates, UserView.translates, page]

theorem el0Readable_eq (view : UserView) (va : Nat) :
    view.el0Readable va = view.translates .read va := by
  rw [UserView.el0Readable, UserView.translates]
  rfl

variable {access : AccessKind}

theorem checkMapping_eq_ok {mapping : UserMappingInfo} :
    checkMapping mapping access = .ok () ↔ allows mapping access = true := by
  unfold checkMapping allows
  cases access <;> cases mapping.user <;> cases mapping.readable <;> cases mapping.writable <;>
    simp

variable {view : UserView}

theorem checkPage_eq_ok {space cursor : Nat} (current : view.current = some space)
    (room : cursor + pageSize < usizeLimit) :
    checkPage view space access cursor = .ok () ↔ view.translates access cursor = true := by
  unfold checkPage UserView.queryUserMapping UserView.translates
  rw [view.active space current]
  cases view.installed (cursor / pageSize) with
  | none => simp
  | some info =>
    rw [Option.map_some]
    dsimp only
    rw [Result.bind_eq_ok, checkedAdd, if_pos room]
    have same : allows { info with pa := info.pa + cursor % pageSize } access =
        allows info access := by
      cases access <;> rfl
    rw [← same, ← checkMapping_eq_ok]
    constructor
    · rintro ⟨_, passed, _⟩
      exact passed
    · exact fun passed => ⟨(), passed, rfl⟩

/-- A walk over the pages of a range looks at the page of every address of the range. -/
theorem forall_pages_iff {start : Nat} (nonempty : start < stop) :
    (∀ page ∈ counter (alignDown start pageSize) stop pageSize,
        view.translates access page = true) ↔
      ∀ address, start ≤ address → address < stop → view.translates access address = true := by
  have positive : 0 < pageSize := by decide
  rw [alignDown_page]
  constructor
  · intro pages address above below
    have samePage : address / pageSize * pageSize / pageSize = address / pageSize :=
      Nat.mul_div_cancel _ positive
    rw [← translates_congr view access samePage]
    refine pages _ ((mem_counter positive).mpr ?_)
    simp only [pageSize]
    omega
  · intro addresses page member
    obtain ⟨above, below, whole⟩ := (mem_counter positive).mp member
    have samePage : max start page / pageSize = page / pageSize := by
      simp only [pageSize] at above whole ⊢
      omega
    rw [← translates_congr view access samePage]
    exact addresses _ (Nat.le_max_left _ _) (Nat.max_lt.mpr ⟨nonempty, below⟩)

/-- The processor's answer for one page holds for every address of the page. -/
theorem page_readable_iff (nonempty : ptr < stop)
    (page : alignDown ptr pageSize = alignDown (stop - 1) pageSize) :
    view.currentUserPageReadable ptr = true ↔ view.current.isSome = true ∧
      ∀ address, ptr ≤ address → address < stop → view.translates .read address = true := by
  have samePage : ∀ address, ptr ≤ address → address < stop →
      address / pageSize = ptr / pageSize := by
    intro address above below
    rw [alignDown_page, alignDown_page] at page
    simp only [pageSize] at page ⊢
    omega
  rw [UserView.currentUserPageReadable, Bool.and_eq_true, el0Readable_eq]
  refine and_congr_right fun _ => ⟨fun translates address above below => ?_,
    fun translates => translates ptr le_rfl nonempty⟩
  rw [translates_congr view .read (samePage address above below)]
  exact translates

theorem permits_range_iff (low : userTextBase ≤ ptr) (nonempty : ptr < stop)
    (high : stop ≤ userStackTop) :
    (∀ address, ptr ≤ address → address < stop → Permits view access address) ↔
      view.current.isSome = true ∧
        ∀ address, ptr ≤ address → address < stop → view.translates access address = true := by
  constructor
  · exact fun permits => ⟨(permits ptr le_rfl nonempty).2.2.1,
      fun address above below => (permits address above below).2.2.2⟩
  · exact fun ⟨current, translates⟩ address above below =>
      ⟨Nat.le_trans low above, Nat.lt_of_lt_of_le below high, current,
        translates address above below⟩

/-- Validation accepts exactly the ranges that the process may access. -/
theorem validateUserRangeUnbounded_iff {len : Nat} :
    validateUserRangeUnbounded view ptr len access = .ok () ↔
      0 < len ∧ ∀ address, ptr ≤ address → address < ptr + len → Permits view access address := by
  have limit : userStackTop < usizeLimit := by decide
  unfold validateUserRangeUnbounded
  by_cases empty : len = 0
  · simp [empty]
  have ends : (∀ address, ptr ≤ address → address < ptr + len → Permits view access address) →
      userTextBase ≤ ptr ∧ ptr + len ≤ userStackTop := by
    intro permits
    have first := (permits ptr le_rfl (by omega)).1
    have last := (permits (ptr + len - 1) (by omega) (by omega)).2.1
    omega
  rw [if_neg empty, checkedAdd]
  split
  · next fits =>
    have overflow : ¬ ptr + len < usizeLimit := fun fits' => by simp [fits'] at fits
    refine ⟨by simp, fun permits => ?_⟩
    have := ends permits.2
    omega
  next stop fits =>
  obtain ⟨-, rfl⟩ : ptr + len < usizeLimit ∧ ptr + len = stop := by simpa using fits
  have nonempty : ptr < ptr + len := by omega
  split
  · next outside =>
    refine ⟨by simp, fun permits => ?_⟩
    have := ends permits.2
    omega
  next inside =>
  rw [permits_range_iff (by omega) nonempty (by omega), and_iff_right (by omega : 0 < len)]
  split
  · next single =>
    obtain ⟨rfl, page⟩ := single
    rw [← page_readable_iff nonempty page]
    split
    · next readable => exact ⟨fun _ => readable, fun _ => rfl⟩
    · next readable => exact ⟨by simp, fun other => (readable other).elim⟩
  · rw [UserView.currentUserAddressSpace]
    cases current : view.current with
    | none => simp
    | some space =>
      dsimp only
      have limit : userStackTop + pageSize < usizeLimit := by decide
      rw [and_iff_right Option.isSome_some, ← forall_pages_iff nonempty, Result.forM_eq_ok]
      refine forall₂_congr fun page member => checkPage_eq_ok current ?_
      have below := ((mem_counter (by decide)).mp member).2.1
      omega

theorem validateUserRange_iff {len : Nat} :
    validateUserRange view ptr len access = .ok () ↔ 0 < len ∧ len ≤ maxUserCopy ∧
      ∀ address, ptr ≤ address → address < ptr + len → Permits view access address := by
  unfold validateUserRange
  split
  · next empty => simp [empty]
  split
  · next large =>
    refine ⟨nofun, fun ⟨_, bounded, _⟩ => ?_⟩
    omega
  · next bounded =>
    rw [validateUserRangeUnbounded_iff, and_iff_right (Nat.le_of_not_lt bounded)]

/-! ### Accesses -/

/-- Validated ranges may be accessed, and an access lies in a range that has been
validated for it before. -/
def Confined (view : UserView) : List CopyEvent → Prop
  | [] => True
  | .validated range access :: earlier =>
    (∀ address, range.Contains address → Permits view access address) ∧ Confined view earlier
  | .touched range access :: earlier =>
    (∃ valid, .validated valid access ∈ earlier ∧
      ∀ address, range.Contains address → valid.Contains address) ∧ Confined view earlier

variable {trace : List CopyEvent}

theorem Confined.permits {range : AddrRange} (confined : Confined view trace)
    (member : .validated range access ∈ trace) (inside : range.Contains address) :
    Permits view access address := by
  induction trace with
  | nil => cases member
  | cons event earlier ih =>
    cases event with
    | validated other kind =>
      rcases List.mem_cons.mp member with same | member
      · cases same
        exact confined.1 address inside
      · exact ih confined.2 member
    | touched other kind =>
      rcases List.mem_cons.mp member with same | member
      · cases same
      · exact ih confined.2 member

/-- The range is validated and nothing else has been accessed. -/
structure Valid (view : UserView) (access : AccessKind) (start len : Nat)
    (trace : List CopyEvent) : Prop where
  confined : Confined view trace
  validated : .validated ⟨start, start + len⟩ access ∈ trace

variable {view : UserView} {access : AccessKind} {start len : Nat} {E : CopyFault → Prop}

variable {s : CopyState} {size : Nat}

variable {offset : Nat}

/-- An aligned access inside a validated range does not fault. -/
theorem wp_touch (valid : Valid view access start len s.trace) (inside : offset + size ≤ len)
    (aligned : (start + offset) % size = 0) :
    WP E (touch view access (start + offset) size)
      (fun _ t => t.user = s.user ∧ t.kernel = s.kernel ∧ Valid view access start len t.trace)
      s := by
  have within : ∀ address, AddrRange.Contains ⟨start + offset, start + offset + size⟩ address →
      AddrRange.Contains ⟨start, start + len⟩ address := by
    rintro address ⟨above, below⟩
    dsimp only at above below
    exact ⟨by dsimp only; omega, by dsimp only; omega⟩
  unfold touch
  rw [wp_bind, wp_stopIf]
  refine ⟨fun misaligned => (misaligned aligned).elim, fun _ => ?_⟩
  rw [wp_bind, wp_stopIf]
  refine ⟨fun ⟨index, less, fails⟩ => ?_, fun _ => ?_⟩
  · have permits := valid.confined.permits valid.validated
      (within (start + offset + index) ⟨Nat.le_add_right _ _, Nat.add_lt_add_left less _⟩)
    rw [permits.2.2.2] at fails
    cases fails
  · exact ⟨rfl, rfl, ⟨⟨⟨_, valid.validated, within⟩, valid.confined⟩,
      .tail _ valid.validated⟩⟩

theorem wp_readVolatile (valid : Valid view .read start len s.trace) (inside : offset + size ≤ len)
    (aligned : (start + offset) % size = 0) :
    WP E (readVolatile view (start + offset) size)
      (fun word t => word = ofBytes (load s.user (start + offset) size) ∧ t.user = s.user ∧
        t.kernel = s.kernel ∧ Valid view .read start len t.trace) s := by
  unfold readVolatile
  rw [wp_bind]
  refine (wp_touch valid inside aligned).mono fun _ t ⟨user, kernel, kept⟩ => ?_
  rw [wp_bind, wp_get, wp_pure, user]
  exact ⟨rfl, rfl, kernel, kept⟩

theorem wp_writeVolatile (valid : Valid view .write start len s.trace)
    (inside : offset + size ≤ len) (aligned : (start + offset) % size = 0) :
    WP E (writeVolatile view (start + offset) size value)
      (fun _ t => t.user = store s.user (start + offset) (toBytes size value) ∧
        t.kernel = s.kernel ∧ Valid view .write start len t.trace) s := by
  unfold writeVolatile
  rw [wp_bind]
  refine (wp_touch valid inside aligned).mono fun _ t ⟨user, kernel, kept⟩ => ?_
  rw [wp_modify, user]
  exact ⟨rfl, kernel, kept⟩

variable {Q : Nat → CopyState → Prop}

theorem wp_readKernelUnaligned :
    WP E (readKernelUnaligned address size) Q s ↔ Q (ofBytes (load s.kernel address size)) s :=
  Iff.rfl

theorem wp_readKernel (aligned : address % size = 0) :
    WP E (readKernel address size) Q s ↔ Q (ofBytes (load s.kernel address size)) s := by
  rw [readKernel, wp_bind, wp_stopIf, wp_readKernelUnaligned]
  exact ⟨fun both => both.2 (fun misaligned => misaligned aligned),
    fun holds => ⟨fun misaligned => (misaligned aligned).elim, fun _ => holds⟩⟩

variable {Q : Unit → CopyState → Prop}

theorem wp_writeKernelUnaligned :
    WP E (writeKernelUnaligned address size value) Q s ↔
      Q () { s with kernel := store s.kernel address (toBytes size value) } :=
  Iff.rfl

theorem wp_writeKernel (aligned : address % size = 0) :
    WP E (writeKernel address size value) Q s ↔
      Q () { s with kernel := store s.kernel address (toBytes size value) } := by
  rw [writeKernel, wp_bind, wp_stopIf, wp_writeKernelUnaligned]
  exact ⟨fun both => both.2 (fun misaligned => misaligned aligned),
    fun holds => ⟨fun misaligned => (misaligned aligned).elim, fun _ => holds⟩⟩

/-! ### Head, words and tail -/

theorem headLen_le (user len : Nat) : headLen user len ≤ len := Nat.min_le_right _ _

/-- If a word is left, the head ends at an aligned user address. -/
theorem headLen_aligned (word : headLen user len + copyWordBytes ≤ len) :
    (user + headLen user len) % copyWordBytes = 0 := by
  have low := Nat.and_two_pow_sub_one_eq_mod (wrappingNeg user) 3
  have mask : copyWordBytes - 1 = 2 ^ 3 - 1 := rfl
  unfold headLen at word ⊢
  rw [mask, low] at word ⊢
  simp only [copyWordBytes, wrappingNeg, usizeLimit] at word ⊢
  omega

/-- The words fill the range from the head to the tail. -/
theorem wordEnd_eq (user len : Nat) : wordEnd user len =
      headLen user len + (len - headLen user len) / copyWordBytes * copyWordBytes := by
  have bound := headLen_le user len
  have parts := Nat.div_add_mod (len - headLen user len) copyWordBytes
  rw [Nat.mul_comm] at parts
  unfold wordEnd
  omega

theorem wordEnd_le (user len : Nat) : wordEnd user len ≤ len := Nat.sub_le _ _

/-- The three loops move a range if a byte and an aligned word are moved by their bodies. -/
theorem wp_loops {byte word : Nat → CopyM Unit} (inv : Nat → CopyState → Prop)
    (bytes : ∀ offset < len, ∀ t, inv offset t →
      WP E (byte offset) (fun _ u => inv (offset + 1) u) t)
    (words : ∀ rounds, headLen user len + (rounds + 1) * copyWordBytes ≤ len →
      (user + (headLen user len + rounds * copyWordBytes)) % copyWordBytes = 0 →
      ∀ t, inv (headLen user len + rounds * copyWordBytes) t →
        WP E (word (headLen user len + rounds * copyWordBytes))
          (fun _ u => inv (headLen user len + (rounds + 1) * copyWordBytes) u) t)
    (first : inv 0 s) :
    WP E (do
      forEach (counter 0 (headLen user len) 1) byte
      forEach (counter (headLen user len) (wordEnd user len) copyWordBytes) word
      forEach (counter (wordEnd user len) len 1) byte)
      (fun _ t => inv len t) s := by
  have head := headLen_le user len
  have tail := wordEnd_le user len
  have whole := wordEnd_eq user len
  have byteLoop : ∀ {low high : Nat}, low ≤ high → high ≤ len → ∀ t, inv low t →
      WP E (forEach (counter low high 1) byte) (fun _ u => inv high u) t := by
    intro low high order bound t held
    obtain ⟨rounds, rfl⟩ := Nat.exists_eq_add_of_le order
    have loop : WP E (forEach (counter low (low + rounds * 1) 1) byte)
        (fun _ u => inv (low + rounds * 1) u) t := by
      refine wp_counter inv Nat.one_pos (fun round less u before => ?_) held
      rw [Nat.mul_one] at before ⊢
      rw [Nat.mul_one]
      exact bytes (low + round) (by omega) u before
    rwa [Nat.mul_one] at loop
  rw [wp_bind]
  refine (byteLoop (Nat.zero_le _) head s first).mono fun _ t held => ?_
  rw [wp_bind]
  have wordLoop : WP E (forEach (counter (headLen user len) (wordEnd user len) copyWordBytes) word)
      (fun _ u => inv (wordEnd user len) u) t := by
    rw [whole]
    refine wp_counter inv (by decide) (fun round less u before => ?_) held
    have room : headLen user len + (round + 1) * copyWordBytes ≤ len := by
      have := Nat.mul_le_mul_right copyWordBytes (Nat.succ_le_of_lt less)
      rw [Nat.succ_eq_add_one] at this
      omega
    refine words round room ?_ u before
    have aligned : (user + headLen user len) % copyWordBytes = 0 := by
      apply headLen_aligned
      rw [Nat.add_mul, Nat.one_mul] at room
      omega
    rw [← Nat.add_assoc, Nat.add_mul_mod_self_right]
    exact aligned
  exact wordLoop.mono fun _ u held => byteLoop tail le_rfl u held

/-- The word loop keeps the alignment of the kernel side. -/
theorem kernelAligned_word {kernel rounds : Nat} (aligned : kernelAligned kernel user len = true) :
    (kernel + (headLen user len + rounds * copyWordBytes)) % copyWordBytes = 0 := by
  have first : (kernel + headLen user len) % usizeLimit % copyWordBytes = 0 := by
    simpa only [kernelAligned, beq_iff_eq] using aligned
  simp only [copyWordBytes, usizeLimit] at first ⊢
  omega

/-- That many bytes have been read. -/
structure HasRead (view : UserView) (s : CopyState) (dst len userSrc offset : Nat)
    (t : CopyState) : Prop where
  user : t.user = s.user
  kernel : t.kernel = copyRange s.kernel dst s.user userSrc offset
  valid : Valid view .read userSrc len t.trace

/-- That many bytes have been written. -/
structure HasWritten (view : UserView) (s : CopyState) (userDst bound src offset : Nat)
    (t : CopyState) : Prop where
  user : t.user = copyRange s.user userDst s.kernel src offset
  kernel : t.kernel = s.kernel
  valid : Valid view .write userDst bound t.trace

variable {s t : CopyState} {offset size : Nat}

/-- Storing what has been loaded moves the bytes, on either side. -/
theorem store_moved (target : ByteMemory) (base : Nat) (source : ByteMemory)
    (start offset size : Nat) : store (copyRange target base source start offset) (base + offset)
        (toBytes size (ofBytes (load source (start + offset) size))) =
      copyRange target base source start (offset + size) := by
  rw [toBytes_word, store_load, copyRange_add]

theorem HasRead.load (read : HasRead view s dst len userSrc offset t) (inside : offset + size ≤ len)
    (aligned : (userSrc + offset) % size = 0) :
    WP E (readVolatile view (userSrc + offset) size)
      (fun word u => HasRead view s dst len userSrc (offset + size)
        { u with kernel := store u.kernel (dst + offset) (toBytes size word) }) t := by
  refine (wp_readVolatile read.valid inside aligned).mono ?_
  rintro word u ⟨rfl, user, kernel, valid⟩
  refine ⟨user.trans read.user, ?_, valid⟩
  dsimp only
  rw [kernel, read.kernel, read.user, store_moved]

variable {bound : Nat}

theorem HasWritten.store (written : HasWritten view s userDst bound src offset t)
    (inside : offset + size ≤ bound) (aligned : (userDst + offset) % size = 0) :
    WP E (writeVolatile view (userDst + offset) size (ofBytes (load t.kernel (src + offset) size)))
      (fun _ u => HasWritten view s userDst bound src (offset + size) u) t := by
  refine (wp_writeVolatile written.valid inside aligned).mono ?_
  rintro _ u ⟨user, kernel, valid⟩
  refine ⟨?_, kernel.trans written.kernel, valid⟩
  rw [user, written.user, written.kernel, store_moved]

theorem wp_readValidatedUserBytes (valid : Valid view .read userSrc len s.trace) :
    WP E (readValidatedUserBytes view dst len userSrc)
      (fun _ t => HasRead view s dst len userSrc len t) s := by
  have start : HasRead view s dst len userSrc 0 s := ⟨rfl, (copyRange_zero ..).symm, valid⟩
  refine wp_loops (HasRead view s dst len userSrc) ?_ ?_ start
  · intro offset less t read
    rw [readByte, wp_bind]
    refine (read.load (Nat.succ_le_of_lt less) (Nat.mod_one _)).mono fun byte u next => ?_
    rwa [wp_writeKernel (Nat.mod_one _)]
  · intro rounds room aligned t read
    rw [Nat.add_mul, Nat.one_mul, ← Nat.add_assoc] at room ⊢
    rw [readWord, wp_bind]
    refine (read.load room aligned).mono fun word u next => ?_
    rw [wp_ite]
    refine ⟨fun kernelWord => ?_, fun _ => ?_⟩
    · rwa [wp_writeKernel (kernelAligned_word kernelWord)]
    · rwa [wp_writeKernelUnaligned]

theorem wp_writeValidatedUserBytes (within : len ≤ bound)
    (valid : Valid view .write userDst bound s.trace) :
    WP E (writeValidatedUserBytes view userDst src len)
      (fun _ t => HasWritten view s userDst bound src len t) s := by
  have start : HasWritten view s userDst bound src 0 s := ⟨(copyRange_zero ..).symm, rfl, valid⟩
  refine wp_loops (HasWritten view s userDst bound src) ?_ ?_ start
  · intro offset less t written
    rw [writeByte, wp_bind, wp_readKernel (Nat.mod_one _)]
    exact written.store (Nat.le_trans (Nat.succ_le_of_lt less) within) (Nat.mod_one _)
  · intro rounds room aligned t written
    rw [Nat.add_mul, Nat.one_mul, ← Nat.add_assoc] at room ⊢
    have stored := written.store (E := E) (Nat.le_trans room within) aligned
    rw [writeWord, wp_ite]
    refine ⟨fun kernelWord => ?_, fun _ => ?_⟩
    · rwa [wp_bind, wp_readKernel (kernelAligned_word kernelWord)]
    · rwa [wp_bind, wp_readKernelUnaligned]

/-! ### Copies -/

theorem wp_whenValid {α : Type} {checked : Except UserCopyError Unit}
    {body : CopyM (Except UserCopyError α)} {Q : Except UserCopyError α → CopyState → Prop}
    (fails : ∀ error, checked = .error error → Q (.error error) s) (passes : checked = .ok () →
      WP E body Q { s with trace := .validated ⟨ptr, ptr + len⟩ access :: s.trace }) :
    WP E (whenValid checked ptr len access body) Q s := by
  unfold whenValid
  cases checked with
  | error error => exact fails error rfl
  | ok => exact passes rfl

theorem wp_whenFits {α : Type} {sum : Option Nat} {body : Nat → CopyM (Except UserCopyError α)}
    {Q : Except UserCopyError α → CopyState → Prop}
    (overflows : sum = none → Q (.error .addressOverflow) s)
    (fits : ∀ address, sum = some address → WP E (body address) Q s) :
    WP E (whenFits sum body) Q s := by
  unfold whenFits
  cases sum with
  | none => exact overflows rfl
  | some address => exact fits address rfl

theorem Valid.of_permits (confined : Confined view trace)
    (permits : ∀ address, ptr ≤ address → address < ptr + len → Permits view access address) :
    Valid view access ptr len (.validated ⟨ptr, ptr + len⟩ access :: trace) :=
  ⟨⟨fun address inside => permits address inside.1 inside.2, confined⟩, .head _⟩

theorem wp_copyFromUser (s : CopyState) (confined : Confined view s.trace) :
    WP E (copyFromUser view dst len userSrc)
      (fun result t => Confined view t.trace ∧ t.user = s.user ∧
        match result with
        | .ok () => t.kernel = copyRange s.kernel dst s.user userSrc len
        | .error _ => t.kernel = s.kernel) s := by
  unfold copyFromUser
  rw [wp_ite]
  refine ⟨fun empty => ?_, fun _ => wp_whenValid (fun _ _ => ⟨confined, rfl, rfl⟩) fun passed => ?_⟩
  · rw [wp_pure, empty]
    exact ⟨confined, rfl, (copyRange_zero ..).symm⟩
  · have permits := (validateUserRange_iff.mp passed).2.2
    rw [wp_bind]
    refine (wp_readValidatedUserBytes (Valid.of_permits confined permits)).mono fun _ t read => ?_
    exact ⟨read.valid.confined, read.user, read.kernel⟩

theorem wp_copyToUser (s : CopyState) (confined : Confined view s.trace) :
    WP E (copyToUser view userDst src len)
      (fun result t => Confined view t.trace ∧ t.kernel = s.kernel ∧
        match result with
        | .ok () => t.user = copyRange s.user userDst s.kernel src len
        | .error _ => t.user = s.user) s := by
  unfold copyToUser
  rw [wp_ite]
  refine ⟨fun empty => ?_, fun _ => ?_⟩
  · rw [wp_pure, empty]
    exact ⟨confined, rfl, (copyRange_zero ..).symm⟩
  rw [wp_ite]
  refine ⟨fun _ => ⟨confined, rfl, rfl⟩,
    fun _ => wp_whenValid (fun _ _ => ⟨confined, rfl, rfl⟩) fun passed => ?_⟩
  have permits := (validateUserRangeUnbounded_iff.mp passed).2
  rw [wp_bind]
  refine (wp_writeValidatedUserBytes le_rfl (Valid.of_permits confined permits)).mono
    fun _ t written => ?_
  exact ⟨written.valid.confined, written.kernel, written.user⟩

/-- The terminator is written behind the value. -/
theorem wp_copyCstrToUser {maxLen : Nat} (s : CopyState) (confined : Confined view s.trace) :
    WP E (copyCstrToUser view userDst value len maxLen)
      (fun result t => Confined view t.trace ∧ t.kernel = s.kernel ∧
        match result with
        | .ok count => count = len + 1 ∧ t.user =
            store (copyRange s.user userDst s.kernel value len) (userDst + len) [0]
        | .error _ => t.user = s.user) s := by
  unfold copyCstrToUser
  refine wp_whenFits (fun _ => ⟨confined, rfl, rfl⟩) ?_
  intro required sum
  obtain ⟨-, rfl⟩ : len + 1 < usizeLimit ∧ len + 1 = required := by simpa [checkedAdd] using sum
  rw [wp_ite]
  refine ⟨fun _ => ⟨confined, rfl, rfl⟩,
    fun _ => wp_whenValid (fun _ _ => ⟨confined, rfl, rfl⟩) fun passed => ?_⟩
  have permits := (validateUserRangeUnbounded_iff.mp passed).2
  have last := (permits (userDst + len) (by omega) (by omega)).2.1
  have fits : checkedAdd userDst len = some (userDst + len) := by
    have limit : userStackTop < usizeLimit := by decide
    exact if_pos (by omega)
  rw [wp_bind]
  refine (wp_writeValidatedUserBytes (Nat.le_succ len) (Valid.of_permits confined permits)).mono
    fun _ t written => ?_
  rw [fits, whenFits, wp_bind]
  refine (wp_writeVolatile written.valid le_rfl (Nat.mod_one _)).mono ?_
  rintro _ u ⟨user, kernel, valid⟩
  refine ⟨valid.confined, kernel.trans written.kernel, rfl, ?_⟩
  rw [user, written.user]
  rfl

end Genrt.UserCopy
