import Mathlib

/-!
# An abstract dispatcher for several processors

Each thread has one home processor and one status. Each processor has a current
thread, an idle thread, at most one retired thread, a run queue, and an ingress
queue that other processors fill. Nothing here says how threads or processors
are represented.

`Consistent` ties the queues to the statuses: a thread is current on its home
exactly when it is running, and it is queued on its home exactly once exactly
when it is ready and not the idle thread. Handoffs are split into a thread
leaving its processor and another one starting there, so that blocking, yielding
and exiting share one proof of the second half.
-/

namespace Dispatch

open Function

inductive Status where
  | ready
  | running
  | blocked
  | exited
deriving DecidableEq, Repr

/-- What every processor runs and every thread is doing. -/
structure State (τ κ : Type) where
  thread : τ → Option (κ × Status)
  current : κ → Option τ
  idle : κ → Option τ
  retired : κ → Option τ
  queue : κ → List τ
  ingress : κ → List τ

variable {τ κ : Type}

/-- The processors and queues agree with the thread statuses. -/
@[grind cases] structure Consistent (s : State τ κ) : Prop where
  current_iff : ∀ c t, s.current c = some t ↔ s.thread t = some (c, .running)
  queued_iff : ∀ c t, (t ∈ s.queue c ∨ t ∈ s.ingress c) ↔
    s.thread t = some (c, .ready) ∧ s.idle c ≠ some t
  queue_nodup : ∀ c, (s.queue c).Nodup
  ingress_nodup : ∀ c, (s.ingress c).Nodup
  disjoint : ∀ c t, t ∈ s.queue c → t ∉ s.ingress c
  idle_ok : ∀ c t, s.idle c = some t →
    s.thread t = some (c, .ready) ∨ s.thread t = some (c, .running)
  started : ∀ c t, s.current c = some t → s.idle c ≠ none
  retired_ok : ∀ c t, s.retired c = some t → s.thread t = some (c, .exited)

/-- The thread is absent or blocked, hence in no queue and on no processor. -/
def Parked (s : State τ κ) (t : τ) : Prop :=
  s.thread t = none ∨ ∃ c, s.thread t = some (c, .blocked)

namespace State

variable [DecidableEq τ] [DecidableEq κ] (s : State τ κ) (c : κ) (t : τ)

def setThread (value : Option (κ × Status)) : State τ κ :=
  { s with thread := update s.thread t value }

/-- A new idle thread for a processor that has none. -/
def addIdle : State τ κ :=
  { s with
    thread := update s.thread t (some (c, .ready))
    idle := update s.idle c (some t) }

/-- A thread becomes ready at the end of the run queue. -/
def enqueue : State τ κ :=
  { s with
    thread := update s.thread t (some (c, .ready))
    queue := update s.queue c (s.queue c ++ [t]) }

/-- A thread becomes ready at the end of the ingress queue. -/
def post : State τ κ :=
  { s with
    thread := update s.thread t (some (c, .ready))
    ingress := update s.ingress c (s.ingress c ++ [t]) }

/-- The current thread stops running and enters another status. -/
def leave (status : Status) : State τ κ :=
  { s with
    thread := update s.thread t (some (c, status))
    current := update s.current c none }

/-- A thread starts on a processor without a current thread. -/
def start (rest : List τ) : State τ κ :=
  { s with
    thread := update s.thread t (some (c, .running))
    current := update s.current c (some t)
    queue := update s.queue c rest }

def retire (value : Option τ) : State τ κ :=
  { s with retired := update s.retired c value }

/-- Move the head of the ingress queue behind the run queue. -/
def receive (rest : List τ) : State τ κ :=
  { s with
    queue := update s.queue c (s.queue c ++ [t])
    ingress := update s.ingress c rest }

end State

namespace Consistent

variable [DecidableEq τ] [DecidableEq κ] {s : State τ κ} {c : κ} {t : τ}

variable {rest : List τ}

section

variable (h : Consistent s)

include h

theorem addIdle (fresh : s.thread t = none) (vacant : s.idle c = none) :
    Consistent (s.addIdle c t) := by
  constructor <;> simp only [State.addIdle, update_apply] <;> grind

theorem enqueue (parked : Parked s t) : Consistent (s.enqueue c t) := by
  unfold Parked at parked
  have queued := h.queued_iff c t
  constructor <;> simp only [State.enqueue, update_apply] <;> intro d <;>
    by_cases same : d = c <;> grind

theorem post (parked : Parked s t) : Consistent (s.post c t) := by
  unfold Parked at parked
  constructor <;> simp only [State.post, update_apply] <;> intro d <;> grind

theorem leave (running : s.current c = some t) (status : Status)
    (parks : status = .blocked ∨ status = .exited ∨ (status = .ready ∧ s.idle c = some t))
    (worker : status ≠ .ready → s.idle c ≠ some t) : Consistent (s.leave c t status) := by
  constructor <;> simp only [State.leave, update_apply] <;> intro d <;> grind

theorem start_queued (vacant : s.current c = none) (head : s.queue c = t :: rest)
    (initialized : s.idle c ≠ none) : Consistent (s.start c t rest) := by
  have distinct := h.queue_nodup c
  have queued := h.queued_iff c t
  rw [head] at distinct queued
  constructor <;> simp only [State.start, update_apply] <;> intro d <;> grind

theorem start_idle (vacant : s.current c = none) (initialized : s.idle c = some t) :
    Consistent (s.start c t (s.queue c)) := by
  constructor <;> simp only [State.start, update_apply] <;> intro d <;> grind

theorem retire {value : Option τ} (exited : ∀ u, value = some u → s.thread u = some (c, .exited)) :
    Consistent (s.retire c value) := by
  constructor <;> simp only [State.retire, update_apply] <;> intro d <;> grind

end

omit [DecidableEq κ] in
theorem release (h : Consistent s) (exited : s.thread t = some (c, .exited))
    (final : s.retired c ≠ some t) : Consistent (s.setThread t none) := by
  constructor <;> simp only [State.setThread, update_apply] <;> intro d <;> grind

theorem receive (h : Consistent s) (head : s.ingress c = t :: rest) :
    Consistent (s.receive c t rest) := by
  have distinct := h.ingress_nodup c
  rw [head] at distinct
  constructor <;> simp only [State.receive, update_apply] <;> intro d <;>
    by_cases same : d = c <;> grind

/-- A thread that will not run again by itself hands its processor to the head of
the run queue, or to the idle thread when there is none. -/
theorem handoff (h : Consistent s) (running : s.current c = some t) {status : Status}
    (parks : status = .blocked ∨ status = .exited) (worker : s.idle c ≠ some t) {next : τ}
    (selected : s.queue c = next :: rest ∨ s.queue c = [] ∧ rest = [] ∧ s.idle c = some next) :
    Consistent ((s.leave c t status).start c next rest) := by
  have left : Consistent (s.leave c t status) :=
    h.leave running status (parks.elim Or.inl fun e => Or.inr (Or.inl e)) fun _ => worker
  have vacant : (s.leave c t status).current c = none := update_self ..
  rcases selected with head | ⟨empty, rfl, idle⟩
  · exact left.start_queued vacant head (h.started c t running)
  · rw [← empty]
    exact left.start_idle vacant idle

/-- The current thread goes behind the run queue and its head starts. -/
theorem rotate (h : Consistent s) (running : s.current c = some t) (worker : s.idle c ≠ some t)
    {next : τ} (head : s.queue c = next :: rest) :
    Consistent (((s.leave c t .blocked).enqueue c t).start c next (rest ++ [t])) := by
  have left : Consistent (s.leave c t .blocked) :=
    h.leave running .blocked (Or.inl rfl) fun _ => worker
  have queued := left.enqueue (c := c) (Or.inr ⟨c, update_self ..⟩)
  refine queued.start_queued (update_self ..) ?_ (h.started c t running)
  simp [State.enqueue, State.leave, head]

end Consistent

end Dispatch
