import Genrt.Foundation.Result

/-!
# The test protocol

A test guest reports on its serial line. A record follows a separator byte and ends with
a newline; everything else on the line is log text. The host parses the line chunk by
chunk as it arrives and checks the order of the records.

Texts are lists of bytes. A check that fails ends the run, so nothing is said of the
state it leaves.
-/

namespace Genrt.Xtask

def recordSeparator : UInt8 := 0x1e

def maxRecordBytes : Nat := 512

abbrev Bytes := List UInt8

/-- An ASCII literal. -/
def text (literal : String) : Bytes := literal.toList.map fun c => c.toNat.toUInt8

inductive Event where
  | ready
  | caseStart
  | pass
  | terminal
  | fail
  | done
  | abort
deriving DecidableEq, Repr

structure Record where
  producer : Bytes
  sequence : Nat
  event : Event
  subject : Bytes
  detail : Option Bytes
deriving DecidableEq, Repr

inductive ParseError where
  | nestedSeparator
  | exceedsByteLimit
  | utf8
  | fields (count : Nat)
  | unsupportedVersion (version : Bytes)
  | invalidField (field : Bytes)
  | invalidSequence (field : Bytes)
  | sequenceZero
  | unknownEvent (value : Bytes)
  | incomplete
deriving DecidableEq, Repr

def Event.parse (value : Bytes) : Except ParseError Event :=
  if value = text "READY" then .ok .ready
  else if value = text "CASE_START" then .ok .caseStart
  else if value = text "PASS" then .ok .pass
  else if value = text "TERMINAL" then .ok .terminal
  else if value = text "FAIL" then .ok .fail
  else if value = text "DONE" then .ok .done
  else if value = text "ABORT" then .ok .abort
  else .error (.unknownEvent value)

def isContinuation (byte : UInt8) : Bool := 0x80 ≤ byte ∧ byte ≤ 0xbf

/-- The check of `from_utf8`: no overlong form, no surrogate, nothing past the last plane. -/
def isUtf8 : Bytes → Bool
  | [] => true
  | a :: rest =>
    if a < 0x80 then isUtf8 rest
    else match rest with
      | [] => false
      | b :: rest =>
        if 0xc2 ≤ a ∧ a ≤ 0xdf then isContinuation b && isUtf8 rest
        else match rest with
          | [] => false
          | c :: rest =>
            let wide := isContinuation b && isContinuation c
            if 0xe0 ≤ a ∧ a ≤ 0xef then
              wide && (a ≠ 0xe0 || 0xa0 ≤ b) && (a ≠ 0xed || b ≤ 0x9f) && isUtf8 rest
            else match rest with
              | [] => false
              | d :: rest =>
                0xf0 ≤ a && a ≤ 0xf4 && wide && isContinuation d && (a ≠ 0xf0 || 0x90 ≤ b) &&
                  (a ≠ 0xf4 || b ≤ 0x8f) && isUtf8 rest

def isAsciiGraphic (byte : UInt8) : Bool := 0x21 ≤ byte ∧ byte ≤ 0x7e

def isAsciiDigit (byte : UInt8) : Bool := 0x30 ≤ byte ∧ byte ≤ 0x39

/-- Neither a field nor a sequence number of six digits is too long for its type. -/
def parseRecord (bytes : Bytes) : Except ParseError Record := do
  if isUtf8 bytes = false then throw .utf8
  let fields := bytes.splitOn 0x7c
  let field index := fields.getD index []
  if ¬ (fields.length = 5 ∨ fields.length = 6) then throw (.fields fields.length)
  if field 0 ≠ text "GTRT/1" then throw (.unsupportedVersion (field 0))
  match fields.tail.find? fun field => field.isEmpty || !field.all isAsciiGraphic with
  | some field => throw (.invalidField field)
  | none => pure ()
  if (field 2).length ≠ 6 ∨ !(field 2).all isAsciiDigit then throw (.invalidSequence (field 2))
  let sequence : Nat := (field 2).foldl (fun value digit => value * 10 + (digit.toNat - 0x30)) 0
  if sequence = 0 then throw .sequenceZero
  let event ← Event.parse (field 3)
  pure ⟨field 1, sequence, event, field 4, fields[5]?⟩

/-! ### The stream -/

/-- A loop whose rounds append to its results. -/
def collect {σ α β : Type} (round : σ → α → σ × List β) (s : σ) : List α → σ × List β
  | [] => (s, [])
  | a :: rest =>
    let (next, added) := round s a
    let (last, results) := collect round next rest
    (last, added ++ results)

theorem collect_append {σ α β : Type} (round : σ → α → σ × List β) (s : σ) (first second : List α) :
    collect round s (first ++ second) = ((collect round (collect round s first).1 second).1,
      (collect round s first).2 ++ (collect round (collect round s first).1 second).2) := by
  induction first generalizing s with
  | nil => rfl
  | cons a rest ih => simp [collect, ih]

/-- A loop of loops is one loop. -/
theorem collect_collect {σ α β : Type} (round : σ → α → σ × List β) (s : σ)
    (chunks : List (List α)) :
    collect (collect round) s chunks = collect round s chunks.flatten := by
  induction chunks generalizing s with
  | nil => rfl
  | cons chunk rest ih => simp [collect, collect_append, ih]

structure StreamParser where
  record : Bytes
  collecting : Bool
deriving DecidableEq, Repr

namespace StreamParser

def start : StreamParser := ⟨[], false⟩

/-- One round of the loop in `push`: the parser and the results it adds. -/
def round (p : StreamParser) (byte : UInt8) : StreamParser × List (Except ParseError Record) :=
  if byte = recordSeparator then
    (⟨[], true⟩, if p.collecting && p.record ≠ [] then [.error .nestedSeparator] else [])
  else if p.collecting = false then (p, [])
  else if byte = 0x0a then
    (⟨[], false⟩,
      [parseRecord (if p.record.getLast? = some 0x0d then p.record.dropLast else p.record)])
  else if p.record.length = maxRecordBytes then (⟨[], false⟩, [.error .exceedsByteLimit])
  else (⟨p.record ++ [byte], true⟩, [])

def push (p : StreamParser) (input : Bytes) :
    StreamParser × List (Except ParseError Record) := collect round p input

/-- A stream that arrives in chunks. -/
def pushAll (p : StreamParser) (chunks : List Bytes) :
    StreamParser × List (Except ParseError Record) := collect push p chunks

def finish (p : StreamParser) : Except ParseError Unit :=
  if p.collecting then .error .incomplete else .ok ()

end StreamParser

/-- The records of a stream that arrives in these chunks, without its log text and its errors. -/
def parsedRecords (chunks : List Bytes) : List Record :=
  (StreamParser.start.pushAll chunks).2.filterMap Except.toOption

/-! ### The checker -/

inductive CaseLifecycle where
  | started
  | passed
  | terminal
deriving DecidableEq, Repr

inductive ProtocolError where
  | afterDone
  | outOfSequence (record : Record) (expected : Nat)
  | invalidReady (record : Record)
  | invalidDone (record : Record)
  | unfinishedCases
  | guestReported (record : Record)
  | beforeReady (record : Record)
  | startWithDetail (record : Record)
  | duplicateStart (record : Record)
  | duplicatePass (record : Record)
  | passAfterTerminal (record : Record)
  | passWithoutStart (record : Record)
  | terminalNotSupervisor (record : Record)
  | invalidOperation (record : Record)
  | lateTerminal (record : Record)
  | terminalWithoutStart (record : Record)
  | duplicateTerminal (record : Record)
  | noReady
  | noDone
deriving DecidableEq, Repr

/-- A case is named by its producer and its subject. -/
def Record.key (record : Record) : Bytes × Bytes := (record.producer, record.subject)

structure ProtocolState where
  supervisor : Bytes
  suite : Bytes
  nextSequence : AList fun _ : Bytes => Nat
  cases : AList fun _ : Bytes × Bytes => CaseLifecycle
  ready : Bool
  terminal : Bool
  terminalOperation : Option Bytes

namespace ProtocolState

def new (supervisor suite : Bytes) : ProtocolState :=
  ⟨supervisor, suite, ∅, ∅, false, false, none⟩

def setCase (s : ProtocolState) (record : Record) (state : CaseLifecycle) : ProtocolState :=
  { s with cases := s.cases.insert record.key state }

/-- The part of `observe` that depends on the event. -/
def observeEvent (s : ProtocolState) (record : Record) : Except ProtocolError ProtocolState :=
  match record.event with
  | .ready =>
    if record.producer ≠ s.supervisor ∨ record.subject ≠ s.suite ∨ record.detail.isSome ∨ s.ready
    then .error (.invalidReady record)
    else .ok { s with ready := true }
  | .done =>
    if s.ready = false ∨ record.producer ≠ s.supervisor ∨ record.subject ≠ s.suite ∨
        record.detail ≠ some (text "PASS") then .error (.invalidDone record)
    else if s.cases.entries.any fun entry => entry.2 ≠ .passed then .error .unfinishedCases
    else .ok { s with terminal := true }
  | .fail | .abort => .error (.guestReported record)
  | .caseStart =>
    if s.ready = false then .error (.beforeReady record)
    else if record.detail.isSome then .error (.startWithDetail record)
    else if (s.cases.lookup record.key).isSome then .error (.duplicateStart record)
    else .ok (s.setCase record .started)
  | .pass =>
    if s.ready = false then .error (.beforeReady record)
    else match s.cases.lookup record.key with
      | some .started => .ok (s.setCase record .passed)
      | some .passed => .error (.duplicatePass record)
      | some .terminal => .error (.passAfterTerminal record)
      | none => .error (.passWithoutStart record)
  | .terminal =>
    if s.ready = false then .error (.beforeReady record)
    else if record.producer ≠ s.supervisor then .error (.terminalNotSupervisor record)
    else if record.detail ≠ some (text "RESTART") ∧ record.detail ≠ some (text "POWER_OFF") then
      .error (.invalidOperation record)
    else match s.cases.lookup record.key with
      | some .started =>
        if s.terminalOperation.isSome then .error (.duplicateTerminal record)
        else .ok { s.setCase record .terminal with terminalOperation := record.detail }
      | some _ => .error (.lateTerminal record)
      | none => .error (.terminalWithoutStart record)

def observe (s : ProtocolState) (record : Record) : Except ProtocolError ProtocolState :=
  let next := (s.nextSequence.lookup record.producer).getD 1
  if s.terminal then .error .afterDone
  else if record.sequence ≠ next then .error (.outOfSequence record next)
  else { s with nextSequence := s.nextSequence.insert record.producer (next + 1) }.observeEvent
    record

def validateComplete (s : ProtocolState) : Except ProtocolError Unit :=
  if s.ready = false then .error .noReady
  else if s.terminal = false then .error .noDone
  else .ok ()

end ProtocolState

/-! ### What an accepted record does -/

def Event.isCase (event : Event) : Bool :=
  event = .caseStart ∨ event = .pass ∨ event = .terminal

/-- The events of a case in this state. -/
def CaseLifecycle.events : Option CaseLifecycle → List Event
  | none => []
  | some .started => [.caseStart]
  | some .passed => [.caseStart, .pass]
  | some .terminal => [.caseStart, .terminal]

/-- The events of one case. -/
def history (key : Bytes × Bytes) (records : List Record) : List Event :=
  (records.filter fun record => record.key = key && record.event.isCase).map Record.event

/-- The record is about the whole suite and comes from the supervisor. -/
def Record.OfSuite (record : Record) (supervisor suite : Bytes) : Prop :=
  record.producer = supervisor ∧ record.subject = suite

namespace ProtocolState

variable {s t : ProtocolState} {record : Record} {records : List Record}

/-- The suite begins, the suite ends with all cases passed, or one case goes on. -/
theorem observeEvent_cases (accepted : s.observeEvent record = .ok t) :
    (record.event = .ready ∧ record.OfSuite s.supervisor s.suite ∧ s.ready = false ∧
      t = { s with ready := true }) ∨
    (record.event = .done ∧ record.OfSuite s.supervisor s.suite ∧
      record.detail = some (text "PASS") ∧ s.ready = true ∧
      (∀ entry ∈ s.cases.entries, entry.2 = .passed) ∧ t = { s with terminal := true }) ∨
    ∃ state operation, s.ready = true ∧ record.event.isCase = true ∧
      CaseLifecycle.events (some state) =
        CaseLifecycle.events (s.cases.lookup record.key) ++ [record.event] ∧
      t = { s.setCase record state with terminalOperation := operation } := by
  unfold observeEvent at accepted
  split at accepted
  · next event =>
    split_ifs at accepted with wrong
    cases accepted
    simp only [not_or, not_not, Bool.not_eq_true] at wrong
    exact .inl ⟨event, ⟨wrong.1, wrong.2.1⟩, wrong.2.2.2, rfl⟩
  · next event =>
    split_ifs at accepted with wrong unfinished
    cases accepted
    simp only [not_or, not_not, Bool.not_eq_false] at wrong
    refine .inr (.inl ⟨event, ⟨wrong.2.1, wrong.2.2.1⟩, wrong.2.2.2, wrong.1, ?_, rfl⟩)
    intro entry member
    by_contra other
    exact unfinished (List.any_eq_true.mpr ⟨entry, member, decide_eq_true other⟩)
  · cases accepted
  · cases accepted
  · next event =>
    split_ifs at accepted with early detail duplicate
    cases accepted
    have fresh : s.cases.lookup record.key = none := by simpa using duplicate
    exact .inr (.inr ⟨.started, s.terminalOperation, by simpa using early,
      by simp [event, Event.isCase], by simp [fresh, event, CaseLifecycle.events], rfl⟩)
  · next event =>
    split_ifs at accepted with early
    split at accepted
    · next found =>
      cases accepted
      exact .inr (.inr ⟨.passed, s.terminalOperation, by simpa using early,
        by simp [event, Event.isCase], by simp [found, event, CaseLifecycle.events], rfl⟩)
    · cases accepted
    · cases accepted
    · cases accepted
  · next event =>
    split_ifs at accepted with early foreign operation duplicate
    · split at accepted <;> cases accepted
    · split at accepted
      · next found =>
        cases accepted
        exact .inr (.inr ⟨.terminal, record.detail, by simpa using early,
          by simp [event, Event.isCase], by simp [found, event, CaseLifecycle.events], rfl⟩)
      · cases accepted
      · cases accepted

/-- What the state of the checker knows of the records it has accepted. -/
structure Seen (supervisor suite : Bytes) (s : ProtocolState) (records : List Record) :
    Prop where
  names : s.supervisor = supervisor ∧ s.suite = suite
  sequence : ∀ producer, ∃ count, (s.nextSequence.lookup producer).getD 1 = count + 1 ∧
    (records.filter (·.producer = producer)).map Record.sequence = List.range' 1 count
  unready : s.ready = false → records = []
  first : s.ready = true → ∃ record rest, records = record :: rest ∧ record.event = .ready ∧
    record.OfSuite supervisor suite ∧ ∀ other ∈ rest, other.event ≠ .ready
  cases : ∀ key, history key records = CaseLifecycle.events (s.cases.lookup key)
  clean : ∀ record ∈ records, record.event ≠ .fail ∧ record.event ≠ .abort
  last : s.terminal = true → (∀ entry ∈ s.cases.entries, entry.2 = .passed) ∧
    ∃ before record, records = before ++ [record] ∧ record.event = .done ∧
      record.OfSuite supervisor suite ∧ record.detail = some (text "PASS")

variable {supervisor suite : Bytes}

theorem seen_new : Seen supervisor suite (new supervisor suite) [] where
  names := ⟨rfl, rfl⟩
  sequence _ := ⟨0, rfl, rfl⟩
  unready _ := rfl
  first := nofun
  cases _ := rfl
  clean := nofun
  last := nofun

theorem history_append (key : Bytes × Bytes) (before after : List Record) :
    history key (before ++ after) = history key before ++ history key after := by
  simp [history]

theorem history_single (key : Bytes × Bytes) :
    history key [record] =
      if record.key = key ∧ record.event.isCase then [record.event] else [] := by
  by_cases same : record.key = key ∧ record.event.isCase = true
  · simp [history, same]
  · simp [history, same]

/-- An accepted record of another kind leaves every case alone. -/
theorem history_other (key : Bytes × Bytes) (other : record.event.isCase = false) :
    history key (records ++ [record]) = history key records := by
  simp [history_append, history_single, other]

theorem Seen.observe (h : Seen supervisor suite s records) (accepted : s.observe record = .ok t) :
    Seen supervisor suite t (records ++ [record]) := by
  unfold ProtocolState.observe at accepted
  dsimp only at accepted
  split_ifs at accepted with ended numbered
  rw [not_not] at numbered
  have sequence : ∀ producer, ∃ count,
      ((s.nextSequence.insert record.producer
        ((s.nextSequence.lookup record.producer).getD 1 + 1)).lookup producer).getD 1 = count + 1 ∧
      ((records ++ [record]).filter (·.producer = producer)).map Record.sequence =
        List.range' 1 count := by
    intro producer
    obtain ⟨count, next, numbers⟩ := h.sequence producer
    by_cases own : record.producer = producer
    · subst own
      refine ⟨count + 1, by simp [next], ?_⟩
      simp [numbers, numbered, next, List.range'_concat, Nat.add_comm]
    · refine ⟨count, ?_, by simp [own, numbers]⟩
      rwa [AList.lookup_insert_ne (Ne.symm own)]
  have first : s.ready = true → record.event ≠ .ready → ∃ head rest,
      records ++ [record] = head :: rest ∧ head.event = .ready ∧
      head.OfSuite supervisor suite ∧ ∀ other ∈ rest, other.event ≠ .ready := by
    intro ready later
    obtain ⟨head, rest, rfl, begins, own, once⟩ := h.first ready
    refine ⟨head, rest ++ [record], rfl, begins, own, fun other member => ?_⟩
    rcases List.mem_append.mp member with old | new
    · exact once other old
    · rwa [List.mem_singleton.mp new]
  have clean : record.event ≠ .fail ∧ record.event ≠ .abort →
      ∀ other ∈ records ++ [record], other.event ≠ .fail ∧ other.event ≠ .abort := by
    intro harmless other member
    rcases List.mem_append.mp member with old | new
    · exact h.clean other old
    · rwa [List.mem_singleton.mp new]
  rcases observeEvent_cases accepted with ⟨event, own, unready, rfl⟩ |
      ⟨event, own, detail, ready, passed, rfl⟩ | ⟨state, operation, ready, isCase, goes, rfl⟩
  · rw [h.names.1, h.names.2] at own
    refine ⟨h.names, sequence, nofun, fun _ => ⟨record, [], ?_, event, own, nofun⟩, fun key => ?_,
      clean (by simp [event]), fun ends => absurd ends ended⟩
    · rw [h.unready unready, List.nil_append]
    · rw [history_other key (by simp [event, Event.isCase])]
      exact h.cases key
  · rw [h.names.1, h.names.2] at own
    refine ⟨h.names, sequence, fun unready => ?_, fun _ => first ready (by simp [event]),
      fun key => ?_, clean (by simp [event]),
      fun _ => ⟨passed, records, record, rfl, event, own, detail⟩⟩
    · exact absurd (ready.symm.trans unready) nofun
    · rw [history_other key (by simp [event, Event.isCase])]
      exact h.cases key
  · have kinds : record.event ≠ .ready ∧ record.event ≠ .fail ∧ record.event ≠ .abort := by
      revert isCase
      cases record.event <;> simp [Event.isCase]
    refine ⟨h.names, sequence, fun unready => ?_, fun _ => first ready kinds.1, fun key => ?_,
      clean kinds.2, fun ends => absurd ends ended⟩
    · exact absurd (ready.symm.trans unready) nofun
    · rw [history_append, history_single, h.cases key]
      by_cases same : record.key = key
      · subst same
        simp only [isCase, and_self, if_true, setCase, AList.lookup_insert, goes]
      · simp [same, setCase, AList.lookup_insert_ne (Ne.symm same)]

theorem Seen.foldlM {more : List Record} (h : Seen supervisor suite s records)
    (accepted : more.foldlM ProtocolState.observe s = .ok t) :
    Seen supervisor suite t (records ++ more) := by
  induction more generalizing s records with
  | nil =>
    cases accepted
    rwa [List.append_nil]
  | cons record rest ih =>
    rw [List.foldlM_cons] at accepted
    obtain ⟨next, step, accepted⟩ := Result.bind_eq_ok.mp accepted
    rw [List.append_cons]
    exact ih (h.observe step) accepted

end ProtocolState

/-! ### Accepted streams -/

/-- A complete run in which every case passed. -/
structure Passing (supervisor suite : Bytes) (records : List Record) : Prop where
  first : ∃ record rest, records = record :: rest ∧ record.event = .ready ∧
    record.OfSuite supervisor suite ∧ ∀ other ∈ rest, other.event ≠ .ready
  sequence : ∀ producer, ∃ count,
    (records.filter (·.producer = producer)).map Record.sequence = List.range' 1 count
  started : ∀ key, (records.filter fun r => r.key = key ∧ r.event = .caseStart).length ≤ 1
  passed : ∀ before start after, records = before ++ start :: after → start.event = .caseStart →
    (after.filter fun r => r.key = start.key ∧ r.event = .pass).length = 1
  preceded : ∀ before pass after, records = before ++ pass :: after → pass.event = .pass →
    ∃ start ∈ before, start.key = pass.key ∧ start.event = .caseStart
  clean : ∀ record ∈ records, record.event ≠ .fail ∧ record.event ≠ .abort ∧
    record.event ≠ .terminal
  last : ∃ before record, records = before ++ [record] ∧ record.event = .done ∧
    record.OfSuite supervisor suite ∧ record.detail = some (text "PASS")

/-- The records of a case with one event are counted by its history. -/
theorem length_filter_key (key : Bytes × Bytes) {event : Event}
    (isCase : event.isCase = true) (records : List Record) :
    (records.filter fun r => r.key = key ∧ r.event = event).length =
      (history key records).count event := by
  rw [history, List.count, List.countP_map, List.countP_filter, ← List.countP_eq_length_filter]
  refine List.countP_congr fun record _ => ?_
  by_cases same : record.event = event
  · simp [same, isCase]
  · simp [same]

namespace ProtocolState

variable {supervisor suite : Bytes} {s : ProtocolState} {records : List Record}

/-- Once the suite is done, a case either never began or began and passed. -/
theorem Seen.settled (h : Seen supervisor suite s records) (done : s.terminal = true)
    (key : Bytes × Bytes) :
    history key records = [] ∨ history key records = [.caseStart, .pass] := by
  rw [h.cases key]
  cases found : s.cases.lookup key with
  | none => exact .inl rfl
  | some state =>
    have passed : state = .passed := (h.last done).1 ⟨key, state⟩ (AList.mem_lookup_iff.mp found)
    rw [passed]
    exact .inr rfl

/-- So each record of a case begins it or ends it. -/
theorem Seen.split {record : Record} {before after : List Record}
    (h : Seen supervisor suite s (before ++ record :: after)) (done : s.terminal = true)
    (isCase : record.event.isCase = true) :
    (record.event = .caseStart ∧ history record.key after = [.pass]) ∨
    (record.event = .pass ∧ history record.key before = [.caseStart]) := by
  have parts : history record.key (before ++ record :: after) =
      history record.key before ++ record.event :: history record.key after := by
    simp [history, isCase]
  rcases h.settled done record.key with none | both
  · simp [none] at parts
  · rw [both] at parts
    match prior : history record.key before with
    | [] =>
      simp only [prior, List.nil_append, List.cons.injEq] at parts
      exact .inl ⟨parts.1.symm, parts.2.symm⟩
    | [a] =>
      simp only [prior, List.singleton_append, List.cons.injEq] at parts
      exact .inr ⟨parts.2.1.symm, by rw [parts.1]⟩
    | a :: b :: _ => simp [prior] at parts

theorem Seen.passing (h : Seen supervisor suite s records) (ready : s.ready = true)
    (done : s.terminal = true) : Passing supervisor suite records where
  first := h.first ready
  sequence producer := by
    obtain ⟨count, -, numbers⟩ := h.sequence producer
    exact ⟨count, numbers⟩
  started key := by
    rw [length_filter_key key (by decide)]
    rcases h.settled done key with none | both
    · simp [none]
    · simp [both]
  passed := by
    rintro before start after rfl event
    rw [length_filter_key _ (by decide)]
    rcases h.split done (by simp [event, Event.isCase]) with ⟨-, rest⟩ | ⟨other, -⟩
    · simp [rest]
    · exact absurd (event.symm.trans other) nofun
  preceded := by
    rintro before pass after rfl event
    rcases h.split done (by simp [event, Event.isCase]) with ⟨other, -⟩ | ⟨-, begins⟩
    · exact absurd (event.symm.trans other) nofun
    · have member : Event.caseStart ∈ history pass.key before := by simp [begins]
      simp only [history, List.mem_map, List.mem_filter, Bool.and_eq_true, decide_eq_true_eq]
        at member
      obtain ⟨start, ⟨member, key, -⟩, event⟩ := member
      exact ⟨start, member, key, event⟩
  clean record member := by
    refine ⟨(h.clean record member).1, (h.clean record member).2, fun event => ?_⟩
    obtain ⟨before, after, rfl⟩ := List.append_of_mem member
    rcases h.split done (by simp [event, Event.isCase]) with ⟨other, -⟩ | ⟨other, -⟩
    · exact absurd (event.symm.trans other) nofun
    · exact absurd (event.symm.trans other) nofun
  last := (h.last done).2

/-- The records do not depend on the chunks they arrive in, and the checker lets only a
complete run through in which every case passed. -/
theorem accepts_only_passing (supervisor suite : Bytes) (chunks : List Bytes) :
    StreamParser.start.pushAll chunks = StreamParser.start.push chunks.flatten ∧
    ∀ s, (parsedRecords chunks).foldlM observe (new supervisor suite) = .ok s →
      s.validateComplete = .ok () → Passing supervisor suite (parsedRecords chunks) := by
  refine ⟨collect_collect _ _ _, fun s accepted complete => ?_⟩
  have seen : Seen supervisor suite s (parsedRecords chunks) := seen_new.foldlM accepted
  unfold validateComplete at complete
  split_ifs at complete with unready unfinished
  exact seen.passing (by simpa using unready) (by simpa using unfinished)

/-- Two cases of two producers, the line cut inside a record. -/
def passingChunks : List Bytes :=
  [text "boot\n\x1eGTRT/1|sup|000001|READY|suite\r\n\x1eGTRT/1|sup|00",
   text "0002|CASE_START|a\n\x1eGTRT/1|dev|000001|CASE_START|a\n\x1eGTRT/1|sup|000003|PASS|a\n",
   text "\x1eGTRT/1|dev|000002|PASS|a|ok\n\x1eGTRT/1|sup|000004|DONE|suite|PASS\nbye"]

theorem accepts_only_passing_two_cases :
    Passing (text "sup") (text "suite") (parsedRecords passingChunks) := by
  have complete : ((parsedRecords passingChunks).foldlM observe
      (new (text "sup") (text "suite"))).bind validateComplete = .ok () := by decide +kernel
  obtain ⟨s, accepted, complete⟩ := Result.bind_eq_ok.mp complete
  exact (accepts_only_passing (text "sup") (text "suite") passingChunks).2 s accepted complete

end ProtocolState

end Genrt.Xtask
