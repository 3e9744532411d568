import Apatchy.Foundations.Machine
import Apatchy.Foundations.Publication
import Apatchy.Foundations.Script
import Apatchy.Foundations.Text
import Mathlib.Algebra.Order.Ring.Rat
import Mathlib.Data.List.ReduceOption

/-!
# The sessions in stat.json

Each run of a fuzzer has a `StatsExporter`, which collects the pulses, events and
mutators of one session, and writes the session into `stat.json` now and then
(`Apatchy.StatsExporter`). Fuzzers that run at the same time share the file
(`Apatchy.fleet`).

A flush reads the sessions that are in the file, replaces the last one if it has the
start time of the exporter, and adds its session at the end otherwise. So a session is
replaced while its exporter is the only one that flushes, and doubled when the exporter
flushes again after another one: the file lists the latest snapshot of each session
exactly if the exporters take turns (`Apatchy.fleet_listsLatest_iff`,
`Apatchy.not_listsLatest_threeFlushes`).
-/

namespace Apatchy

/-! ### Sessions -/

/-- `FuzzerPulse`. -/
structure FuzzerPulse where
  /-- When. -/
  time : String
  /-- The edges that are covered. -/
  edges : ℤ
  /-- The features that are covered. -/
  features : ℤ
  /-- The number of files of the corpus. -/
  corpus : ℤ
  /-- Their size. -/
  corpusSize : String
  /-- The number of executions. -/
  totalExecs : ℤ
  /-- Executions per second. -/
  execS : ℤ
  /-- Executions per second of one worker. -/
  workerExecS : Option ℤ
  /-- The memory. -/
  rss : String
  /-- The number of crashes. -/
  crashes : ℕ
deriving DecidableEq, Repr

/-- `FuzzerEvent`. -/
structure FuzzerEvent where
  /-- What kind of event. -/
  type : String
  /-- When. -/
  time : String
  /-- What it is about. -/
  value : String
deriving DecidableEq, Repr

/-- `FuzzerSession`. -/
structure FuzzerSession where
  /-- When the session started. -/
  startTime : String
  /-- The number of workers. -/
  workers : ℕ
  /-- The pulses. -/
  pulses : List FuzzerPulse := []
  /-- The events. -/
  events : List FuzzerEvent := []
  /-- How often each mutator was used, in the order of the first uses. -/
  mutators : List (String × ℕ) := []
deriving DecidableEq, Repr

/-- What is in `stat.json`. -/
inductive StatFile
  /-- There is no file. -/
  | absent
  /-- The JSON of a list of sessions. -/
  | list (sessions : List FuzzerSession)
  /-- The JSON of something else, or no JSON, or a file that cannot be read. -/
  | other
deriving DecidableEq, Repr

/-- `StatsExporter`. -/
structure StatsExporter where
  /-- The seconds between two pulses. -/
  pulseInterval : ℤ := 60
  /-- Whether there is a counter for crashes. -/
  crashCounter : Bool := false
  /-- When the last pulse was taken. -/
  lastPulseTime : ℚ := 0
  /-- The session. -/
  session : FuzzerSession

/-- `StatsExporter.KNOWN_MUTATORS`. -/
def knownMutators : List String :=
  ["EraseBytes", "InsertByte", "InsertRepeatedBytes", "ChangeByte", "ChangeBit", "ShuffleBytes",
    "ChangeASCIIInt", "ChangeBinInt", "CopyPart", "CrossOver", "ManualDict", "PersAutoDict", "CMP",
    "Custom", "CustomCrossOver"]

/-- The statistics of the user interface, a dictionary of texts. -/
abbrev Stats := List (String × String)

/-- What a call finds around it. -/
structure Moment where
  /-- `time.monotonic`. -/
  now : ℚ := 0
  /-- `time.strftime`. -/
  time : String := ""
  /-- What the counter for crashes returns. -/
  crashes : ℕ := 0

/-- What a method works on: its exporter, and the file it shares with others. -/
structure ExporterState where
  /-- The exporter. -/
  exporter : StatsExporter
  /-- The file. -/
  statFile : StatFile

/-! ### The methods -/

/-- The value of some digits, with at most one `_` between two of them. -/
def digitsValue (cs : List Char) : Option ℕ :=
  let groups := cs.splitOn '_'
  if groups.all fun g => !g.isEmpty && g.all Char.isDigit then
    some (groups.flatten.foldl (fun n c => 10 * n + (c.toNat - '0'.toNat)) 0)
  else none

/-- `int`, of a text of ASCII characters. -/
def pyInt (s : String) : Except String ℤ :=
  let value : Option ℤ :=
    match (strip s).toList with
    | '-' :: cs => (digitsValue cs).map fun n => -(n : ℤ)
    | '+' :: cs => (digitsValue cs).map fun n => (n : ℤ)
    | cs => (digitsValue cs).map fun n => (n : ℤ)
  match value with
  | some n => .ok n
  | none => .error "ValueError"

/-- `int(stats.get(key, 0))`. -/
def Stats.int (stats : Stats) (key : String) : Except String ℤ :=
  match stats.lookup key with
  | some s => pyInt s
  | none => .ok 0

/-- The pulse that `_capture_pulse` adds to the session. -/
def StatsExporter.pulse (e : StatsExporter) (stats : Stats) (m : Moment) :
    Except String FuzzerPulse := do
  let effectiveExecS ← stats.int "exec_s"
  let edges ← stats.int "cov"
  let features ← stats.int "ft"
  let corpus ← stats.int "corp_n"
  let totalExecs ← stats.int "run"
  let workerExecS ← match stats.lookup "worker_exec_s" with
    | some raw => if raw = "" then pure none else some <$> pyInt raw
    | none => pure none
  return {
    time := m.time
    edges, features, corpus
    corpusSize := (stats.lookup "corp_size").getD "0b"
    totalExecs
    execS := effectiveExecS
    workerExecS
    rss := (stats.lookup "rss").getD "0Mb"
    crashes := if e.crashCounter then m.crashes else 0 }

/-- Change the session. -/
def StatsExporter.updateSession (e : StatsExporter) (f : FuzzerSession → FuzzerSession) :
    StatsExporter :=
  { e with session := f e.session }

/-- `_capture_pulse`. -/
def capturePulse (stats : Stats) (m : Moment) : Script ExporterState Unit := do
  let st ← Script.get
  match st.exporter.pulse stats m with
  | .error message => Script.fail message
  | .ok pulse =>
    Script.modify fun st => { st with
      exporter := st.exporter.updateSession fun s => { s with pulses := s.pulses ++ [pulse] } }

/-- `_load_existing`. -/
def loadExisting : StatFile → List FuzzerSession
  | .absent => []
  | .list data => data
  | .other => []

/-- The sessions after a flush. -/
def flushed (sessions : List FuzzerSession) (session : FuzzerSession) : List FuzzerSession :=
  match sessions.getLast? with
  | some last =>
    if last.startTime = session.startTime then sessions.dropLast ++ [session]
    else sessions ++ [session]
  | none => sessions ++ [session]

/-- `_flush`. -/
def flush : Script ExporterState Unit :=
  Script.modify fun st =>
    { st with statFile := .list (flushed (loadExisting st.statFile) st.exporter.session) }

/-- `maybe_pulse`; with whether it came to the flush. -/
def maybePulse (stats : Stats) (m : Moment) : Script ExporterState Bool := do
  let st ← Script.get
  -- a last time of zero stands for none
  if st.exporter.lastPulseTime ≠ 0 ∧
      m.now - st.exporter.lastPulseTime < st.exporter.pulseInterval then
    return false
  else do
    Script.modify fun st => { st with exporter := { st.exporter with lastPulseTime := m.now } }
    capturePulse stats m
    flush
    return true

/-- `final_flush`. -/
def finalFlush (stats : Stats) (m : Moment) : Script ExporterState Bool := do
  capturePulse stats m
  flush
  return true

/-- One more use of a mutator. -/
def countMutator (name : String) : List (String × ℕ) → List (String × ℕ)
  | [] => [(name, 1)]
  | (n, k) :: ms => if n = name then (n, k + 1) :: ms else (n, k) :: countMutator name ms

/-- The uses of mutators after those of a strategy. -/
def countMutators (strategy : String) (ms : List (String × ℕ)) : List (String × ℕ) :=
  (strategy.toList.splitOn '-').foldl (fun ms part =>
    let name := strip (String.ofList part)
    if name ∈ knownMutators then countMutator name ms else ms) ms

/-- `record_mutators`. -/
def recordMutators (strategy : String) : Script ExporterState Bool := do
  Script.modify fun st => { st with
    exporter := st.exporter.updateSession fun s =>
      { s with mutators := countMutators strategy s.mutators } }
  return false

/-- `record_event`. -/
def recordEvent (eventType value : String) (m : Moment) : Script ExporterState Bool := do
  let st ← Script.get
  -- a function is recorded once
  if eventType = "last_func" ∧ st.exporter.session.events.any (fun e => e.value = value) then
    return false
  else do
    Script.modify fun st => { st with
      exporter := st.exporter.updateSession fun s =>
        { s with events := s.events ++ [⟨eventType, m.time, value⟩] } }
    return false

/-! ### Exporters that share the file -/

/-- A call of a method of an exporter. -/
inductive ExporterCall
  | maybePulse (stats : Stats) (m : Moment)
  | finalFlush (stats : Stats) (m : Moment)
  | recordMutators (strategy : String)
  | recordEvent (eventType value : String) (m : Moment)

/-- The method that is called. -/
def ExporterCall.method : ExporterCall → Script ExporterState Bool
  | .maybePulse stats m => Apatchy.maybePulse stats m
  | .finalFlush stats m => Apatchy.finalFlush stats m
  | .recordMutators strategy => Apatchy.recordMutators strategy
  | .recordEvent eventType value m => Apatchy.recordEvent eventType value m

variable {ι : Type*} [DecidableEq ι]

/-- Exporters, and the file they share. -/
structure Fleet (ι : Type*) where
  /-- The exporters. -/
  exporters : ι → StatsExporter
  /-- The file. -/
  statFile : StatFile

/-- The start time of the session of an exporter. -/
def Fleet.startTime (st : Fleet ι) (i : ι) : String := (st.exporters i).session.startTime

/-- What a call flushed: the exporter, and a snapshot of its session. -/
def snapshotOf (i : ι) : Except String Bool × ExporterState → Option (ι × FuzzerSession)
  | (.ok true, st) => some (i, st.exporter.session)
  | _ => none

/-- **Exporters that share the file**: one of them runs one of its methods, and what it
flushed is the answer. -/
def fleet : Machine (Fleet ι) (ι × ExporterCall) (Option (ι × FuzzerSession)) where
  step st c :=
    let result := c.2.method.run ⟨st.exporters c.1, st.statFile⟩
    (snapshotOf c.1 result,
      ⟨Function.update st.exporters c.1 result.2.exporter, result.2.statFile⟩)

/-- The flushes of a run, in order. -/
def flushes (st : Fleet ι) (calls : List (ι × ExporterCall)) : List (ι × FuzzerSession) :=
  (fleet.run st calls).1.reduceOption

/-! ### What a method does to the session and the file -/

theorem flushed_eq (sessions : List FuzzerSession) (session : FuzzerSession) :
    flushed sessions session = publish FuzzerSession.startTime sessions session := by
  rcases sessions.eq_nil_or_concat' with rfl | ⟨front, last, rfl⟩
  · simp [flushed, publish, EndsWith]
  · simp only [flushed, publish, endsWith_concat, List.getLast?_concat]

/-- **What a method keeps**: the start time of the session, and the file unless it comes to
the flush. -/
structure Keeps (st : ExporterState) (result : Except String Bool × ExporterState) : Prop where
  /-- The session is still the same one. -/
  startTime : result.2.exporter.session.startTime = st.exporter.session.startTime
  /-- The file of a method that comes to the flush. -/
  flushed : result.1 = .ok true → result.2.statFile =
    .list (flushed (loadExisting st.statFile) result.2.exporter.session)
  /-- The file of one that does not. -/
  other : result.1 ≠ .ok true → result.2.statFile = st.statFile

theorem capturePulse_cases (stats : Stats) (m : Moment) (st : ExporterState) :
    (∃ message, (capturePulse stats m).run st = (.error message, st)) ∨
    ∃ pulse, (capturePulse stats m).run st = (.ok (), { st with
      exporter := st.exporter.updateSession fun s =>
        { s with pulses := s.pulses ++ [pulse] } }) := by
  rcases hpulse : st.exporter.pulse stats m with message | pulse
  · exact Or.inl ⟨message, by simp [capturePulse, hpulse]⟩
  · exact Or.inr ⟨pulse, by simp [capturePulse, hpulse]⟩

theorem keeps_finalFlush (stats : Stats) (m : Moment) (st : ExporterState) :
    Keeps st ((finalFlush stats m).run st) := by
  rcases capturePulse_cases stats m st with ⟨message, hrun⟩ | ⟨pulse, hrun⟩
  · have hstop : (finalFlush stats m).run st = (.error message, st) :=
      Script.run_bind_of_error hrun _
    rw [hstop]
    exact ⟨rfl, by simp, fun _ => rfl⟩
  · rw [finalFlush, Script.run_bind_of_ok hrun]
    exact ⟨rfl, fun _ => rfl, fun h => absurd rfl h⟩

/-- A method that does not come to the flush. -/
theorem keeps_of_false {st : ExporterState} {exporter : StatsExporter}
    (h : exporter.session.startTime = st.exporter.session.startTime) :
    Keeps st (.ok false, { st with exporter }) :=
  ⟨h, by simp, fun _ => rfl⟩

theorem keeps_maybePulse (stats : Stats) (m : Moment) (st : ExporterState) :
    Keeps st ((maybePulse stats m).run st) := by
  rw [maybePulse, Script.run_bind, Script.run_get]
  by_cases hsoon : st.exporter.lastPulseTime ≠ 0 ∧
      m.now - st.exporter.lastPulseTime < st.exporter.pulseInterval
  · simp only [if_pos hsoon]
    exact keeps_of_false rfl
  · simp only [if_neg hsoon]
    -- The rest is a final flush with the time of the pulse noted down.
    have hflush := keeps_finalFlush stats m
      { st with exporter := { st.exporter with lastPulseTime := m.now } }
    exact ⟨hflush.startTime, hflush.flushed, hflush.other⟩

theorem keeps_recordEvent (eventType value : String) (m : Moment) (st : ExporterState) :
    Keeps st ((recordEvent eventType value m).run st) := by
  rw [recordEvent, Script.run_bind, Script.run_get]
  by_cases hknown : eventType = "last_func" ∧
      st.exporter.session.events.any (fun e => e.value = value)
  · simp only [if_pos hknown]
    exact keeps_of_false rfl
  · simp only [if_neg hknown]
    exact keeps_of_false rfl

/-- Every method keeps the session and, up to the flush, the file. -/
theorem keeps_method (call : ExporterCall) (st : ExporterState) :
    Keeps st (call.method.run st) := by
  cases call with
  | maybePulse stats m => exact keeps_maybePulse stats m st
  | finalFlush stats m => exact keeps_finalFlush stats m st
  | recordMutators strategy => exact keeps_of_false rfl
  | recordEvent eventType value m => exact keeps_recordEvent eventType value m st

/-! ### What the exporters do to the file -/

theorem flushes_concat (st : Fleet ι) (calls : List (ι × ExporterCall)) (c : ι × ExporterCall) :
    flushes st (calls ++ [c]) =
      flushes st calls ++ (fleet.step (fleet.run st calls).2 c).1.toList := by
  rw [flushes, Machine.run_concat, List.reduceOption_append, ← flushes]
  rcases (fleet.step (fleet.run st calls).2 c).1 with _ | p <;> rfl

/-- **One call**: what it flushed is published, and the start times stay. -/
theorem fleet_step (st : Fleet ι) (c : ι × ExporterCall) :
    loadExisting (fleet.step st c).2.statFile =
      publishAll FuzzerSession.startTime (loadExisting st.statFile)
        (fleet.step st c).1.toList ∧
    (∀ p ∈ (fleet.step st c).1, p.2.startTime = st.startTime p.1) ∧
    (fleet.step st c).2.startTime = st.startTime := by
  obtain ⟨i, call⟩ := c
  have hkeeps := keeps_method call ⟨st.exporters i, st.statFile⟩
  simp only [fleet]
  generalize call.method.run ⟨st.exporters i, st.statFile⟩ = result at hkeeps
  obtain ⟨answer, exporter, statFile⟩ := result
  refine ⟨?_, ?_, ?_⟩
  · -- only a flush changes the file
    rcases answer with message | _ | _
    · rw [hkeeps.other (by simp)]
      rfl
    · rw [hkeeps.other (by simp)]
      rfl
    · rw [hkeeps.flushed rfl]
      exact flushed_eq _ _
  · rcases answer with message | _ | _
    · simp [snapshotOf]
    · simp [snapshotOf]
    · rintro p hp
      obtain rfl := Option.some.inj hp
      exact hkeeps.startTime
  · funext j
    -- the other exporters are not touched
    by_cases hj : j = i
    · subst hj
      simpa [Fleet.startTime] using hkeeps.startTime
    · simp [Fleet.startTime, hj]

/-- **A run**: what was flushed is published in order, and the start times stay. -/
theorem fleet_run (st : Fleet ι) (calls : List (ι × ExporterCall)) :
    loadExisting (fleet.run st calls).2.statFile =
      publishAll FuzzerSession.startTime (loadExisting st.statFile) (flushes st calls) ∧
    (∀ p ∈ flushes st calls, p.2.startTime = st.startTime p.1) ∧
    (fleet.run st calls).2.startTime = st.startTime := by
  induction calls using List.reverseRecOn with
  | nil => exact ⟨rfl, by simp [flushes], rfl⟩
  | append_singleton calls c ih =>
    obtain ⟨hfile, hsessions, htimes⟩ := ih
    obtain ⟨hstep, hflushed, hkept⟩ := fleet_step (fleet.run st calls).2 c
    rw [flushes_concat, Machine.run_concat]
    refine ⟨?_, ?_, hkept.trans htimes⟩
    · rw [hstep, hfile]
      simp [publishAll]
    · intro p hp
      rcases List.mem_append.mp hp with hp | hp
      · exact hsessions p hp
      · rw [hflushed p (Option.mem_toList.mp hp), htimes]

/-- The flushes of the beginnings of a run are the beginnings of its flushes. -/
theorem forall_flushes_iff (st : Fleet ι) (calls : List (ι × ExporterCall))
    (P : List (ι × FuzzerSession) → Prop) :
    (∀ before, before <+: calls → P (flushes st before)) ↔
      ∀ qs, qs <+: flushes st calls → P qs := by
  induction calls using List.reverseRecOn with
  | nil => simp [flushes]
  | append_singleton calls c ih =>
    have hcalls : (∀ before, before <+: calls ++ [c] → P (flushes st before)) ↔
        P (flushes st (calls ++ [c])) ∧ ∀ before, before <+: calls → P (flushes st before) := by
      simp only [List.prefix_concat_iff, or_imp, forall_and, forall_eq]
    rw [hcalls, ih, flushes_concat]
    rcases (fleet.step (fleet.run st calls).2 c).1 with _ | p
    · simp only [Option.toList_none, List.append_nil]
      exact ⟨fun h => h.2, fun h => ⟨h _ (List.prefix_refl _), h⟩⟩
    · simp only [Option.toList_some, List.prefix_concat_iff, or_imp, forall_and, forall_eq]

/-- **The file lists every session once, with its latest snapshot, exactly if the exporters
take turns**: none flushes again after another one has, and the first one to flush does not
find its own start time at the end of the file. -/
theorem fleet_listsLatest_iff (st : Fleet ι) (hstart : Function.Injective st.startTime)
    (calls : List (ι × ExporterCall)) :
    (∀ before, before <+: calls →
      ListsLatest (loadExisting st.statFile) (loadExisting (fleet.run st before).2.statFile)
        (flushes st before)) ↔
      InTurns ((flushes st calls).map Prod.fst) ∧
        ∀ p ∈ (flushes st calls).head?,
          ¬ EndsWith FuzzerSession.startTime (loadExisting st.statFile) (st.startTime p.1) := by
  rw [← listsLatest_iff hstart (loadExisting st.statFile) _ (fleet_run st calls).2.1,
    ← forall_flushes_iff st calls fun qs => ListsLatest (loadExisting st.statFile)
      (publishAll FuzzerSession.startTime (loadExisting st.statFile) qs) qs]
  refine forall_congr' fun before => imp_congr_right fun _ => ?_
  rw [(fleet_run st before).1]

/-! ### Two exporters -/

/-- Two exporters, and no file yet. -/
def twoExporters : Fleet Bool where
  exporters i := { session := { startTime := if i then "2026-01-01T00:00:01"
                                             else "2026-01-01T00:00:00", workers := 1 } }
  statFile := .absent

theorem twoExporters_injective : Function.Injective twoExporters.startTime := by
  rintro (_ | _) (_ | _) h
  · rfl
  · exact absurd h (by decide)
  · exact absurd h (by decide)
  · rfl

/-- A final flush without statistics. -/
def bareFlush : ExporterCall := .finalFlush [] {}

/-- **Two exporters that take turns.** -/
theorem fleet_listsLatest_twoWriters :
    Function.Injective twoExporters.startTime ∧
    ∀ before, before <+: [(false, bareFlush), (false, bareFlush), (true, bareFlush)] →
      ListsLatest [] (loadExisting (fleet.run twoExporters before).2.statFile)
        (flushes twoExporters before) := by
  refine ⟨twoExporters_injective,
    (fleet_listsLatest_iff twoExporters twoExporters_injective _).mpr ⟨?_, ?_⟩⟩
  · have hflushes : (flushes twoExporters
        [(false, bareFlush), (false, bareFlush), (true, bareFlush)]).map Prod.fst =
        [false, false, true] := by decide
    have hsplit : [false, false, true] = (([] ++ [false]) ++ [false]) ++ [true] := rfl
    rw [hflushes, hsplit, inTurns_concat, inTurns_concat, inTurns_concat]
    simp [InTurns]
  · simp [twoExporters, loadExisting, EndsWith]

/-- **A session that is doubled**: an exporter flushes again after another one. -/
theorem not_listsLatest_threeFlushes :
    Function.Injective twoExporters.startTime ∧
    (loadExisting (fleet.run twoExporters
      [(false, bareFlush), (true, bareFlush), (false, bareFlush)]).2.statFile).map
        FuzzerSession.startTime =
      ["2026-01-01T00:00:00", "2026-01-01T00:00:01", "2026-01-01T00:00:00"] ∧
    ¬ ListsLatest [] (loadExisting (fleet.run twoExporters
        [(false, bareFlush), (true, bareFlush), (false, bareFlush)]).2.statFile)
      (flushes twoExporters [(false, bareFlush), (true, bareFlush), (false, bareFlush)]) := by
  have htimes : (loadExisting (fleet.run twoExporters
      [(false, bareFlush), (true, bareFlush), (false, bareFlush)]).2.statFile).map
        FuzzerSession.startTime =
      ["2026-01-01T00:00:00", "2026-01-01T00:00:01", "2026-01-01T00:00:00"] := by decide
  refine ⟨twoExporters_injective, htimes, fun h => ?_⟩
  have hlength := h.length
  have hwriters : ((flushes twoExporters
      [(false, bareFlush), (true, bareFlush), (false, bareFlush)]).map Prod.fst).toFinset.card =
      2 := by decide
  rw [hwriters, ← List.length_map FuzzerSession.startTime, htimes] at hlength
  exact absurd hlength (by decide)

end Apatchy
