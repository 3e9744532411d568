import Apatchy.Foundations.Loops
import Apatchy.Foundations.PathNames
import Apatchy.Foundations.Patterns
import Apatchy.Foundations.Search
import Apatchy.Fuzzers.StatsExporter

/-!
# The user interface of libFuzzer

`LibFuzzerUI` runs a harness and reads what it prints. Each line is taken apart with the
regular expressions of a status line, of a line of the fork mode and of a new function, and
searched for the report of a crash (`Apatchy.parseLine`); what it says goes into the
statistics on the screen and to the exporter, whose calls are recorded here in their order.

A harness that exits with code 1 is started again (`Apatchy.runLoop`). The code is that of a
crash, but also that of a harness which cannot initialise (`Apatchy.protoHarnessInit`), so
the loop ends exactly if some start exits with another code (`Apatchy.run_returns_iff`).
-/

namespace Apatchy

/-! ### The expressions -/

section Expressions

variable (kinds : CharKinds)

/-- `\s*`. -/
def blanks : List PatternPart := [.many isSpace]

/-- `\s+`. -/
def blanks1 : List PatternPart := some1 isSpace

/-- `\d+`. -/
def digits : List PatternPart := some1 kinds.isDigit

/-- `\S+`. -/
def nonBlanks : List PatternPart := some1 fun c => !isSpace c

/-- `_STATUS_RE`. -/
def statusRe : List PatternPart :=
  lit "#" ++ group (digits kinds) ++ blanks1 ++ group (some1 kinds.isWord) ++ blanks1 ++
  (lit "cov:" ++ blanks ++ group (digits kinds) ++ blanks1) ++
  (lit "ft:" ++ blanks ++ group (digits kinds) ++ blanks1) ++
  (lit "corp:" ++ blanks ++ group (digits kinds) ++ lit "/" ++ group nonBlanks ++ blanks1) ++
  (lit "lim:" ++ blanks ++ group (digits kinds) ++ blanks1) ++
  (lit "exec/s:" ++ blanks ++ group (digits kinds) ++ blanks1) ++
  (lit "rss:" ++ blanks ++ group (digits kinds ++ lit "Mb") ++ blanks1) ++
  (lit "L:" ++ blanks ++ group nonBlanks ++ blanks1) ++
  (lit "MS:" ++ blanks ++ digits kinds ++ blanks1 ++ group [.many (· ≠ '\n')])

/-- `_FORK_RE`. -/
def forkRe : List PatternPart :=
  lit "#" ++ group (digits kinds) ++ lit ":" ++ blanks1 ++
  (lit "cov:" ++ blanks ++ group (digits kinds) ++ blanks1) ++
  (lit "ft:" ++ blanks ++ group (digits kinds) ++ blanks1) ++
  (lit "corp:" ++ blanks ++ group (digits kinds) ++ blanks1) ++
  (lit "exec/s:" ++ blanks ++ group (digits kinds) ++ blanks1) ++
  (lit "oom/timeout/crash:" ++ blanks ++ group (digits kinds) ++ lit "/" ++
    group (digits kinds) ++ lit "/" ++ group (digits kinds) ++ blanks1) ++
  (lit "time:" ++ blanks ++ group (digits kinds) ++ lit "s" ++ blanks1) ++
  (lit "job:" ++ blanks ++ group (digits kinds))

/-- `_NEW_FUNC_RE`. -/
def newFuncRe : List PatternPart :=
  lit "NEW_FUNC" ++ [.few (· ≠ '\n')] ++ lit " in " ++ group nonBlanks ++ blanks1 ++
    group nonBlanks

/-- `_ANSI_RE`. -/
def ansiRe : List PatternPart :=
  lit "\x1b[" ++ [.many fun c => c.isDigit || c == ';', .one Char.isAlpha]

end Expressions

/-! ### One line -/

/-- What `LibFuzzerUI` works with: the statistics on the screen, the number of workers, and
whether there is an exporter. -/
structure LibFuzzerUI where
  /-- `stats`. -/
  stats : Stats :=
    [("run", "0"), ("event", "INIT"), ("cov", "0"), ("ft", "0"), ("corp_n", "0"),
      ("corp_size", "0b"), ("limit", "0"), ("exec_s", "0"), ("rss", "0Mb"), ("length", "0/0"),
      ("strategy", "-")]
  /-- `workers`. -/
  workers : ℕ := 1
  /-- Whether there is an `exporter`. -/
  hasExporter : Bool := true
deriving DecidableEq

/-- `self.stats[key] = value`. -/
def Stats.set (key value : String) : Stats → Stats
  | [] => [(key, value)]
  | (k, v) :: stats => if k = key then (k, value) :: stats else (k, v) :: set key value stats

/-- `str.rstrip` of one character. -/
def rstripChar (c : Char) (cs : List Char) : List Char :=
  (cs.reverse.dropWhile (· = c)).reverse

/-- A line that the harness has printed, and what there is around it when it is read. -/
structure OutputLine where
  /-- The line. -/
  text : String
  /-- When. -/
  moment : Moment := {}
  /-- The number of files of the corpus. -/
  corpus : ℕ := 0

/-- `m.group(i)`. -/
def groupText (groups : List (List Char)) (i : ℕ) : String :=
  String.ofList (groups.getD (i - 1) [])

/-- The strategy of a status line: two trims of its last group. -/
def strategyOf (cs : List Char) : String := strip (String.ofList (rstripChar '-' cs))

/-- What a status line says. -/
def statusLine (ui : LibFuzzerUI) (groups : List (List Char)) : LibFuzzerUI × List ExporterCall :=
  let g := groupText groups
  let strategy := strategyOf (groups.getD 10 [])
  let stats := ui.stats.set "run" (g 1) |>.set "event" (g 2) |>.set "cov" (g 3)
    |>.set "ft" (g 4) |>.set "corp_n" (g 5) |>.set "corp_size" (g 6) |>.set "limit" (g 7)
    |>.set "exec_s" (g 8) |>.set "rss" (g 9) |>.set "length" (g 10) |>.set "strategy" strategy
  ({ ui with stats := stats },
    if g 2 = "NEW" ∧ ui.hasExporter ∧ strategy ≠ "" then [.recordMutators strategy] else [])

/-- What a line of the fork mode says. -/
def forkLine (kinds : CharKinds) (ui : LibFuzzerUI) (corpus : ℕ) (groups : List (List Char)) :
    LibFuzzerUI × List ExporterCall :=
  let g := groupText groups
  let most (key : String) (i : ℕ) : String :=
    toString (max (kinds.value (g i).toList)
      (kinds.value ((ui.stats.lookup key).getD "0").toList))
  let stats := ui.stats.set "run" (g 1) |>.set "event" ("job " ++ g 10)
    |>.set "cov" (most "cov" 2) |>.set "ft" (most "ft" 3)
    |>.set "corp_n" (if corpus > 0 then toString corpus else g 4)
    |>.set "exec_s" (toString (kinds.value (g 5).toList * ui.workers))
    |>.set "worker_exec_s" (g 5)
    |>.set "strategy" ("oom:" ++ g 6 ++ " tout:" ++ g 7 ++ " crash:" ++ g 8)
  -- the fork mode tells the exporter nothing
  ({ ui with stats := stats }, [])

/-- The path of a new function, from below the directory of httpd on. -/
def belowHttpd (path : List Char) : List Char :=
  let rest := (path.splitOn '/').dropWhile fun part => ¬ "httpd-".toList <+: part
  if rest = [] then path else List.intercalate ['/'] rest.tail

/-- What the line of a new function says. -/
def newFuncLine (ui : LibFuzzerUI) (moment : Moment) (groups : List (List Char)) :
    LibFuzzerUI × List ExporterCall :=
  let value := groupText groups 1 ++ "  (" ++ String.ofList (belowHttpd (groups.getD 1 [])) ++ ")"
  ({ ui with stats := ui.stats.set "last_func" value },
    if ui.hasExporter then [.recordEvent "last_func" value moment] else [])

/-- The text that reports a crash. -/
def crashReport : String := "Test unit written to"

/-- The name of the file of a crash. -/
def crashName (line : List Char) : String :=
  let behind := (rfind crashReport.toList line).map fun i => line.drop (i + crashReport.length)
  let path := strip (String.ofList (rstripChar ';' (strip (String.ofList (behind.getD []))).toList))
  if path = "" then "unknown"
  else String.ofList ((PathName.parse path).parts.getLast?.getD [])

/-- **`_parse_line`**: the calls of the exporter, and the statistics afterwards. -/
def parseLine (kinds : CharKinds) (ui : LibFuzzerUI) (line : OutputLine) :
    LibFuzzerUI × List ExporterCall :=
  let cs := line.text.toList
  match reMatch (statusRe kinds) cs with
  | some groups => statusLine ui groups
  | none =>
    match reMatch (forkRe kinds) cs with
    | some groups => forkLine kinds ui line.corpus groups
    | none =>
      match reSearch newFuncRe cs with
      | some groups => newFuncLine ui line.moment groups
      | none =>
        if containsText crashReport line.text ∧ ui.hasExporter then
          (ui, [.recordEvent "crash" (crashName cs) line.moment])
        else (ui, [])

/-! ### The loop -/

/-- One start of the harness: what it prints, and the code it exits with. -/
structure HarnessStart where
  /-- The lines it prints. -/
  output : List OutputLine
  /-- `returncode`. -/
  returncode : ℤ

/-- The variables of `run`, with the calls of the exporter made so far and the number of
starts; the code is kept once the loop is left. -/
structure RunState where
  /-- The interface. -/
  ui : LibFuzzerUI := {}
  /-- The calls of the exporter. -/
  calls : List ExporterCall := []
  /-- The starts. -/
  starts : ℕ := 0
  /-- `returncode`, where the loop is left. -/
  left : Option ℤ := none

/-- A line, once it is read: blank lines are passed over, and the colours are taken out. -/
def readLine (kinds : CharKinds) (st : RunState) (line : OutputLine) : RunState :=
  let clean := rstripChars line.text.toList
  if clean = [] then st
  else
    let parsed := parseLine kinds st.ui
      { line with text := String.ofList (reRemove ansiRe 0 clean) }
    let pulse :=
      if parsed.1.hasExporter then [ExporterCall.maybePulse parsed.1.stats line.moment] else []
    { st with ui := parsed.1, calls := st.calls ++ parsed.2 ++ pulse }

/-- **The loop of `run`**, for a command whose starts are given: code 1 starts it again. -/
def runLoop (kinds : CharKinds) (command : ℕ → HarnessStart) : Loop RunState where
  turn st :=
    if st.left.isSome then none
    else
      -- the harness is started again only after code 1, which stands for a crash
      let start := command st.starts
      let st := start.output.foldl (readLine kinds) st
      some { st with
        starts := st.starts + 1
        left := if start.returncode = 1 then none else some start.returncode }

/-- **`run` returns**, after finitely many starts. -/
def Returns (kinds : CharKinds) (command : ℕ → HarnessStart) (ui : LibFuzzerUI) : Prop :=
  ∃ st, (runLoop kinds command).Ends { ui := ui } st

/-! ### When the loop ends -/

section Loop

variable (kinds : CharKinds) (command : ℕ → HarnessStart)

/-- Reading a line does not touch the loop. -/
theorem readLine_frame (st : RunState) (line : OutputLine) :
    (readLine kinds st line).starts = st.starts ∧ (readLine kinds st line).left = st.left := by
  rw [readLine]
  split_ifs <;> exact ⟨rfl, rfl⟩

theorem foldl_readLine_frame (st : RunState) (output : List OutputLine) :
    (output.foldl (readLine kinds) st).starts = st.starts ∧
      (output.foldl (readLine kinds) st).left = st.left := by
  induction output generalizing st with
  | nil => exact ⟨rfl, rfl⟩
  | cons line output ih =>
    obtain ⟨hstarts, hleft⟩ := readLine_frame kinds st line
    obtain ⟨hstarts', hleft'⟩ := ih (readLine kinds st line)
    exact ⟨hstarts'.trans hstarts, hleft'.trans hleft⟩

variable {kinds command}

/-- **The turns of the loop**: a start, and its code. -/
theorem runLoop_turn {st st' : RunState} (h : (runLoop kinds command).turn st = some st') :
    st.left = none ∧ st'.starts = st.starts + 1 ∧
      st'.left = if (command st.starts).returncode = 1 then none
        else some (command st.starts).returncode := by
  simp only [runLoop] at h
  split_ifs at h with hleft hcode
  · obtain rfl := Option.some.inj h
    refine ⟨by simpa using hleft, ?_, by rw [if_pos hcode]⟩
    simp only [(foldl_readLine_frame kinds st (command st.starts).output).1]
  · obtain rfl := Option.some.inj h
    refine ⟨by simpa using hleft, ?_, by rw [if_neg hcode]⟩
    simp only [(foldl_readLine_frame kinds st (command st.starts).output).1]

/-- The loop goes on while no code was kept. -/
theorem exists_runLoop_turn {st : RunState} (h : st.left = none) :
    ∃ st', (runLoop kinds command).turn st = some st' := by
  simp [runLoop, h]

variable (kinds) in
/-- **While every start exits with code 1**, the loop goes on. -/
theorem not_returns_of_all_one (hone : ∀ n, (command n).returncode = 1) (ui : LibFuzzerUI) :
    ¬ Returns kinds command ui := by
  rintro ⟨st, hends⟩
  have hon : ∀ st : RunState, st.left = none →
      ∃ st', (runLoop kinds command).turn st = some st' ∧ st'.left = none := by
    intro st hst
    obtain ⟨st', hst'⟩ := @exists_runLoop_turn kinds command st hst
    refine ⟨st', hst', ?_⟩
    rw [(runLoop_turn hst').2.2, if_pos (hone _)]
  exact (runLoop kinds command).not_ends_of_goes_on hon rfl st hends

variable (kinds command) in
/-- **When `run` returns**: exactly if some start exits with a code other than 1. -/
theorem run_returns_iff (ui : LibFuzzerUI) :
    Returns kinds command ui ↔ ∃ n, (command n).returncode ≠ 1 := by
  constructor
  · intro hreturns
    by_contra hnone
    push Not at hnone
    exact not_returns_of_all_one kinds hnone ui hreturns
  · rintro ⟨n, hn⟩
    -- the number of starts up to the good one falls with each turn
    have hturn : ∀ st st', (runLoop kinds command).turn st = some st' →
        (st.left = none → st.starts ≤ n) →
        (st'.left = none → st'.starts ≤ n) ∧
          (if st'.left.isSome then 0 else n + 1 - st'.starts) <
            if st.left.isSome then 0 else n + 1 - st.starts := by
      intro st st' h hle
      obtain ⟨hleft, hstarts, hcode⟩ := runLoop_turn h
      have hbound := hle hleft
      by_cases hone : (command st.starts).returncode = 1
      · have hne : st.starts ≠ n := fun heq => hn (heq ▸ hone)
        rw [if_pos hone] at hcode
        simp only [hcode, hleft, hstarts, Option.isSome_none, Bool.false_eq_true, if_false]
        omega
      · rw [if_neg hone] at hcode
        simp only [hcode, hleft, reduceCtorEq, false_implies, Option.isSome_some, if_true,
          Option.isSome_none, Bool.false_eq_true, if_false, true_and]
        omega
    obtain ⟨st, hends, -⟩ := (runLoop kinds command).ends_of_measure
      (fun st => if st.left.isSome then 0 else n + 1 - st.starts) hturn
      (s := { ui := ui }) (fun _ => Nat.zero_le n)
    exact ⟨st, hends⟩

end Loop

/-! ### A harness that cannot initialise -/

/-- `g_init_done` and `g_init_failed`. -/
structure InitState where
  /-- `g_init_done`. -/
  done : Bool := false
  /-- `g_init_failed`. -/
  failed : Bool := false

/-- **`proto_harness_init`**, over `fuzz_init` and the two variables of the environment. Where
`fuzz_init` fails, the process exits. -/
def protoHarnessInit (fuzzInit : String → String → ℤ) (conf root : Option String)
    (st : InitState) : Except HarnessStart (Bool × InitState) :=
  if st.failed then .ok (false, st)
  else if st.done then .ok (true, st)
  else if fuzzInit (conf.getD "fuzz.conf") (root.getD ".") < 0 then
    .error { output := [{ text := "Fuzzer initialization failed" }], returncode := 1 }
  else .ok (true, { st with done := true })

/-- A start of a harness that initialises itself first. -/
def startOf (fuzzInit : String → String → ℤ) (conf root : Option String)
    (fuzz : HarnessStart) : HarnessStart :=
  match protoHarnessInit fuzzInit conf root {} with
  | .error start => start
  | .ok _ => fuzz

/-- From some start on, every one exits with code 1 and reports no crash. -/
def FindsNothing (command : ℕ → HarnessStart) : Prop :=
  ∃ n₀, ∀ n ≥ n₀, (command n).returncode = 1 ∧
    ∀ line ∈ (command n).output, ¬ containsText crashReport line.text

/-- A harness that finds nothing, since it cannot initialise, is started for ever. -/
theorem not_returns_of_findsNothing :
    ¬ ∀ (kinds : CharKinds) (command : ℕ → HarnessStart) (ui : LibFuzzerUI),
      FindsNothing command → Returns kinds command ui := by
  intro h
  have hnothing : FindsNothing fun _ => startOf (fun _ _ => -1) none none ⟨[], 0⟩ := by
    refine ⟨0, fun n _ => ⟨rfl, ?_⟩⟩
    intro line hline
    obtain rfl : line = { text := "Fuzzer initialization failed" } := List.mem_singleton.mp hline
    decide
  exact not_returns_of_all_one CharKinds.ascii (fun _ => rfl) {} (h CharKinds.ascii _ {} hnothing)

end Apatchy
