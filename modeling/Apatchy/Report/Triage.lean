import Apatchy.Foundations.Counters
import Apatchy.Foundations.FindAll
import Apatchy.Fuzzers.LibFuzzerUI

/-!
# Triage of crashes

`triage_bulk` replays every file of a directory of crashes and reads what the sanitizers print:
the kinds of bugs in their summary lines, which get short labels (`Apatchy.classifyBugs`), and
the place of the crash. A row of the table is made of each file, and each of its labels is
counted.

The labels of a file are joined to a text, which is split again to count them. No label has a
blank, since the expression for a summary line takes none, so the counts are those of the files
that have each label (`Apatchy.bulkTriage_counts`). A file that ran without a report is left out
of the table, but counted.

The expression for a summary line may run over the end of the line. It does not in what
sanitizers print, so that all their summary lines are found, and nothing else
(`Apatchy.classifyBugs_report`).
-/

namespace Apatchy

/-! ### Classification -/

/-- `_BUG_LABELS`. -/
def bugLabels : List (String × String) :=
  [("heap-use-after-free", "UAF"), ("heap-buffer-overflow", "heap-overflow"),
    ("stack-buffer-overflow", "stack-overflow"), ("global-buffer-overflow", "global-overflow"),
    ("double-free", "double-free"), ("SEGV", "SEGV"), ("integer-overflow", "int-overflow"),
    ("unsigned-integer-overflow", "int-overflow"),
    ("stack-use-after-return", "use-after-return"), ("use-after-poison", "use-after-poison"),
    ("null-dereference", "null-deref"), ("FPE", "FPE"), ("requested-alignment", "alignment"),
    ("alloc-dealloc-mismatch", "alloc-mismatch")]

/-- `_BUG_LABELS.get(raw, raw)`. -/
def bugLabel (raw : String) : String := (bugLabels.lookup raw).getD raw

/-- `SUMMARY:\s*\S+:\s*(\S+)`. -/
def summaryRe : List PatternPart :=
  lit "SUMMARY:" ++ blanks ++ nonBlanks ++ lit ":" ++ blanks ++ group nonBlanks

/-- The kinds of bugs that the summary lines name. -/
def bugKinds (stderr : String) : List String :=
  (findLines summaryRe 0 true stderr.toList).map fun groups => groupText groups 1

/-- `sep.join(parts)`. -/
def joinText (sep : String) (parts : List String) : String :=
  String.ofList (List.intercalate sep.toList (parts.map String.toList))

/-- `text.split(sep)`. -/
def splitText (sep text : String) : List String :=
  (splitAll sep.toList 0 text.toList).map String.ofList

/-- **`_classify_bugs`.** -/
def classifyBugs (stderr : String) : String :=
  let labels := firsts id ((bugKinds stderr).map bugLabel)
  if labels ≠ [] then joinText ", " labels else "unknown"

/-- A hexadecimal digit, small or capital. -/
def isAnyHexDigit (c : Char) : Bool :=
  c.isDigit || ('a' ≤ c && c ≤ 'f') || ('A' ≤ c && c ≤ 'F')

/-- `0x[0-9a-fA-F]+`. -/
def hexNumber : List PatternPart := lit "0x" ++ some1 isAnyHexDigit

/-- `_extract_crash_site`. -/
def extractCrashSite (stderr : String) : String :=
  let pc := (reSearch (lit "(pc" ++ blanks1 ++ group hexNumber) stderr.toList).map
    fun groups => groupText groups 1
  let frame := reSearch
    (lit "#0" ++ blanks1 ++ group hexNumber ++ blanks1 ++ lit "in" ++ blanks1 ++ group nonBlanks)
    stderr.toList
  match pc, frame with
  | some pc, some frame => pc ++ " (" ++ groupText frame 2 ++ ")"
  | none, some frame => groupText frame 1 ++ " (" ++ groupText frame 2 ++ ")"
  | some pc, none => pc
  | none, none => "-"

/-- `_format_exit`, for the names of the signals. -/
def formatExit (signalName : ℕ → Option String) (returncode : ℤ) : String :=
  if returncode < 0 then
    (signalName (-returncode).toNat).getD "SIG?" ++ "(" ++ toString returncode ++ ")"
  else toString returncode

/-! ### The loop over the files -/

/-- How the replay of a file ends. -/
inductive TriageOutcome
  /-- The harness ends. -/
  | ran (returncode : ℤ) (stderr : String)
  /-- It does not end in time. -/
  | timedOut
  /-- It could not be run. -/
  | failed (error : String)

/-- An entry of the directory of crashes. -/
structure CrashFile where
  /-- Its name. -/
  name : String
  /-- Whether it is a file. -/
  isFile : Bool := true
  /-- What becomes of it. -/
  outcome : TriageOutcome

/-- A row of the table. -/
structure TriageRow where
  /-- "File". -/
  file : String
  /-- "Bug Type". -/
  bugType : String
  /-- "Crash Site". -/
  crashSite : String
  /-- "Exit". -/
  exitCode : String
deriving DecidableEq

/-- What `triage_bulk` collects. -/
structure BulkTriage where
  /-- `results`. -/
  results : List TriageRow := []
  /-- `bug_counts`. -/
  bugCounts : Counter String := []

variable (signalName : ℕ → Option String)

/-- One turn of the loop. -/
def triageFile (found : BulkTriage) (file : CrashFile) : BulkTriage :=
  match file.outcome with
  | .ran returncode stderr =>
    let bugType := classifyBugs stderr
    -- without a summary an exit with code 0 is no crash
    let bugType := if returncode = 0 ∧ bugType = "unknown" then "ok" else bugType
    { results := found.results ++
        [⟨file.name, bugType, extractCrashSite stderr, formatExit signalName returncode⟩]
      bugCounts := (splitText ", " bugType).foldl (fun counts label => counts.add label)
        found.bugCounts }
  | .timedOut =>
    { results := found.results ++ [⟨file.name, "timeout", "-", "-"⟩]
      bugCounts := found.bugCounts.add "timeout" }
  | .failed error =>
    { results := found.results ++ [⟨file.name, "error: " ++ error, "-", "-"⟩]
      bugCounts := found.bugCounts.add "error" }

/-- The loop. -/
def bulkTriage (files : List CrashFile) : BulkTriage :=
  files.foldl (triageFile signalName) {}

/-- The files of a directory, in the order of their names. -/
def crashFiles (entries : List CrashFile) : List CrashFile :=
  (entries.filter CrashFile.isFile).mergeSort fun a b => a.name ≤ b.name

/-- The numbers of the labels, as they are printed. -/
def countsText (number : ℕ → String) (counts : Counter String) : String :=
  joinText ", " (counts.mostCommon.map fun entry => number entry.2 ++ " " ++ entry.1)

/-- What is shown in the end. -/
structure TriageReport where
  /-- The rows of the table. -/
  rows : List TriageRow
  /-- The line below it. -/
  totals : String

/-- **`triage_bulk`**, for what is in the directory, if it is one, and the environment or what
is wrong with it. -/
def triageBulk (crashDir : String) (listing : Option (List CrashFile))
    (env : Except String Unit) : Except String TriageReport :=
  match listing with
  | none => .error ("Not a directory: " ++ crashDir)
  | some entries =>
    let files := crashFiles entries
    if files = [] then .error ("No files found in " ++ crashDir)
    else do
      env
      let found := bulkTriage signalName files
      pure
        { rows := found.results.filter (·.bugType ≠ "ok")
          totals := "\n[dim]" ++ toString found.results.length ++ " crashes triaged:[/dim] " ++
            countsText (fun n => "[bold]" ++ toString n ++ "[/bold]") found.bugCounts }

/-! ### Labels -/

/-- The labels of the summary lines, each once. -/
def foundLabels (stderr : String) : List String :=
  let labels := firsts id ((bugKinds stderr).map bugLabel)
  if labels ≠ [] then labels else ["unknown"]

/-- **The labels of a file**: those of its summary lines, or whether it ran without a report. -/
def TriageOutcome.labels : TriageOutcome → List String
  | .ran returncode stderr =>
    if returncode = 0 ∧ foundLabels stderr = ["unknown"] then ["ok"] else foundLabels stderr
  | .timedOut => ["timeout"]
  | .failed _ => ["error"]

theorem splitText_joinText {labels : List String} (hne : labels ≠ [])
    (hlabels : ∀ l ∈ labels, ' ' ∉ l.toList) : splitText ", " (joinText ", " labels) = labels := by
  have hwords : labels.map String.toList ≠ [] := by simpa using hne
  have hsplit : splitAll ([','] ++ [' ']) 0
      (List.intercalate ([','] ++ [' ']) (labels.map String.toList)) =
        labels.map String.toList :=
    splitAll_intercalate (by decide) hwords (by simpa using hlabels)
  show (splitAll ([','] ++ [' ']) 0 (String.ofList
    (List.intercalate ([','] ++ [' ']) (labels.map String.toList))).toList).map String.ofList = _
  rw [String.toList_ofList, hsplit]
  simp

/-- **A kind of bug has no blank.** -/
theorem notSpace_of_mem_bugKinds {stderr raw : String} (h : raw ∈ bugKinds stderr) :
    ∀ c ∈ raw.toList, isSpace c = false := by
  obtain ⟨groups, hgroups, rfl⟩ := List.mem_map.mp h
  obtain ⟨cs, marks, hmatch, rfl⟩ := exists_of_mem_findLines hgroups
  have hparts : summaryRe ++ [.mark] =
      (lit "SUMMARY:" ++ blanks ++ nonBlanks ++ lit ":" ++ blanks) ++
        (group nonBlanks ++ [.mark]) := by
    simp only [summaryRe, List.append_assoc]
  rw [hparts] at hmatch
  obtain ⟨rest, -, hgroup⟩ := exists_suffix_of_matchParts
    (by simp [lit, blanks, nonBlanks, some1]) hmatch
  obtain ⟨kind, back, marks', rfl, -, hkind, -, rfl⟩ := of_matchParts_group_some1 hgroup
  intro c hc
  simp only [groupText, captures_group] at hc
  simpa using hkind c (by simpa using hc)

/-- A label has none either. -/
theorem notSpace_bugLabel {raw : String} (h : ∀ c ∈ raw.toList, isSpace c = false) :
    ' ' ∉ (bugLabel raw).toList := by
  have htable : ∀ entry ∈ bugLabels, ' ' ∉ entry.2.toList := by decide +kernel
  rw [bugLabel]
  rcases hlookup : bugLabels.lookup raw with _ | label
  · exact fun hmem => absurd (h ' ' hmem) (by decide)
  · obtain ⟨front, back, hback, -⟩ := List.lookup_eq_some_iff.mp hlookup
    exact htable (raw, label) (by rw [hback]; simp)

/-- **Labels that can be joined and split**, and counted. -/
structure Countable (labels : List String) : Prop where
  /-- There is one. -/
  ne_nil : labels ≠ []
  /-- None is there twice. -/
  nodup : labels.Nodup
  /-- None has a blank. -/
  notSpace : ∀ l ∈ labels, ' ' ∉ l.toList

theorem countable_singleton {label : String} (h : ' ' ∉ label.toList) : Countable [label] where
  ne_nil := List.cons_ne_nil _ _
  nodup := List.nodup_singleton _
  notSpace := by simpa using h

theorem countable_foundLabels (stderr : String) : Countable (foundLabels stderr) := by
  rw [foundLabels]
  split_ifs with hne
  · refine ⟨hne, ?_, fun l hl => ?_⟩
    · have hnodup := @nodup_map_firsts _ _ _ id ((bugKinds stderr).map bugLabel)
      rwa [List.map_id] at hnodup
    · obtain ⟨raw, hraw, rfl⟩ := List.mem_map.mp ((firsts_sublist _).subset hl)
      exact notSpace_bugLabel (notSpace_of_mem_bugKinds hraw)
  · exact countable_singleton (by decide +kernel)

theorem TriageOutcome.countable_labels (outcome : TriageOutcome) : Countable outcome.labels := by
  rcases outcome with ⟨returncode, stderr⟩ | _ | _
  · rw [labels]
    split_ifs
    · exact countable_singleton (by decide +kernel)
    · exact countable_foundLabels stderr
  · exact countable_singleton (by decide +kernel)
  · exact countable_singleton (by decide +kernel)

/-- `", ".join` of one label. -/
theorem joinText_singleton (label : String) : joinText ", " [label] = label := by
  rw [joinText, List.map_singleton, List.intercalate_singleton, String.ofList_toList]

theorem classifyBugs_eq (stderr : String) :
    classifyBugs stderr = joinText ", " (foundLabels stderr) := by
  rw [classifyBugs, foundLabels]
  split_ifs
  · rfl
  · rw [joinText_singleton]

/-- Joined labels are one label exactly if there is only that one. -/
theorem joinText_eq_iff {labels : List String} (h : Countable labels) {label : String}
    (hlabel : ' ' ∉ label.toList) : joinText ", " labels = label ↔ labels = [label] := by
  constructor
  · intro heq
    have hone := countable_singleton hlabel
    calc labels = splitText ", " (joinText ", " labels) :=
          (splitText_joinText h.ne_nil h.notSpace).symm
      _ = splitText ", " (joinText ", " [label]) := by rw [heq, joinText_singleton]
      _ = [label] := splitText_joinText hone.ne_nil hone.notSpace
  · rintro rfl
    exact joinText_singleton label

/-- The bug type of a file that ran is its labels, joined. -/
theorem bugType_eq (returncode : ℤ) (stderr : String) :
    (if returncode = 0 ∧ classifyBugs stderr = "unknown" then "ok" else classifyBugs stderr) =
      joinText ", " (TriageOutcome.ran returncode stderr).labels := by
  have hunknown : ' ' ∉ "unknown".toList := by decide +kernel
  simp only [TriageOutcome.labels, classifyBugs_eq,
    joinText_eq_iff (countable_foundLabels stderr) hunknown]
  split_ifs
  · rw [joinText_singleton]
  · rfl

/-! ### The table and the counts -/

/-- The row of a file. -/
def triageRow (file : CrashFile) : TriageRow :=
  match file.outcome with
  | .ran returncode stderr =>
    ⟨file.name, joinText ", " file.outcome.labels, extractCrashSite stderr,
      formatExit signalName returncode⟩
  | .timedOut => ⟨file.name, "timeout", "-", "-"⟩
  | .failed error => ⟨file.name, "error: " ++ error, "-", "-"⟩

/-- **One turn adds a row**, and counts the labels. -/
theorem triageFile_eq (found : BulkTriage) (file : CrashFile) :
    triageFile signalName found file =
      { results := found.results ++ [triageRow signalName file]
        bugCounts := file.outcome.labels.foldl (fun counts label => counts.add label)
          found.bugCounts } := by
  have hlabels := file.outcome.countable_labels
  rcases houtcome : file.outcome with ⟨returncode, stderr⟩ | _ | error
  · rw [houtcome] at hlabels
    simp only [triageFile, triageRow, houtcome, bugType_eq,
      splitText_joinText hlabels.ne_nil hlabels.notSpace]
  · simp only [triageFile, triageRow, houtcome]
    rfl
  · simp only [triageFile, triageRow, houtcome]
    rfl

/-- **The loop makes the rows in order**, and counts all labels. -/
theorem bulkTriage_eq (files : List CrashFile) :
    bulkTriage signalName files =
      { results := files.map (triageRow signalName)
        bugCounts := Counter.tally (files.flatMap fun file => file.outcome.labels) } := by
  induction files using List.reverseRecOn with
  | nil => rfl
  | append_singleton files file ih =>
    have hstep : bulkTriage signalName (files ++ [file]) =
        triageFile signalName (bulkTriage signalName files) file := by
      rw [bulkTriage, List.foldl_append]
      rfl
    rw [hstep, triageFile_eq, ih, List.map_append, List.flatMap_append, Counter.tally,
      Counter.tally, List.foldl_append]
    simp

/-- A file is left out of the table exactly if its only label is "ok". -/
theorem bugType_eq_ok_iff (file : CrashFile) :
    (triageRow signalName file).bugType = "ok" ↔ file.outcome.labels = ["ok"] := by
  rcases houtcome : file.outcome with ⟨returncode, stderr⟩ | _ | error
  · rw [triageRow, houtcome]
    exact joinText_eq_iff (TriageOutcome.countable_labels _) (by decide +kernel)
  · rw [triageRow, houtcome]
    exact iff_of_false (by simp) (by simp [TriageOutcome.labels])
  · rw [triageRow, houtcome]
    refine iff_of_false (fun h => ?_) (by simp [TriageOutcome.labels])
    have hlength := congrArg String.length h
    have herror : "error: ".length = 7 := by decide
    have hok : "ok".length = 2 := by decide
    simp only [String.length_append] at hlength
    omega

/-- **The numbers of the labels**, for the entries of a directory: each label that a file has,
with the number of the files that have it, the greatest first. -/
structure CountsLabels (entries : List CrashFile) (counts : List (String × ℕ)) : Prop where
  /-- What is counted. -/
  mem_iff : ∀ label n, (label, n) ∈ counts ↔
    n = entries.countP (fun file => file.isFile && (file.outcome.labels.contains label)) ∧ 0 < n
  /-- No label is counted twice. -/
  nodup : (counts.map Prod.fst).Nodup
  /-- The greatest number comes first. -/
  sorted : counts.Pairwise fun a b => b.2 ≤ a.2

theorem joinText_eq_intercalate (sep : String) (parts : List String) :
    joinText sep parts = sep.intercalate parts := by
  rw [joinText, ← String.toList_intercalate, String.ofList_toList]

/-- The labels of the files are counted once for each file that has them. -/
theorem countsLabels_mostCommon (entries : List CrashFile) :
    CountsLabels entries (Counter.tally
      ((crashFiles entries).flatMap fun file => file.outcome.labels)).mostCommon where
  mem_iff label n := by
    have hget := Counter.get_tally_flatMap (fun file : CrashFile => file.outcome.labels)
      (crashFiles entries) (fun file _ => file.outcome.countable_labels.nodup) label
    have hperm : (crashFiles entries).Perm (entries.filter CrashFile.isFile) :=
      List.mergeSort_perm _ _
    rw [hperm.countP_eq, List.countP_filter, Counter.get_tally] at hget
    have hcount : (entries.countP fun file => file.isFile && file.outcome.labels.contains label) =
        ((crashFiles entries).flatMap fun file => file.outcome.labels).count label := by
      rw [hget]
      exact List.countP_congr fun file _ => by simp [and_comm]
    rw [Counter.mem_mostCommon, Counter.mem_tally, hcount, ← List.count_pos_iff]
    constructor
    · rintro ⟨hpos, rfl⟩
      exact ⟨rfl, hpos⟩
    · rintro ⟨rfl, hpos⟩
      exact ⟨hpos, rfl⟩
  nodup := Counter.nodup_keys_mostCommon (Counter.nodup_keys_tally _)
  sorted := Counter.sorted_mostCommon _

/-- **What the table and the totals say**: whatever the files of a directory make the harness
print, there is a row for each, in the order of their names; the rows that are shown are those
of the files that have another label than "ok"; and the line below them says how many files
there were, and of each label how many have it. -/
theorem bulkTriage_counts (entries : List CrashFile) :
    let files := crashFiles entries
    files.Perm (entries.filter CrashFile.isFile) ∧ files.Pairwise (fun a b => a.name ≤ b.name) ∧
      (bulkTriage signalName files).results = files.map (triageRow signalName) ∧
      ∃ counts, CountsLabels entries counts ∧
        ∀ crashDir env, triageBulk signalName crashDir (some entries) env =
          if files = [] then .error ("No files found in " ++ crashDir)
          else env.map fun _ =>
            { rows :=
                (files.filter fun file => file.outcome.labels ≠ ["ok"]).map (triageRow signalName)
              totals := "\n[dim]" ++ toString (entries.countP CrashFile.isFile) ++
                " crashes triaged:[/dim] " ++ ", ".intercalate (counts.map fun entry =>
                  "[bold]" ++ toString entry.2 ++ "[/bold] " ++ entry.1) } := by
  have hperm : (crashFiles entries).Perm (entries.filter CrashFile.isFile) :=
    List.mergeSort_perm _ _
  have hshown : ∀ files : List CrashFile,
      ((files.map (triageRow signalName)).filter (·.bugType ≠ "ok")) =
        (files.filter fun file => file.outcome.labels ≠ ["ok"]).map (triageRow signalName) := by
    intro files
    rw [List.filter_map]
    refine congrArg _ (List.filter_congr fun file _ => ?_)
    simp [bugType_eq_ok_iff]
  have hlength : ((crashFiles entries).map (triageRow signalName)).length =
      entries.countP CrashFile.isFile := by
    rw [List.length_map, hperm.length_eq, List.countP_eq_length_filter]
  simp only [bulkTriage_eq]
  refine ⟨hperm, ?_, trivial, _, countsLabels_mostCommon entries, fun crashDir env => ?_⟩
  · -- sorted by name, which is a total order
    have htrans : ∀ a b c : CrashFile, decide (a.name ≤ b.name) = true →
        decide (b.name ≤ c.name) = true → decide (a.name ≤ c.name) = true := fun a b c hab hbc =>
      decide_eq_true (String.le_trans (of_decide_eq_true hab) (of_decide_eq_true hbc))
    have htotal : ∀ a b : CrashFile,
        (decide (a.name ≤ b.name) || decide (b.name ≤ a.name)) = true := fun a b => by
      simpa using String.le_total a.name b.name
    have hsorted := List.pairwise_mergeSort htrans htotal (entries.filter CrashFile.isFile)
    exact hsorted.imp of_decide_eq_true
  · simp only [triageBulk, bulkTriage_eq]
    split_ifs
    · rfl
    · rcases env with error | _
      · rfl
      · -- the totals, entry by entry
        have hentry : ∀ entry : String × ℕ, "[bold]" ++ toString entry.2 ++ "[/bold]" ++ " " ++
            entry.1 = "[bold]" ++ toString entry.2 ++ "[/bold] " ++ entry.1 := by
          intro entry
          have htail : "[/bold]" ++ " " = "[/bold] " := rfl
          rw [@String.append_assoc ("[bold]" ++ toString entry.2), htail]
        refine congrArg Except.ok (congrArg₂ TriageReport.mk (hshown _) ?_)
        rw [hlength, countsText, joinText_eq_intercalate]
        simp only [hentry]

/-! ### The reports of sanitizers -/

/-- **A summary line** of a sanitizer. -/
structure SummaryLine where
  /-- The blanks before the name of the sanitizer. -/
  indent : List Char
  /-- The name of the sanitizer. -/
  tool : List Char
  /-- The blanks before the kind of the bug. -/
  gap : List Char
  /-- The kind of the bug. -/
  kind : List Char
  /-- What else is said. -/
  rest : List Char
  /-- The first blanks. -/
  indent_space : ∀ c ∈ indent, isSpace c = true ∧ c ≠ '\n'
  /-- There is a sanitizer. -/
  tool_ne_nil : tool ≠ []
  /-- Its name is one word. -/
  tool_notSpace : ∀ c ∈ tool, isSpace c = false
  /-- The other blanks. -/
  gap_space : ∀ c ∈ gap, isSpace c = true ∧ c ≠ '\n'
  /-- There is a kind. -/
  kind_ne_nil : kind ≠ []
  /-- It is one word. -/
  kind_notSpace : ∀ c ∈ kind, isSpace c = false
  /-- If nothing separates them, the kind has no colon. -/
  kind_noColon : gap = [] → ':' ∉ kind
  /-- The kind ends at a blank. -/
  rest_space : Stops (fun c => !isSpace c) rest
  /-- The line ends behind it. -/
  rest_oneLine : '\n' ∉ rest

/-- A line of what a harness prints. -/
inductive ReportLine
  /-- A summary line. -/
  | summary (line : SummaryLine)
  /-- Another line. -/
  | other (text : List Char) (oneLine : '\n' ∉ text) (notSummary : ¬ "SUMMARY:".toList <+: text)

/-- The line of a summary. -/
def SummaryLine.text (line : SummaryLine) : List Char :=
  "SUMMARY:".toList ++ line.indent ++
    (line.tool ++ ':' :: (line.gap ++ line.kind ++ line.rest))

namespace ReportLine

/-- What is printed. -/
def text : ReportLine → List Char
  | summary line => line.text
  | other text _ _ => text

/-- The kind of bug that a line names. -/
def kind : ReportLine → Option String
  | summary line => some (String.ofList line.kind)
  | other _ _ _ => none

end ReportLine

/-- The lines after the first one, each behind a line feed. -/
def laterLines (lines : List ReportLine) : List Char := lines.flatMap fun line => '\n' :: line.text

/-- What is printed. -/
def reportText (first : ReportLine) (lines : List ReportLine) : String :=
  String.ofList (first.text ++ laterLines lines)

theorem atEnd_laterLines (lines : List ReportLine) : AtEnd (laterLines lines) := by
  rcases lines with _ | ⟨line, lines⟩
  · exact atEnd_nil
  · exact atEnd_newline _

namespace SummaryLine

variable (line : SummaryLine) {back : List Char}

/-- Behind the kind a blank stands, or nothing. -/
theorem stops_rest (hback : AtEnd back) : Stops (fun c => !isSpace c) (line.rest ++ back) := by
  rcases hrest : line.rest with _ | ⟨d, rest⟩
  · exact stops_atEnd (by decide) hback
  · exact stops_cons (line.rest_space d (by rw [hrest]; rfl)) _

/-- The word behind the colon, up to a blank, has no colon. -/
theorem colon_not_mem (hback : AtEnd back) :
    ':' ∉ (line.gap ++ line.kind ++ line.rest ++ back).takeWhile fun c => !isSpace c := by
  rcases hgap : line.gap with _ | ⟨c, gap⟩
  · have hstop := takeWhile_of_stops (line.stops_rest hback)
    rw [List.nil_append, List.append_assoc, List.takeWhile_append_of_pos, hstop, List.append_nil]
    · exact line.kind_noColon hgap
    · exact fun d hd => by simp [line.kind_notSpace d hd]
  · have hc := (line.gap_space c (by rw [hgap]; exact List.mem_cons_self)).1
    simp [hc]

/-- Behind the name of the sanitizer the kind is taken. -/
theorem takes_kind : Takes (lit ":" ++ blanks ++ group nonBlanks)
    (":".toList ++ line.gap ++ line.kind) (fun c => !isSpace c) [line.kind] := by
  have hgap : Takes blanks line.gap isSpace [] :=
    Takes.many fun c hc => (line.gap_space c hc).1
  have hkind : Takes (group nonBlanks) line.kind (fun c => !isSpace c) [line.kind] :=
    (Takes.some1 line.kind_ne_nil fun c hc => by simp [line.kind_notSpace c hc]).group
  have hfront : Takes (lit ":" ++ blanks) (":".toList ++ line.gap) isSpace [] :=
    (Takes.lit ":").append hgap fun _ _ => stops_false _
  exact hfront.append hkind fun rest _ => stops_append line.kind_ne_nil line.kind_notSpace rest

/-- The name of the sanitizer is taken up to its last colon. -/
theorem takes_front : Takes (lit "SUMMARY:" ++ blanks) ("SUMMARY:".toList ++ line.indent)
    isSpace [] :=
  (Takes.lit "SUMMARY:").append (Takes.many fun c hc => (line.indent_space c hc).1)
    fun _ _ => stops_false _

/-- **A summary line matches**, and its kind is the group. -/
theorem matchParts_text (hback : AtEnd back) :
    ∃ marks, matchParts (summaryRe ++ [.mark]) (line.text ++ back) =
        some (marks ++ [line.rest ++ back]) ∧
      captures (marks ++ [line.rest ++ back]) = [line.kind] := by
  obtain ⟨marks, hmarks, hgroups⟩ := line.takes_kind [.mark] (line.rest ++ back) _
    (line.stops_rest hback) rfl
  -- the run of the name is given back up to the colon
  have htool : matchParts (nonBlanks ++ (lit ":" ++ blanks ++ group nonBlanks ++ [.mark]))
      (line.tool ++ ':' :: (line.gap ++ line.kind ++ line.rest ++ back)) =
        some (marks ++ [line.rest ++ back]) := by
    obtain ⟨c, tool, hcons⟩ := List.exists_cons_of_ne_nil line.tool_ne_nil
    have hspace := line.tool_notSpace
    rw [hcons] at hspace ⊢
    show (if !isSpace c then _ else none) = _
    rw [if_pos (by simp [hspace c List.mem_cons_self])]
    refine star_backOff (fun d hd => by simp [hspace d (List.mem_cons_of_mem c hd)]) (by decide)
      (line.colon_not_mem hback) (fun cs hcs => ?_) ?_
    · by_contra hsome
      obtain ⟨marks', hmarks'⟩ := Option.ne_none_iff_exists'.mp hsome
      rw [List.append_assoc, List.append_assoc] at hmarks'
      obtain ⟨tail, rfl⟩ := prefix_of_matchParts_lit hmarks'
      exact hcs rfl
    · rw [← hmarks]
      simp
  have hstops : Stops isSpace (line.tool ++ ':' ::
      (line.gap ++ line.kind ++ line.rest ++ back)) :=
    stops_append line.tool_ne_nil line.tool_notSpace _
  obtain ⟨front, hfront, hnone⟩ := line.takes_front _ _ _ hstops htool
  refine ⟨front ++ marks, ?_, ?_⟩
  · rw [List.append_assoc, ← hfront]
    refine congrArg₂ matchParts ?_ ?_
    · rw [summaryRe]
      generalize lit "SUMMARY:" = word
      simp only [List.append_assoc]
    · unfold text
      generalize "SUMMARY:".toList = word
      simp only [List.append_assoc, List.cons_append]
  · rw [List.append_assoc, hnone, List.nil_append, hgroups]
    simp [captures]

end SummaryLine

/-- **A line is read as what it is.** -/
theorem findLines_line (line : ReportLine) {back : List Char} (hback : AtEnd back) :
    findLines summaryRe 0 true (line.text ++ back) =
      line.kind.toList.map (fun kind => [kind.toList]) ++ findLines summaryRe 0 false back := by
  -- a match begins with the literal
  have hnone : ∀ cs : List Char, ¬ "SUMMARY:".toList <+: cs →
      matchParts (summaryRe ++ [.mark]) cs = none := by
    intro cs hcs
    by_contra hsome
    obtain ⟨marks, hmarks⟩ := Option.ne_none_iff_exists'.mp hsome
    simp only [summaryRe, List.append_assoc] at hmarks
    exact hcs (prefix_of_matchParts_lit hmarks)
  have hnewline : '\n' ∉ "SUMMARY:".toList := by decide +kernel
  rcases line with line | ⟨text, oneLine, notSummary⟩
  · obtain ⟨marks, hmarks, hgroups⟩ := line.matchParts_text hback
    have honeLine : '\n' ∉ line.text := by
      have hspace : ∀ cs : List Char, (∀ c ∈ cs, isSpace c = false) → '\n' ∉ cs :=
        fun cs hcs hmem => absurd (hcs _ hmem) (by decide)
      unfold SummaryLine.text
      generalize "SUMMARY:".toList = word at hnewline
      simp only [List.mem_append, List.mem_cons, not_or]
      exact ⟨⟨hnewline, fun h => (line.indent_space _ h).2 rfl⟩, hspace _ line.tool_notSpace,
        by decide, ⟨fun h => (line.gap_space _ h).2 rfl, hspace _ line.kind_notSpace⟩,
        line.rest_oneLine⟩
    have hne : line.text ≠ [] :=
      List.append_ne_nil_of_right_ne_nil _ (List.append_ne_nil_of_left_ne_nil line.tool_ne_nil _)
    obtain ⟨c, l, hcons⟩ := List.exists_cons_of_ne_nil hne
    rw [hcons] at honeLine hmarks
    rw [ReportLine.text, hcons, findLines_of_eq_some honeLine hmarks, hgroups]
    simp [ReportLine.kind]
  · refine findLines_of_eq_none oneLine (hnone _ fun h => ?_) hback (hnone _ fun h => ?_)
    · exact notSummary (prefix_of_atEnd hnewline hback h)
    · have hnil := prefix_of_atEnd (l := []) hnewline hback h
      exact absurd (List.prefix_nil.mp hnil) (by decide +kernel)

/-- **All summary lines are found**, and nothing else. -/
theorem bugKinds_report (first : ReportLine) (lines : List ReportLine) :
    bugKinds (reportText first lines) = (first :: lines).filterMap ReportLine.kind := by
  have hfind : ∀ (lines : List ReportLine) (first : ReportLine),
      findLines summaryRe 0 true (first.text ++ laterLines lines) =
        ((first :: lines).filterMap ReportLine.kind).map fun kind => [kind.toList] := by
    intro lines
    induction lines with
    | nil =>
      intro first
      have hline := findLines_line first atEnd_nil
      rw [laterLines, List.flatMap_nil, hline]
      cases first <;> rfl
    | cons line lines ih =>
      intro first
      have hlater : laterLines (line :: lines) = '\n' :: (line.text ++ laterLines lines) := rfl
      rw [findLines_line first (atEnd_laterLines _), hlater, findLines_newline, ih]
      cases first <;> rfl
  rw [bugKinds, reportText, String.toList_ofList, hfind, List.map_map]
  conv_rhs => rw [← List.map_id ((first :: lines).filterMap ReportLine.kind)]
  refine List.map_congr_left fun kind _ => ?_
  simp [groupText]

/-- **`_classify_bugs` on the reports of sanitizers**: for whatever lines a harness prints, the
result has the labels of the kinds that its summary lines name, each once and in the order in
which they come first, or says that there are none. -/
theorem classifyBugs_report (first : ReportLine) (lines : List ReportLine) :
    ∃ labels, ListsOnce (((first :: lines).filterMap ReportLine.kind).map bugLabel) labels ∧
      classifyBugs (reportText first lines) =
        if labels ≠ [] then joinText ", " labels else "unknown" := by
  refine ⟨firsts id (((first :: lines).filterMap ReportLine.kind).map bugLabel), ?_, ?_⟩
  · exact (listsOnce_firsts_iff _).mpr fun a _ b _ h => h
  · rw [classifyBugs, bugKinds_report]

/-- A summary line of a sanitizer that names a place. -/
def summaryAt (tool kind place : String)
    (htool : tool.toList ≠ [] ∧ (tool.toList.all fun c => !isSpace c) = true)
    (hkind : kind.toList ≠ [] ∧ (kind.toList.all fun c => !isSpace c) = true)
    (hplace : '\n' ∉ place.toList) : SummaryLine where
  indent := [' ']
  tool := tool.toList
  gap := [' ']
  kind := kind.toList
  rest := ' ' :: place.toList
  indent_space := List.forall_mem_singleton.mpr (by decide)
  tool_ne_nil := htool.1
  tool_notSpace c hc := by simpa using List.all_eq_true.mp htool.2 c hc
  gap_space := List.forall_mem_singleton.mpr (by decide)
  kind_ne_nil := hkind.1
  kind_notSpace c hc := by simpa using List.all_eq_true.mp hkind.2 c hc
  kind_noColon hgap := absurd hgap (by decide)
  rest_space := fun c hc => by
    obtain rfl := Option.some.inj hc
    decide
  rest_oneLine := by simpa using hplace

/-- Two sanitizers report three bugs, of two kinds. -/
def mixedReport : ReportLine × List ReportLine :=
  (.other "x".toList (by decide) (by decide),
    [.summary (summaryAt "AddressSanitizer" "SEGV" "a.c:3 in f" (by decide) (by decide)
        (by decide)),
      .summary (summaryAt "UndefinedBehaviorSanitizer" "unsigned-integer-overflow" "b.c:1:2"
        (by decide) (by decide) (by decide)),
      .summary (summaryAt "AddressSanitizer" "SEGV" "a.c:9 in g" (by decide) (by decide)
        (by decide))])

theorem listsOnce_repeated {a b : String} (h : a ≠ b) : ListsOnce [a, b, a] [a, b] where
  nodup := by simp [h]
  mem_iff c := by
    simp only [List.mem_cons, List.not_mem_nil, or_false]
    tauto
  ordered := by
    have hbeq : (a == b) = false := by simpa using h
    simp [List.idxOf_cons, hbeq]

/-- Each kind is named once. -/
theorem classifyBugs_report_mixed :
    classifyBugs (reportText mixedReport.1 mixedReport.2) = "SEGV, int-overflow" := by
  obtain ⟨labels, honce, htext⟩ := classifyBugs_report mixedReport.1 mixedReport.2
  have hkinds : ((mixedReport.1 :: mixedReport.2).filterMap ReportLine.kind).map bugLabel =
      ["SEGV", "int-overflow", "SEGV"] := by decide +kernel
  rw [hkinds] at honce
  rw [htext, honce.eq (listsOnce_repeated (by decide))]
  decide +kernel

end Apatchy
