import Apatchy.Introspector.Wuxi
import Apatchy.Report.FunctionCoverage
import Apatchy.Report.SiteCounts

/-!
# The introspection report

The report is made in one go (`Apatchy.introspect`): the introspector runs for each entry
point, what it finds is merged, and the coverage is put into the functions and the call
trees. A run that fails stops the whole of it.

A run does not fail when the entry is not in the module, and then the report has an empty
tree for it. So a report has a tree for each entry, and each entry among its functions,
only if the module defines all of them; and one that is missing does not stop the step
(`Apatchy.introspect_onlyForDefined_iff`).
-/

namespace Apatchy

variable {N F : Type} [DecidableEq F]

/-! ### The entry points -/

namespace Outside

variable (w : Outside N F) (bitcode : String)

/-- The result of an entry: the introspector is run, and its output file read. -/
def entryResult (entryName : String) (i : ℕ) : Except String WuxiResult :=
  let run := w.wuxi (w.wuxiCmd bitcode entryName i)
  if run.returncode ≠ 0 then .error ("wuxi failed for entry '" ++ entryName ++ "'")
  else
    match run.written with
    | some (name, result) =>
      if name = w.wuxiOut i then .ok result else .error "FileNotFoundError"
    | none => .error "FileNotFoundError"

/-- The loop over the entry points. -/
def mergeEntries (pre : TreePrefixes) : List String → ℕ → Merged → Except String Merged
  | [], _, merged => .ok merged
  | entryName :: entries, i, merged => do
    let result ← w.entryResult bitcode entryName i
    mergeEntries pre entries (i + 1) (mergeResult pre merged result)

end Outside

/-! ### The report -/

/-- What llvm-cov exports. -/
structure CovData where
  /-- The records of the functions. -/
  functions : List CovFunction
  /-- The coverage of the files. -/
  files : List CovFile

/-- **The report.** -/
structure IntrospectionReport where
  /-- The entry points. -/
  entryPoints : List String
  /-- The functions, with their coverage. -/
  functions : List (ReportFunction CovEntry)
  /-- The call trees. -/
  callTree : List AnnotatedNode
  /-- The call edges. -/
  callEdges : List CallEdge

/-- **The introspection step**, from the exported coverage to the report. -/
def introspect (w : Outside N F) (bitcode : String) (pre : TreePrefixes) (cov : CovData)
    (entries : List String) : Except String IntrospectionReport := do
  let merged ← w.mergeEntries bitcode pre entries 0 {}
  return {
    entryPoints := entries
    functions := mergeCoverage covEntry zeroEntry cov.functions merged.functions
    callTree := merged.trees.map
      (annotateSiteCounts merged.functions (lineCounts cov.files) none)
    callEdges := merged.edges }

/-! ### What the loop returns -/

/-- What the introspector finds for an entry of a module. -/
def CallGraph.resultOf (g : CallGraph N F) (entryName : String) : WuxiResult :=
  resultToJson ((g.walk g.functions.length entryName).getD {})

variable {w : Outside N F} {bitcode : String} {g : CallGraph N F} {pre : TreePrefixes}

theorem entryResult_of_runs (hg : w.parseIRFile bitcode = some g) {entryName : String} {i : ℕ}
    (h : w.Runs bitcode entryName i) :
    w.entryResult bitcode entryName i = .ok (g.resultOf entryName) := by
  simp [Outside.entryResult, w.wuxi_eq_of_runs h hg, CallGraph.resultOf]

theorem entryResult_of_not_runs {entryName : String} {i : ℕ}
    (h : ¬ w.Runs bitcode entryName i) :
    ∃ e, w.entryResult bitcode entryName i = .error e := by
  rw [Outside.entryResult]
  rcases w.wuxi_of_not_runs h with hcode | hfile
  · exact ⟨_, if_pos hcode⟩
  · split_ifs
    · exact ⟨_, rfl⟩
    · split
      · next name result hwritten =>
        split_ifs with hname
        · exact absurd (hname ▸ hwritten) (hfile result)
        · exact ⟨_, rfl⟩
      · exact ⟨_, rfl⟩

/-- **If all runs come to their end, the results of all entries are merged.** -/
theorem mergeEntries_of_runs (hg : w.parseIRFile bitcode = some g) {entries : List String}
    {i : ℕ} (h : ∀ j e, entries[j]? = some e → w.Runs bitcode e (i + j)) (merged : Merged) :
    w.mergeEntries bitcode pre entries i merged =
      .ok ((entries.map g.resultOf).foldl (mergeResult pre) merged) := by
  induction entries generalizing i merged with
  | nil => rfl
  | cons entry entries ih =>
    have hfirst : w.Runs bitcode entry i := h 0 entry rfl
    have hrest : ∀ j e, entries[j]? = some e → w.Runs bitcode e (i + 1 + j) := by
      intro j e hj
      have hlater := h (j + 1) e (by simpa using hj)
      rwa [Nat.add_assoc, Nat.add_comm 1 j]
    rw [Outside.mergeEntries, entryResult_of_runs hg hfirst]
    exact ih hrest _

/-- **If one does not, the loop stops.** -/
theorem mergeEntries_of_not_runs (hg : w.parseIRFile bitcode = some g) {entries : List String}
    {i j : ℕ} {e : String} (hj : entries[j]? = some e) (h : ¬ w.Runs bitcode e (i + j))
    (merged : Merged) : ∃ error, w.mergeEntries bitcode pre entries i merged = .error error := by
  induction entries generalizing i j merged with
  | nil => simp at hj
  | cons entry entries ih =>
    rw [Outside.mergeEntries]
    by_cases hfirst : w.Runs bitcode entry i
    · rw [entryResult_of_runs hg hfirst]
      rcases j with _ | j
      · obtain rfl : entry = e := by simpa using hj
        exact absurd hfirst h
      · refine ih (j := j) (by simpa using hj) ?_ _
        rwa [Nat.add_assoc, Nat.add_comm 1 j]
    · obtain ⟨error, herror⟩ := entryResult_of_not_runs hfirst
      exact ⟨error, by rw [herror]; rfl⟩

/-! ### Entries that the module defines -/

/-- **A module defines a function**: it has one of that name, with a body. -/
def CallGraph.Defines (g : CallGraph N F) (name : String) : Prop :=
  ∃ f ∈ g.functions, g.getName f = name ∧ (g.function f).blocks ≠ []

/-- The result of a function of the module: a tree with its name, and a table that has it. -/
theorem resultOf_of_mem {f : F} (hf : f ∈ g.functions) :
    (g.resultOf (g.getName f)).callTree.name = g.getName f ∧
      g.getName f ∈ (g.resultOf (g.getName f)).functions.map Prod.fst := by
  obtain ⟨_, st', o, hwalk, rfl, hexp⟩ := g.walk_explores hf
  rw [CallGraph.resultOf, hwalk g.functions.length le_rfl]
  refine ⟨rfl, ?_⟩
  have hkey : g.getName f ∈ st'.funcMap :=
    hexp.grows.kept _ (CallGraph.mem_addFunction.mpr (Or.inl rfl))
  rw [← Std.TreeMap.mem_keys, ← Std.TreeMap.map_fst_toList_eq_keys] at hkey
  obtain ⟨p, hp, hname⟩ := List.mem_map.mp hkey
  exact List.mem_map.mpr ⟨_, List.mem_map_of_mem hp, hname⟩

/-- **A report only for entries that exist**: it has one tree for each entry, in order and
with its name, and each entry among its functions; and an entry that the module does not
define stops the step. -/
structure OnlyForDefined (g : CallGraph N F) (entries : List String)
    (outcome : Except String IntrospectionReport) : Prop where
  /-- There is a tree for each entry. -/
  trees : ∀ report, outcome = .ok report → report.callTree.map AnnotatedNode.name = entries
  /-- Each entry is among the functions. -/
  functions : ∀ report, outcome = .ok report → ∀ e ∈ entries, ∃ f ∈ report.functions, f.name = e
  /-- A missing entry is an error. -/
  stops : (∃ e ∈ entries, ¬ g.Defines e) → ∃ error, outcome = .error error

/-- All runs of the introspector come to their end. -/
def AllRun (w : Outside N F) (bitcode : String) (entries : List String) : Prop :=
  ∀ i e, entries[i]? = some e → w.Runs bitcode e i

theorem introspect_of_allRun (hg : w.parseIRFile bitcode = some g) (cov : CovData)
    {entries : List String} (h : AllRun w bitcode entries) :
    let merged := mergeResults pre (entries.map g.resultOf)
    introspect w bitcode pre cov entries = .ok
      ⟨entries, mergeCoverage covEntry zeroEntry cov.functions merged.functions,
        merged.trees.map (annotateSiteCounts merged.functions (lineCounts cov.files) none),
        merged.edges⟩ := by
  have hruns : ∀ j e, entries[j]? = some e → w.Runs bitcode e (0 + j) := by
    simpa [AllRun] using h
  rw [introspect, mergeEntries_of_runs hg hruns]
  rfl

theorem introspect_of_not_allRun (hg : w.parseIRFile bitcode = some g) (pre : TreePrefixes)
    (cov : CovData) {entries : List String} (h : ¬ AllRun w bitcode entries) :
    ∃ error, introspect w bitcode pre cov entries = .error error := by
  obtain ⟨i, e, hi, hfails⟩ : ∃ i e, entries[i]? = some e ∧ ¬ w.Runs bitcode e i := by
    simpa [AllRun] using h
  have hfails' : ¬ w.Runs bitcode e (0 + i) := by rwa [Nat.zero_add]
  obtain ⟨error, herror⟩ : ∃ error, w.mergeEntries bitcode pre entries 0 {} = .error error :=
    mergeEntries_of_not_runs hg hi hfails' {}
  exact ⟨error, by rw [introspect, herror]; rfl⟩

theorem name_annotateSiteCounts (functions : FunctionTable)
    (lineCounts : Table String (Table ℕ ℕ)) (parentName : Option String) (node : CallTreeNode) :
    (annotateSiteCounts functions lineCounts parentName node).name = node.name := by
  cases node
  rfl

/-- Among the merged functions are the entries that the module has. -/
theorem mem_functions_mergeResults {entries : List String} {f : F} (hf : f ∈ g.functions)
    (he : g.getName f ∈ entries) :
    g.getName f ∈ (mergeResults pre (entries.map g.resultOf)).functions.map Prod.fst := by
  rw [(mergeResults_spec _ _).2.2.1, mem_map_firsts, List.map_flatMap, List.mem_flatMap]
  refine ⟨g.resultOf (g.getName f), List.mem_map_of_mem he, ?_⟩
  simpa [TreePrefixes.rewriteAll] using (resultOf_of_mem hf).2

/-- **If the module defines all entries, the report is complete.** -/
theorem onlyForDefined_of_defines (hg : w.parseIRFile bitcode = some g) (cov : CovData)
    {entries : List String} (hrun : AllRun w bitcode entries)
    (hdefined : ∀ e ∈ entries, g.Defines e) :
    OnlyForDefined g entries (introspect w bitcode pre cov entries) := by
  rw [introspect_of_allRun hg cov hrun]
  refine ⟨?_, ?_, ?_⟩
  · rintro _ ⟨⟩
    simp only [List.map_map, (mergeResults_spec _ _).2.2.2]
    refine (List.map_congr_left fun e he => ?_).trans (List.map_id entries)
    obtain ⟨f, hf, rfl, -⟩ := hdefined e he
    simp only [Function.comp_apply, name_annotateSiteCounts, (resultOf_of_mem hf).1, id]
  · rintro _ ⟨⟩ e he
    obtain ⟨f, hf, rfl, -⟩ := hdefined e he
    obtain ⟨p, hp, hname⟩ := List.mem_map.mp (mem_functions_mergeResults hf he)
    exact ⟨_, List.mem_map_of_mem hp, hname⟩
  · rintro ⟨e, he, hmissing⟩
    exact absurd (hdefined e he) hmissing

/-- **A report is written only for entries that exist, exactly if** all of them do, or the
introspector cannot be run for one. -/
theorem introspect_onlyForDefined_iff (hg : w.parseIRFile bitcode = some g) (pre : TreePrefixes)
    (cov : CovData) (entries : List String) :
    OnlyForDefined g entries (introspect w bitcode pre cov entries) ↔
      (∀ e ∈ entries, g.Defines e) ∨ ¬ AllRun w bitcode entries := by
  by_cases hrun : AllRun w bitcode entries
  · constructor
    · intro h
      refine Or.inl fun e he => ?_
      by_contra hmissing
      obtain ⟨error, herror⟩ := h.stops ⟨e, he, hmissing⟩
      rw [introspect_of_allRun hg cov hrun] at herror
      exact absurd herror (by simp)
    · rintro (hdefined | hnot)
      · exact onlyForDefined_of_defines hg cov hrun hdefined
      · exact absurd hrun hnot
  · obtain ⟨error, herror⟩ := introspect_of_not_allRun hg pre cov hrun
    rw [herror]
    refine ⟨fun _ => Or.inr hrun, fun _ => ⟨?_, ?_, fun _ => ⟨error, rfl⟩⟩⟩ <;>
      exact fun report hreport => absurd hreport (by simp)

/-! ### An entry that is missing -/

/-- A module with one function. -/
def onlyMain : CallGraph (Option Unit) Unit where
  functions := [()]
  function _ := { name := "main", blocks := [3] }
  node := some
  getFunction := id
  records _ := []
  mem_functions _ := List.mem_singleton.mpr rfl
  getFunction_node _ := rfl
  eq_node h := h
  name_injective _ _ _ := rfl
  caller_eq _ hcr _ := absurd hcr (by simp)

/-- A machine with its bitcode. -/
def mainOnDisk : Outside (Option Unit) Unit where
  parseIRFile _ := some onlyMain
  opens _ := true
  mktemp _ := "/tmp/tmp0"

theorem onlyMain_defines : onlyMain.Defines "main" :=
  ⟨(), by decide, rfl, by decide⟩

/-- The report on `main`. -/
theorem introspect_onlyForDefined_main :
    OnlyForDefined onlyMain ["main"]
      (introspect mainOnDisk "combined.bc" ⟨"/httpd", "/httpd-cov"⟩ ⟨[], []⟩ ["main"]) := by
  refine (introspect_onlyForDefined_iff rfl _ _ _).mpr (Or.inl fun e he => ?_)
  rw [List.mem_singleton.mp he]
  exact onlyMain_defines

/-- **A report on `main` and on a function that does not exist** is written, with a tree
that has no name. -/
theorem not_onlyForDefined_missing :
    (introspect mainOnDisk "combined.bc" ⟨"/httpd", "/httpd-cov"⟩ ⟨[], []⟩
        ["main", "missing"]).toOption.map (fun report => report.callTree.map AnnotatedNode.name) =
      some ["main", ""] ∧
    ¬ OnlyForDefined onlyMain ["main", "missing"]
      (introspect mainOnDisk "combined.bc" ⟨"/httpd", "/httpd-cov"⟩ ⟨[], []⟩
        ["main", "missing"]) := by
  have hnames : (introspect mainOnDisk "combined.bc" ⟨"/httpd", "/httpd-cov"⟩ ⟨[], []⟩
      ["main", "missing"]).toOption.map (fun report => report.callTree.map AnnotatedNode.name) =
        some ["main", ""] := by decide +kernel
  refine ⟨hnames, fun h => ?_⟩
  rcases houtcome : introspect mainOnDisk "combined.bc" ⟨"/httpd", "/httpd-cov"⟩ ⟨[], []⟩
      ["main", "missing"] with error | report
  · rw [houtcome] at hnames
    exact absurd hnames (by simp [Except.toOption])
  · have htrees := h.trees report houtcome
    rw [houtcome] at hnames
    simp only [Except.toOption, Option.map_some, Option.some.injEq] at hnames
    rw [htrees] at hnames
    exact absurd hnames (by decide)

end Apatchy
