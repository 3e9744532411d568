import Apatchy.Foundations.PathNames
import Apatchy.Report.EntryMerge
import Apatchy.Report.LineCounts

/-!
# The counts of the call sites

Each node of a merged call tree gets the count of the line it is called from
(`Apatchy.annotateSiteCounts`). The line is looked up in the table of the file, and the
file by its name: the source directory of the caller, a slash, and the file that debug
information names.

The file meant is that name *joined* to the directory: an absolute name stands for itself,
and a path can be spelled in more ways than one (`Apatchy.PathName`). So the counts are
right exactly if, for each call, the table has the file under its plain spelling, if it has
it at all (`Apatchy.SpelledPlainly`, `Apatchy.annotateSiteCounts_right_iff`); and the plain
spelling of an absolute name is that of another file, unless the directory is the root.
-/

namespace Apatchy

/-! ### Annotated trees -/

/-- A node of a call tree with the count of its call site. -/
structure AnnotatedNode where
  /-- The name of the function. -/
  name : String := ""
  /-- The file of the call. -/
  siteFile : String := ""
  /-- Its line. -/
  siteLine : UInt32 := 0
  /-- Its column. -/
  siteCol : UInt32 := 0
  /-- How often the line was executed, and -1 if that is not known. -/
  siteCount : ℤ
  /-- What the function calls. -/
  children : List AnnotatedNode := []

/-- The functions of the report, as far as the annotation reads them. -/
abbrev FunctionTable := List (String × FunctionMeta)

/-- `functions.get(name, {}).get("source_dir", "")`. -/
def FunctionTable.sourceDir (functions : FunctionTable) (name : String) : String :=
  match functions.find? fun p => p.1 = name with
  | some p => p.2.sourceDir
  | none => ""

/-- `source_dir.rstrip("/") + "/" + site_file`. -/
def fullPath (sourceDir siteFile : String) : String :=
  String.ofList (rstripSlashes sourceDir.toList) ++ "/" ++ siteFile

/-- The count of a line of a file, by the name of the file. -/
def countOf (lineCounts : Table String (Table ℕ ℕ)) (file : String) (line : ℕ) : Option ℕ :=
  match lineCounts file with
  | some lines => lines line
  | none => none

section Annotate

variable (functions : FunctionTable) (lineCounts : Table String (Table ℕ ℕ))

/-- The count of a call site. -/
def siteCount (siteFile : String) (siteLine : UInt32) (parentName : Option String) : ℤ :=
  match parentName with
  | none => -1
  | some parent =>
    if siteFile ≠ "" ∧ siteLine ≠ 0 ∧ parent ≠ "" then
      -- the directory of the caller is put before the file, relative or not
      let sourceDir := FunctionTable.sourceDir functions parent
      if sourceDir ≠ "" then
        match countOf lineCounts (fullPath sourceDir siteFile) siteLine.toNat with
        | some count => count
        | none => -1
      else -1
    else -1

mutual

/-- **`annotate_site_counts`.** -/
def annotateSiteCounts (parentName : Option String) : CallTreeNode → AnnotatedNode
  | ⟨name, siteFile, siteLine, siteCol, children⟩ =>
    { name, siteFile, siteLine, siteCol
      siteCount := siteCount functions lineCounts siteFile siteLine parentName
      children := annotateChildren (some name) children }

/-- The loop over the children of a node. -/
def annotateChildren (parentName : Option String) : List CallTreeNode → List AnnotatedNode
  | [] => []
  | child :: children =>
    annotateSiteCounts parentName child :: annotateChildren parentName children

end

end Annotate

/-! ### Calls -/

mutual

/-- The nodes below a node, each with the name of its caller. -/
def CallTreeNode.calls : CallTreeNode → List (String × CallTreeNode)
  | ⟨name, _, _, _, children⟩ => callsFrom name children

/-- Some nodes and those below them, each with the name of its caller. -/
def callsFrom (caller : String) : List CallTreeNode → List (String × CallTreeNode)
  | [] => []
  | node :: nodes => (caller, node) :: node.calls ++ callsFrom caller nodes

end

mutual

/-- The nodes below an annotated node, each with the name of its caller. -/
def AnnotatedNode.calls : AnnotatedNode → List (String × AnnotatedNode)
  | ⟨name, _, _, _, _, children⟩ => annotatedCallsFrom name children

/-- Some annotated nodes and those below them, each with the name of its caller. -/
def annotatedCallsFrom (caller : String) : List AnnotatedNode → List (String × AnnotatedNode)
  | [] => []
  | node :: nodes => (caller, node) :: node.calls ++ annotatedCallsFrom caller nodes

end

section Right

variable {functions : FunctionTable} {lineCounts : Table String (Table ℕ ℕ)}

mutual

/-- **The calls of an annotated tree** are those of the tree, annotated. -/
theorem calls_annotateSiteCounts (parentName : Option String) :
    ∀ node : CallTreeNode, (annotateSiteCounts functions lineCounts parentName node).calls =
      node.calls.map fun p => (p.1, annotateSiteCounts functions lineCounts (some p.1) p.2)
  | ⟨name, _, _, _, children⟩ => by
    rw [annotateSiteCounts, AnnotatedNode.calls, CallTreeNode.calls]
    exact annotatedCallsFrom_annotateChildren name children

theorem annotatedCallsFrom_annotateChildren (caller : String) :
    ∀ nodes : List CallTreeNode,
      annotatedCallsFrom caller (annotateChildren functions lineCounts (some caller) nodes) =
        (callsFrom caller nodes).map fun p =>
          (p.1, annotateSiteCounts functions lineCounts (some p.1) p.2)
  | [] => by rw [annotateChildren, annotatedCallsFrom, callsFrom, List.map_nil]
  | node :: nodes => by
    rw [annotateChildren, annotatedCallsFrom, callsFrom, List.map_append, List.map_cons,
      calls_annotateSiteCounts (some caller) node, annotatedCallsFrom_annotateChildren caller nodes]

end

/-! ### The right counts -/

/-- The source directory that a table has for a function: that of the first entry with its
name. -/
def FunctionTable.HasDir (functions : FunctionTable) (name dir : String) : Prop :=
  ∃ before entry after, functions = before ++ (name, entry) :: after ∧
    (∀ p ∈ before, p.1 ≠ name) ∧ entry.sourceDir = dir

/-- A call that has a place in the source, from a function with this source directory. -/
def HasSite (functions : FunctionTable) (caller siteFile : String) (siteLine : UInt32)
    (dir : String) : Prop :=
  siteFile ≠ "" ∧ siteLine ≠ 0 ∧ functions.HasDir caller dir ∧ dir ≠ ""

/-- A line has a count under the name of a file. -/
def CountedUnder (lineCounts : Table String (Table ℕ ℕ)) (name : String) (line count : ℕ) :
    Prop :=
  ∃ lines, lineCounts name = some lines ∧ lines line = some count

/-- A line of a file has a count, under some spelling of the path of the file. -/
def CountedAs (lineCounts : Table String (Table ℕ ℕ)) (path : PathName) (line count : ℕ) : Prop :=
  ∃ name, PathName.parse name = path ∧ CountedUnder lineCounts name line count

/-- The file of a call: its name, joined to the source directory of the caller. -/
def callFile (sourceDir siteFile : String) : PathName :=
  (PathName.parse sourceDir).join (PathName.parse siteFile)

/-- **The count of a call is right**: it is the count of the line in the file of the call,
or -1, and that only if there is none. -/
def RightCount (functions : FunctionTable) (lineCounts : Table String (Table ℕ ℕ))
    (caller : String) (node : AnnotatedNode) : Prop :=
  ∀ dir, HasSite functions caller node.siteFile node.siteLine dir →
    (∃ count, CountedAs lineCounts (callFile dir node.siteFile) node.siteLine.toNat count ∧
      node.siteCount = count) ∨
    (node.siteCount = -1 ∧
      ∀ count, ¬ CountedAs lineCounts (callFile dir node.siteFile) node.siteLine.toNat count)

/-! ### Which spelling has to be in the table -/

/-- The plain spelling of a file in a directory: the directory without the slashes at its end,
one slash, and the name of the file. -/
def PlainSpelling (dir file spelling : String) : Prop :=
  ∃ front n, dir.toList = front ++ List.replicate n '/' ∧ front.getLast? ≠ some '/' ∧
    spelling.toList = front ++ '/' :: file.toList

/-- **What the tables must have for a call.** Where the name of the file is relative, or the
directory is the root: if any spelling of the file has a count for the line, the plain spelling
has one. For an absolute name elsewhere, the plain spelling is that of another file: neither
has a count for the line, or they have the same. A caller without a name has no file with a
count for the line. -/
def SpelledPlainly (functions : FunctionTable) (lineCounts : Table String (Table ℕ ℕ))
    (caller : String) (node : CallTreeNode) : Prop :=
  ∀ dir spelling, HasSite functions caller node.siteFile node.siteLine dir →
    PlainSpelling dir node.siteFile spelling →
    let ofFile := CountedAs lineCounts (callFile dir node.siteFile) node.siteLine.toNat
    let plainly := CountedUnder lineCounts spelling node.siteLine.toNat
    if caller = "" then ∀ count, ¬ ofFile count
    else if (PathName.parse node.siteFile).absolute = false ∨ PathName.parse dir = ⟨true, []⟩ then
      (∃ count, ofFile count) → ∃ count, plainly count
    else
      (∀ count, ¬ ofFile count ∧ ¬ plainly count) ∨ ∃ count, ofFile count ∧ plainly count

theorem countedUnder_iff {name : String} {line count : ℕ} :
    CountedUnder lineCounts name line count ↔ countOf lineCounts name line = some count := by
  unfold CountedUnder countOf
  rcases lineCounts name with _ | lines <;> simp

theorem plainSpelling_iff {dir file spelling : String} :
    PlainSpelling dir file spelling ↔ spelling = fullPath dir file := by
  have hchars : (fullPath dir file).toList =
      rstripSlashes dir.toList ++ '/' :: file.toList := by simp [fullPath]
  rw [← String.toList_inj, hchars]
  constructor
  · rintro ⟨front, n, hdir, hfront, hspelling⟩
    rw [hspelling, hdir, PathName.rstripSlashes_append hfront]
  · intro hspelling
    obtain ⟨n, hn⟩ := PathName.exists_rstripSlashes dir.toList
    exact ⟨_, n, hn, PathName.getLast?_rstripSlashes _, hspelling⟩

/-- There is one plain spelling. -/
theorem forall_spelling_iff {dir file : String} {P : Prop} {Q : String → Prop} :
    (P → Q (fullPath dir file)) ↔ ∀ spelling, P → PlainSpelling dir file spelling → Q spelling := by
  constructor
  · intro hq spelling hp hspelling
    rw [plainSpelling_iff.mp hspelling]
    exact hq hp
  · exact fun hall hp => hall _ hp (plainSpelling_iff.mpr rfl)

/-- **The directory that is looked up** is the one that the table has. -/
theorem FunctionTable.HasDir.sourceDir_eq {name dir : String} (h : functions.HasDir name dir) :
    functions.sourceDir name = dir := by
  obtain ⟨before, entry, after, rfl, hbefore, rfl⟩ := h
  have hfind : before.find? (fun p => p.1 = name) = none :=
    List.find?_eq_none.mpr fun p hp => by simpa using hbefore p hp
  simp [FunctionTable.sourceDir, List.find?_append, hfind]

/-- The count of a call that has a place in the source. -/
theorem siteCount_of_hasSite {caller siteFile dir : String} {siteLine : UInt32}
    (h : HasSite functions caller siteFile siteLine dir) :
    siteCount functions lineCounts siteFile siteLine (some caller) =
      if caller = "" then -1
      else match countOf lineCounts (fullPath dir siteFile) siteLine.toNat with
        | some count => (count : ℤ)
        | none => -1 := by
  obtain ⟨hfile, hline, hcaller, hdir⟩ := h
  by_cases hname : caller = "" <;> simp [siteCount, hfile, hline, hdir, hcaller.sourceDir_eq, hname]

/-- **The count of a call is right exactly if** it is one of the file of the call wherever one
is looked up, and one is looked up wherever the file has one. -/
theorem right_siteCount_iff {caller siteFile dir : String} {siteLine : UInt32}
    (h : HasSite functions caller siteFile siteLine dir) {ofFile : ℕ → Prop} :
    ((∃ count, ofFile count ∧
        siteCount functions lineCounts siteFile siteLine (some caller) = count) ∨
      (siteCount functions lineCounts siteFile siteLine (some caller) = -1 ∧
        ∀ count, ¬ ofFile count)) ↔
      if caller = "" then ∀ count, ¬ ofFile count
      else
        (∀ count, CountedUnder lineCounts (fullPath dir siteFile) siteLine.toNat count →
          ofFile count) ∧
        ((∃ count, ofFile count) →
          ∃ count, CountedUnder lineCounts (fullPath dir siteFile) siteLine.toNat count) := by
  simp only [siteCount_of_hasSite h, countedUnder_iff]
  by_cases hcaller : caller = ""
  · -- a caller with an empty name gets no count
    rw [if_pos hcaller, if_pos hcaller]
    constructor
    · rintro (⟨count, -, hbad⟩ | ⟨-, hnone⟩)
      · omega
      · exact hnone
    · exact fun hnone => Or.inr ⟨rfl, hnone⟩
  · rw [if_neg hcaller, if_neg hcaller]
    rcases countOf lineCounts (fullPath dir siteFile) siteLine.toNat with _ | found
    · -- nothing is found, and -1 is written
      constructor
      · rintro (⟨count, -, hbad⟩ | ⟨-, hnone⟩)
        · simp only at hbad
          omega
        · exact ⟨by simp, fun ⟨count, hcount⟩ => absurd hcount (hnone count)⟩
      · rintro ⟨-, hfound⟩
        refine Or.inr ⟨rfl, fun count hcount => ?_⟩
        obtain ⟨_, hsome⟩ := hfound ⟨count, hcount⟩
        simp at hsome
    · constructor
      · -- what is found is no -1, so that it must be a count of the file
        rintro (⟨count, hcount, heq⟩ | ⟨hbad, -⟩)
        · obtain rfl : found = count := Int.ofNat_inj.mp heq
          refine ⟨?_, fun _ => ⟨found, rfl⟩⟩
          rintro _ ⟨⟩
          exact hcount
        · simp only at hbad
          omega
      · exact fun hfound => Or.inl ⟨found, hfound.1 found rfl, rfl⟩

/-- A line has one count under a name. -/
theorem CountedUnder.unique {name : String} {line count count' : ℕ}
    (h : CountedUnder lineCounts name line count) (h' : CountedUnder lineCounts name line count') :
    count = count' :=
  Option.some.inj ((countedUnder_iff.mp h).symm.trans (countedUnder_iff.mp h'))

/-- **A count is right exactly if the tables spell the file of the call plainly.** -/
theorem rightCount_iff (caller : String) (node : CallTreeNode) :
    RightCount functions lineCounts caller
        (annotateSiteCounts functions lineCounts (some caller) node) ↔
      SpelledPlainly functions lineCounts caller node := by
  obtain ⟨name, siteFile, siteLine, siteCol, children⟩ := node
  rw [annotateSiteCounts, RightCount, SpelledPlainly]
  refine forall_congr' fun dir => Iff.trans (forall_congr' fun hsite =>
    (right_siteCount_iff hsite).trans ?_) forall_spelling_iff
  by_cases hcaller : caller = ""
  · rw [if_pos hcaller, if_pos hcaller]
  · rw [if_neg hcaller, if_neg hcaller]
    split_ifs with hsame
    · -- The plain spelling is one of the file.
      have hfile : PathName.parse (fullPath dir siteFile) = callFile dir siteFile :=
        PathName.parse_spliced hsite.2.2.2 hsame
      exact and_iff_right fun count hcount => ⟨_, hfile, hcount⟩
    · constructor
      · rintro ⟨hof, hunder⟩
        -- not the plain spelling: nothing is found under either, or the same count under both
        by_cases hex : ∃ count, CountedUnder lineCounts (fullPath dir siteFile) siteLine.toNat count
        · obtain ⟨count, hcount⟩ := hex
          exact Or.inr ⟨count, hof count hcount, hcount⟩
        · exact Or.inl fun count => ⟨fun hcount => hex (hunder ⟨count, hcount⟩),
            fun hcount => hex ⟨count, hcount⟩⟩
      · rintro (hnone | ⟨count, hof, hcount⟩)
        · exact ⟨fun count hcount => absurd hcount (hnone count).2,
            fun ⟨count, hof⟩ => absurd hof (hnone count).1⟩
        · exact ⟨fun count' hcount' => hcount.unique hcount' ▸ hof, fun _ => ⟨count, hcount⟩⟩

/-- **The counts of a call tree are right exactly if the tables spell each file plainly.** -/
theorem annotateSiteCounts_right_iff (functions : FunctionTable)
    (lineCounts : Table String (Table ℕ ℕ)) (root : CallTreeNode) :
    (∀ p ∈ (annotateSiteCounts functions lineCounts none root).calls,
        RightCount functions lineCounts p.1 p.2) ↔
      ∀ p ∈ root.calls, SpelledPlainly functions lineCounts p.1 p.2 := by
  rw [calls_annotateSiteCounts, List.forall_mem_map]
  exact forall₂_congr fun p _ => rightCount_iff p.1 p.2

end Right

/-! ### A call from a header -/

/-- A function with a call in an included file, which debug information names absolutely. -/
def includedCall : CallTreeNode where
  name := "main"
  children := [{ name := "check", siteFile := "/usr/include/check.h", siteLine := 12 }]

/-- The functions. -/
def includedFunctions : FunctionTable :=
  [("main", { sourceFile := "main.c", sourceDir := "/work/httpd-cov/server" }), ("check", {})]

/-- The line tables: line 12 of the header was executed three times. -/
def includedCounts : Table String (Table ℕ ℕ) :=
  lineCounts [⟨"/usr/include/check.h", [⟨12, 1, 3, true⟩]⟩]

/-- **A call from a file with an absolute name is not found**, though its line is counted. -/
theorem not_right_includedCall :
    (annotateSiteCounts includedFunctions includedCounts none includedCall).calls.map
        (fun p => p.2.siteCount) = [-1] ∧
    ¬ ∀ p ∈ (annotateSiteCounts includedFunctions includedCounts none includedCall).calls,
      RightCount includedFunctions includedCounts p.1 p.2 := by
  have hcounts : (annotateSiteCounts includedFunctions includedCounts none includedCall).calls.map
      (fun p => p.2.siteCount) = [-1] := by decide +kernel
  refine ⟨hcounts, fun h => ?_⟩
  rw [calls_annotateSiteCounts, List.forall_mem_map] at h
  have hright := h ("main", { name := "check", siteFile := "/usr/include/check.h", siteLine := 12 })
    (List.mem_singleton.mpr rfl)
  have hdir : FunctionTable.HasDir includedFunctions "main" "/work/httpd-cov/server" :=
    ⟨[], { sourceFile := "main.c", sourceDir := "/work/httpd-cov/server" }, [("check", {})], rfl,
      by simp, rfl⟩
  have hfound : CountedUnder includedCounts "/usr/include/check.h" 12 3 :=
    countedUnder_iff.mpr (by decide +kernel)
  have hfile : PathName.parse "/usr/include/check.h" =
      callFile "/work/httpd-cov/server" "/usr/include/check.h" := by decide +kernel
  obtain ⟨count, -, hcount⟩ | ⟨-, hnone⟩ := hright _ ⟨by decide, by decide, hdir, by decide⟩
  · have hcount : (count : ℤ) = -1 := hcount.symm.trans (by decide +kernel)
    omega
  · exact hnone 3 ⟨_, hfile, hfound⟩

end Apatchy
