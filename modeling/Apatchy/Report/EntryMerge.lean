import Apatchy.Foundations.Firsts
import Apatchy.Foundations.Text
import Apatchy.Introspector.CallGraphWalker

/-!
# Merging the results of the entry points

The introspector is run once for each entry point, and what it finds is merged: of the
functions of one name the first is kept, of the call edges the first with each key, and
the call trees are put in a list (`Apatchy.mergeResult`).

The key of an edge is its caller, its callee, and the file and line of the call. That is
less than the edge says: two calls of a function on one line differ in their column, or in
whether they go through a pointer, and only the first of them is kept. So the merged edges
are the edges that occur, each once and in order, exactly if no two that occur have one
key (`Apatchy.mergeResults_listsOnce_iff`).
-/

namespace Apatchy

deriving instance DecidableEq, Repr for CallEdge

/-! ### Results -/

/-- What the introspector writes for an entry point. -/
structure WuxiResult where
  /-- The functions, by name. -/
  functions : List (String × FunctionMeta) := []
  /-- The call tree. -/
  callTree : CallTreeNode := {}
  /-- The call edges. -/
  callEdges : List CallEdge := []

/-- `key` of the edge merge. -/
abbrev EdgeKey := String × String × String × UInt32

/-- The key of an edge. -/
def CallEdge.key (edge : CallEdge) : EdgeKey :=
  (edge.caller, edge.callee, edge.siteFile, edge.siteLine)

/-- What was merged so far. -/
structure Merged where
  /-- `merged_functions`. -/
  functions : List (String × FunctionMeta) := []
  /-- `merged_edges`. -/
  edges : List CallEdge := []
  /-- `merged_trees`. -/
  trees : List CallTreeNode := []
  /-- `seen_edges`. -/
  seenEdges : List EdgeKey := []

/-! ### The merge -/

/-- The prefixes of the original tree and of the `-cov` tree. -/
structure TreePrefixes where
  /-- `orig_prefix`. -/
  orig : String
  /-- `cov_prefix`. -/
  cov : String

/-- A source directory in the original tree becomes that in the `-cov` tree. -/
def TreePrefixes.rewrite (pre : TreePrefixes) (sourceDir : String) : String :=
  if startsWith (pre.orig ++ "/") sourceDir ∨ sourceDir = pre.orig then
    pre.cov ++ String.ofList (sourceDir.toList.drop pre.orig.length)
  else sourceDir

/-- The function table of a result, with its source directories rewritten. -/
def TreePrefixes.rewriteAll (pre : TreePrefixes) (functions : List (String × FunctionMeta)) :
    List (String × FunctionMeta) :=
  functions.map fun p => (p.1, { p.2 with sourceDir := pre.rewrite p.2.sourceDir })

/-- A function is merged: the first of a name wins. -/
def mergeFunction (functions : List (String × FunctionMeta)) (p : String × FunctionMeta) :
    List (String × FunctionMeta) :=
  if p.1 ∈ functions.map Prod.fst then functions else functions ++ [p]

/-- An edge is merged, if its key was not seen. -/
def mergeEdge (merged : Merged) (edge : CallEdge) : Merged :=
  if edge.key ∈ merged.seenEdges then merged
  else { merged with
    seenEdges := edge.key :: merged.seenEdges
    edges := merged.edges ++ [edge] }

/-- **The result of an entry point is merged.** -/
def mergeResult (pre : TreePrefixes) (merged : Merged) (result : WuxiResult) : Merged :=
  let functions := (pre.rewriteAll result.functions).foldl mergeFunction merged.functions
  let merged := result.callEdges.foldl mergeEdge { merged with functions }
  { merged with trees := merged.trees ++ [result.callTree] }

/-- The results of some entry points, merged. -/
def mergeResults (pre : TreePrefixes) (results : List WuxiResult) : Merged :=
  results.foldl (mergeResult pre) {}

/-! ### What is merged -/

/-- What merging edges does: the keys seen are those of the edges kept. -/
theorem foldl_mergeEdge (merged : Merged) (hseen : ∀ k, k ∈ merged.seenEdges ↔
      k ∈ merged.edges.map CallEdge.key) (edges : List CallEdge) :
    let merged' := edges.foldl mergeEdge merged
    (∀ k, k ∈ merged'.seenEdges ↔ k ∈ merged'.edges.map CallEdge.key) ∧
      merged'.edges = edges.foldl (keepFirst CallEdge.key) merged.edges ∧
      merged'.functions = merged.functions ∧ merged'.trees = merged.trees := by
  induction edges generalizing merged with
  | nil => exact ⟨hseen, rfl, rfl, rfl⟩
  | cons edge edges ih =>
    simp only [List.foldl_cons, mergeEdge, keepFirst, ← hseen]
    split_ifs with hold
    · exact ih merged hseen
    · refine ih { merged with
        seenEdges := edge.key :: merged.seenEdges
        edges := merged.edges ++ [edge] } fun k => ?_
      rw [List.map_append, List.mem_append, ← hseen, List.mem_cons, List.map_singleton,
        List.mem_singleton, or_comm]

/-- What merging a result does. -/
theorem mergeResult_spec (pre : TreePrefixes) (merged : Merged) (hseen : ∀ k,
      k ∈ merged.seenEdges ↔ k ∈ merged.edges.map CallEdge.key) (result : WuxiResult) :
    let merged' := mergeResult pre merged result
    (∀ k, k ∈ merged'.seenEdges ↔ k ∈ merged'.edges.map CallEdge.key) ∧
      merged'.edges = result.callEdges.foldl (keepFirst CallEdge.key) merged.edges ∧
      merged'.functions =
        (pre.rewriteAll result.functions).foldl (keepFirst Prod.fst) merged.functions ∧
      merged'.trees = merged.trees ++ [result.callTree] := by
  let functions := (pre.rewriteAll result.functions).foldl mergeFunction merged.functions
  obtain ⟨hseen', hedges, hfunctions, htrees⟩ :=
    foldl_mergeEdge { merged with functions } hseen result.callEdges
  exact ⟨hseen', hedges, hfunctions, congrArg (· ++ [result.callTree]) htrees⟩

/-- **What is merged**: the first function of each name, the first edge with each key, and
all trees. -/
theorem mergeResults_spec (pre : TreePrefixes) (results : List WuxiResult) :
    (∀ k, k ∈ (mergeResults pre results).seenEdges ↔
        k ∈ (mergeResults pre results).edges.map CallEdge.key) ∧
      (mergeResults pre results).edges =
        firsts CallEdge.key (results.flatMap WuxiResult.callEdges) ∧
      (mergeResults pre results).functions =
        firsts Prod.fst (results.flatMap fun result => pre.rewriteAll result.functions) ∧
      (mergeResults pre results).trees = results.map WuxiResult.callTree := by
  induction results using List.reverseRecOn with
  | nil => exact ⟨by simp [mergeResults], rfl, rfl, rfl⟩
  | append_singleton results result ih =>
    obtain ⟨hseen, hedges, hfunctions, htrees⟩ := ih
    have hconcat : mergeResults pre (results ++ [result]) =
        mergeResult pre (mergeResults pre results) result := by simp [mergeResults]
    obtain ⟨hseen', hedges', hfunctions', htrees'⟩ :=
      mergeResult_spec pre (mergeResults pre results) hseen result
    rw [hconcat]
    refine ⟨hseen', ?_, ?_, ?_⟩
    · rw [hedges', hedges]
      simp [firsts]
    · rw [hfunctions', hfunctions]
      simp [firsts]
    · rw [htrees', htrees]
      simp

/-- **The merged edges lose nothing exactly if the key tells the edges apart**: then, and
only then, they are the edges that occur in the results, each once, in the order of their
first appearances. -/
theorem mergeResults_listsOnce_iff (pre : TreePrefixes) (results : List WuxiResult) :
    ListsOnce (results.flatMap WuxiResult.callEdges) (mergeResults pre results).edges ↔
      ∀ e ∈ results.flatMap WuxiResult.callEdges, ∀ e' ∈ results.flatMap WuxiResult.callEdges,
        e.key = e'.key → e = e' := by
  rw [(mergeResults_spec pre results).2.1]
  exact listsOnce_firsts_iff _

/-- Two calls of a function on one line. -/
def twoCalls : WuxiResult where
  callEdges := [⟨"main", "f", "a.c", 3, 5, false⟩, ⟨"main", "f", "a.c", 3, 12, false⟩]

/-- The second of two calls on one line is lost. -/
theorem not_listsOnce_twoCalls :
    (mergeResults ⟨"/httpd", "/httpd-cov"⟩ [twoCalls]).edges =
      [⟨"main", "f", "a.c", 3, 5, false⟩] ∧
    ¬ ListsOnce ([twoCalls].flatMap WuxiResult.callEdges)
      (mergeResults ⟨"/httpd", "/httpd-cov"⟩ [twoCalls]).edges := by
  have hedges : (mergeResults ⟨"/httpd", "/httpd-cov"⟩ [twoCalls]).edges =
      [⟨"main", "f", "a.c", 3, 5, false⟩] := by decide
  refine ⟨hedges, fun h => ?_⟩
  have hmem := (h.mem_iff ⟨"main", "f", "a.c", 3, 12, false⟩).mpr (by decide)
  rw [hedges] at hmem
  exact absurd hmem (by decide)

end Apatchy
