import Apatchy.Introspector.CallGraph
import Mathlib.Data.Finset.Basic
import Std.Data.TreeMap

/-!
# The call graph walker

`CallGraphWalker` turns the call graph of a module into the report of the
introspector: a call tree below an entry function, a table of the functions in it,
and the list of the call edges (`Apatchy.WalkResult`).

`Apatchy.CallGraph.walkNode` expands a function and every function it meets for
the first time; a function that it met before is expanded three levels deep by
`Apatchy.CallGraph.shallowNode`, which forgets what was visited and emits no edge.
Both loop over the call records of a node, and the loops take the recursive call as
an argument (`Apatchy.CallGraph.walkCalls`, `Apatchy.CallGraph.shallowCalls`).

Nothing in the source bounds the recursion of `walkNode` but the set of visited
functions. Here it has a bound of its own, and no result when it runs out; that the
bound does not matter is part of what is proved. Its parameter `depth` serves a
debug message only and is left out.
-/

namespace Apatchy

/-- A node of the call tree. -/
structure CallTreeNode where
  /-- The name of the function. -/
  name : String := ""
  /-- The file of the call. -/
  siteFile : String := ""
  /-- Its line. -/
  siteLine : UInt32 := 0
  /-- Its column. -/
  siteCol : UInt32 := 0
  /-- What the function calls. -/
  children : List CallTreeNode := []

/-- A call edge. -/
structure CallEdge where
  /-- The name of the caller. -/
  caller : String
  /-- The name of the function called. -/
  callee : String
  /-- The file of the call. -/
  siteFile : String
  /-- Its line. -/
  siteLine : UInt32 := 0
  /-- Its column. -/
  siteCol : UInt32 := 0
  /-- Whether it calls through a pointer. -/
  isIndirect : Bool := false

/-- The table of functions, by name. -/
abbrev FunctionMap := Std.TreeMap String FunctionMeta

/-- What a walk returns. -/
structure WalkResult where
  /-- The call tree. -/
  root : CallTreeNode := {}
  /-- The functions in it. -/
  functions : FunctionMap := {}
  /-- The call edges, in the order they were found. -/
  edges : List CallEdge := []

/-- What the calls of `walkNode` share: the functions visited, the table and the
edges. -/
structure WalkState (F : Type) where
  /-- The functions visited. -/
  visited : Finset F
  /-- The table of functions. -/
  funcMap : FunctionMap := {}
  /-- The edges found. -/
  edges : List CallEdge := []

namespace CallGraph

variable {N F : Type} (g : CallGraph N F)

/-- Put a function in the table. -/
def addFunction (f : F) (funcMap : FunctionMap) : FunctionMap :=
  funcMap.insert (g.getName f) (g.function f).dump

/-- Note on a node where it is called from, if the record has a place in the
source. -/
def atSite (cr : CallRecord N F) (child : CallTreeNode) : CallTreeNode :=
  match cr.debugLoc with
  | some loc =>
    { child with siteLine := loc.line, siteCol := loc.col, siteFile := loc.filename }
  | none => child

/-- The edge of a call, if the record has a place in the source. -/
def edge (c : CallRecord N F × F) : Option CallEdge :=
  match c.1.first with
  | some (.callBase cb) =>
    cb.debugLoc.map fun loc =>
      { callee := g.getName c.2
        caller := g.getName cb.caller
        isIndirect := cb.isIndirectCall
        siteFile := loc.filename
        siteLine := loc.line
        siteCol := loc.col }
  | _ => none

/-- The loop of `shallowNode` over the records of a node. -/
def shallowCalls (shallowNode : N → FunctionMap → CallTreeNode × FunctionMap) :
    List (CallRecord N F) → FunctionMap → List CallTreeNode × FunctionMap
  | [], funcMap => ([], funcMap)
  | cr :: crs, funcMap =>
    match g.getFunction cr.second with
    | some _ =>
      let (child, funcMap) := shallowNode cr.second funcMap
      let (children, funcMap) := shallowCalls shallowNode crs funcMap
      (atSite cr child :: children, funcMap)
    | none => shallowCalls shallowNode crs funcMap

/-- `shallowNode`: the call tree below a node, down to a given depth. -/
def shallowNode : ℕ → N → FunctionMap → CallTreeNode × FunctionMap
  | 0, node, funcMap =>
    match g.getFunction node with
    | some f => ({ name := g.getName f }, g.addFunction f funcMap)
    | none => ({}, funcMap)
  | maxDepth + 1, node, funcMap =>
    match g.getFunction node with
    | some f =>
      let funcMap := g.addFunction f funcMap
      let (children, funcMap) := g.shallowCalls (shallowNode maxDepth) (g.records node) funcMap
      ({ name := g.getName f, children }, funcMap)
    | none => ({}, funcMap)

variable [DecidableEq F]

/-- The loop of `walkNode` over the records of a node. -/
def walkCalls (walkNode : N → WalkState F → Option (CallTreeNode × WalkState F)) :
    List (CallRecord N F) → WalkState F → Option (List CallTreeNode × WalkState F)
  | [], st => some ([], st)
  | cr :: crs, st =>
    match g.getFunction cr.second with
    | some callee => do
      let (child, st) ←
        if callee ∉ st.visited then
          walkNode cr.second { st with visited := insert callee st.visited }
        else
          -- already visited: three levels and no edges
          let (child, funcMap) := g.shallowNode 3 cr.second st.funcMap
          some (child, { st with funcMap })
      -- the edge comes after those found below the call
      let st := { st with edges := st.edges ++ (g.edge (cr, callee)).toList }
      let (children, st) ← walkCalls walkNode crs st
      return (atSite cr child :: children, st)
    | none => walkCalls walkNode crs st

/-- `walkNode`, with a bound on how deep it may recurse. -/
def walkNode : ℕ → N → WalkState F → Option (CallTreeNode × WalkState F)
  | 0, _, _ => none
  | fuel + 1, node, st =>
    match g.getFunction node with
    | some f => do
      let st := { st with funcMap := g.addFunction f st.funcMap }
      let (children, st) ← g.walkCalls (walkNode fuel) (g.records node) st
      return ({ name := g.getName f, children }, st)
    | none => some ({}, st)

/-- `walk`: the report on the function of a given name, and an empty report if
there is none. -/
def walk (fuel : ℕ) (entryName : String) : Option WalkResult :=
  match g.functions.find? fun f => g.getName f = entryName with
  | some entryFunc => do
    let (root, st) ← g.walkNode fuel (g.node entryFunc) { visited := {entryFunc} }
    return { root, functions := st.funcMap, edges := st.edges }
  | none => some {}

end CallGraph

end Apatchy
