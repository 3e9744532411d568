import Mathlib.Data.List.Basic
import Mathlib.Logic.Relation

/-!
# Call graphs

What the introspector reads of LLVM: functions, with what debug information says
about them (`Apatchy.LlvmFunction`), and the call graph of a module
(`Apatchy.CallGraph`). A node of the graph holds a function or none – the nodes for
calls from and to outside the module hold none – and one record for each call its
function makes: the call site, if there is one, and the node called. Cycles,
self-calls and parallel records are all allowed.

The fields of `Apatchy.CallGraph` that are proofs are what LLVM keeps of its own
accord: a function has one node, a function's name is its own, and a call site is
in the function whose node records it.
-/

namespace Apatchy

/-! ### Functions -/

/-- What debug information says about a function. -/
structure DISubprogram where
  /-- The name in the source. -/
  name : String
  /-- The source file. -/
  filename : String
  /-- Its directory. -/
  directory : String
  /-- The line of the declaration. -/
  line : UInt32

/-- A function, as far as the introspector reads it. -/
structure LlvmFunction where
  /-- The name in the module. -/
  name : String
  /-- Its debug information. -/
  subprogram : Option DISubprogram := none
  /-- The number of instructions of each of its basic blocks. -/
  blocks : List ℕ := []

/-- What the report says about a function. -/
structure FunctionMeta where
  /-- The name in the source. -/
  name : String := ""
  /-- The source file. -/
  sourceFile : String := ""
  /-- Its directory. -/
  sourceDir : String := ""
  /-- The line of the declaration. -/
  lineStart : UInt32 := 0
  /-- The number of basic blocks. -/
  bbCount : UInt32 := 0
  /-- The number of instructions. -/
  instructionsCount : UInt32 := 0

/-- `FunctionInfo::dump`. -/
def LlvmFunction.dump (f : LlvmFunction) : FunctionMeta :=
  match f.subprogram with
  | some subroutine =>
    { name := subroutine.name
      sourceFile := subroutine.filename
      sourceDir := subroutine.directory
      lineStart := subroutine.line
      bbCount := UInt32.ofNat f.blocks.length
      instructionsCount := f.blocks.foldl (fun count bb => count + UInt32.ofNat bb) 0 }
  | none => {}

/-! ### The graph -/

/-- Where in the source a call is. -/
structure DebugLoc where
  /-- The line. -/
  line : UInt32
  /-- The column. -/
  col : UInt32
  /-- The file. -/
  filename : String

/-- A call instruction, in one of the functions `F`. -/
structure CallBase (F : Type) where
  /-- The function it is in. -/
  caller : F
  /-- Whether it calls through a pointer. -/
  isIndirectCall : Bool
  /-- Where it is in the source. -/
  debugLoc : Option DebugLoc

/-- The value a call record points to: a call, or anything else. -/
inductive CallSite (F : Type)
  | callBase (cb : CallBase F)
  | other

/-- A call record: the call site, if there is one, and the node called. -/
structure CallRecord (N F : Type) where
  /-- The call site. -/
  first : Option (CallSite F)
  /-- The node called. -/
  second : N

/-- The call site's place in the source, if the record has a call that has one. -/
def CallRecord.debugLoc {N F : Type} (cr : CallRecord N F) : Option DebugLoc :=
  match cr.first with
  | some (.callBase cb) => cb.debugLoc
  | _ => none

/-- **The call graph of a module**, with nodes `N` and functions `F`. -/
structure CallGraph (N F : Type) where
  /-- The functions of the module. -/
  functions : List F
  /-- What can be read of a function. -/
  function : F → LlvmFunction
  /-- The node of a function. -/
  node : F → N
  /-- The function of a node. -/
  getFunction : N → Option F
  /-- The call records of a node, in order. -/
  records : N → List (CallRecord N F)
  /-- The functions of nodes are functions of the module. -/
  mem_functions : ∀ {n f}, getFunction n = some f → f ∈ functions
  /-- The node of a function holds that function. -/
  getFunction_node : ∀ {f}, f ∈ functions → getFunction (node f) = some f
  /-- No other node does. -/
  eq_node : ∀ {n f}, getFunction n = some f → n = node f
  /-- No two functions have one name. -/
  name_injective : ∀ {f h}, f ∈ functions → h ∈ functions →
    (function f).name = (function h).name → f = h
  /-- The calls that a node records are in its function. -/
  caller_eq : ∀ {n f cr cb}, getFunction n = some f → cr ∈ records n →
    cr.first = some (.callBase cb) → cb.caller = f

namespace CallGraph

variable {N F : Type} (g : CallGraph N F)

/-- The name of a function. -/
def getName (f : F) : String := (g.function f).name

/-- The call a record stands for: the record and the function called, if a function
is called. -/
def call (cr : CallRecord N F) : Option (CallRecord N F × F) :=
  (g.getFunction cr.second).map fun callee => (cr, callee)

/-- **The calls of a function**, in order: its records that call a function. -/
def calls (f : F) : List (CallRecord N F × F) := (g.records (g.node f)).filterMap g.call

/-- A function has a record of a call to another. -/
def Calls (f h : F) : Prop := ∃ cr ∈ g.records (g.node f), g.getFunction cr.second = some h

/-- **A function reaches another** by zero or more calls. -/
def Reaches : F → F → Prop := Relation.ReflTransGen g.Calls

theorem mem_calls {f : F} {c : CallRecord N F × F} :
    c ∈ g.calls f ↔ c.1 ∈ g.records (g.node f) ∧ g.getFunction c.1.second = some c.2 := by
  obtain ⟨cr, h⟩ := c
  simp only [calls, call, List.mem_filterMap, Option.map_eq_some_iff, Prod.mk.injEq]
  constructor
  · rintro ⟨_, hcr, _, hh, rfl, rfl⟩
    exact ⟨hcr, hh⟩
  · rintro ⟨hcr, hh⟩
    exact ⟨cr, hcr, h, hh, rfl, rfl⟩

theorem calls_of_mem_calls {f : F} {c : CallRecord N F × F} (h : c ∈ g.calls f) :
    g.Calls f c.2 :=
  ⟨c.1, g.mem_calls.mp h⟩

/-- Two functions: `main` calls itself, something outside the module, and `handler`
through a pointer, and `handler` calls back from no place in the source. -/
def twoFunctions : CallGraph (Option Bool) Bool where
  functions := [false, true]
  function f := { name := if f then "handler" else "main" }
  node := some
  getFunction := id
  records n :=
    match n with
    | some false =>
      [⟨some (.callBase ⟨false, false, some ⟨3, 1, "main.c"⟩⟩), some false⟩, ⟨none, none⟩,
        ⟨some (.callBase ⟨false, true, some ⟨4, 1, "main.c"⟩⟩), some true⟩]
    | some true => [⟨some (.callBase ⟨true, false, none⟩), some false⟩]
    | none => []
  mem_functions {_ f} _ := by cases f <;> decide
  getFunction_node _ := rfl
  eq_node h := h
  name_injective {f h} _ _ hname := by revert f h; decide
  caller_eq {n f cr cb} h hcr hfirst := by
    obtain rfl : n = some f := h
    cases f
    · simp only [List.mem_cons, List.not_mem_nil, or_false] at hcr
      rcases hcr with rfl | rfl | rfl <;> cases hfirst <;> rfl
    · rw [List.mem_singleton.mp hcr] at hfirst
      cases hfirst
      rfl

end CallGraph

end Apatchy
