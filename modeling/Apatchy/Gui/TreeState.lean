import Apatchy.Foundations.Machine
import Apatchy.Foundations.PlainObjects

/-!
# Which nodes are open

The viewer keeps which nodes of a call tree are open in three layers: what was said of a
node by its key, what was said of all nodes, and, where nothing was said, the depth of the
node (`Apatchy.TreeState.isExpanded`). A toggle works out by itself what a node was, and
leaves the depth out: a node of which nothing was said counts as closed.

So a toggle flips what is shown exactly if the node is deep enough to be closed anyway, or
something was said of it before (`Apatchy.toggle_flips_iff`). A node that is open because
it is near the root stays open, the first time it is toggled.

A key is looked up in a plain object, so the names of the properties that every object
has count as keys of which something was said.
-/

namespace Apatchy

/-! ### The state -/

/-- **The state of the tree**, as it is between two renderings. -/
structure TreeState where
  /-- What was said of nodes. -/
  expanded : PlainObject Bool := PlainObject.empty
  /-- What was said of all nodes. -/
  globalOverride : Option Bool := none

namespace TreeState

/-- `nodeKey.split('/')` and `join('/')` of its first parts, from one part to all of them. -/
def pathKeys (nodeKey : String) : List String :=
  let parts := nodeKey.toList.splitOn '/'
  (List.range parts.length).map fun i =>
    String.ofList (List.intercalate ['/'] (parts.take (i + 1)))

/-- Whether a node is shown open. What the code returns may be a function, which counts
as true. -/
def isExpanded (autoExpandDepth : ℕ) (st : TreeState) (nodeKey : String) (depth : ℕ) : Bool :=
  if st.expanded.has nodeKey then (st.expanded.get nodeKey).truthy
  else
    match st.globalOverride with
    | some override => override
    | none => decide (depth < autoExpandDepth)

/-- Toggle a node. -/
def toggle (st : TreeState) (nodeKey : String) : TreeState :=
  let wasExpanded :=
    if st.expanded.has nodeKey then (st.expanded.get nodeKey).truthy
    else st.globalOverride.getD false
  { st with expanded := st.expanded.define nodeKey (!wasExpanded) }

/-- Open a node and all that are above it. -/
def expandPath (st : TreeState) (nodeKey : String) : TreeState :=
  let keys := PlainObject.empty.assignAll (pathKeys nodeKey) true
  { st with expanded := st.expanded.spread keys }

/-- Open all nodes. -/
def expandAll (_ : TreeState) : TreeState :=
  { expanded := PlainObject.empty, globalOverride := some true }

/-- Close all nodes. -/
def collapseAll (_ : TreeState) : TreeState :=
  { expanded := PlainObject.empty, globalOverride := some false }

end TreeState

/-- What the viewer can ask of the tree. -/
inductive TreeCall
  /-- `toggle(nodeKey)`. -/
  | toggle (nodeKey : String)
  /-- `expandAll()`. -/
  | expandAll
  /-- `collapseAll()`. -/
  | collapseAll
  /-- `expandPath(nodeKey)`. -/
  | expandPath (nodeKey : String)
deriving DecidableEq, Repr

/-- **The tree, driven by calls.** After each call it is rendered, so that the next call
reads the state that this one has left. -/
def treeMachine : Machine TreeState TreeCall Unit where
  step st
    | .toggle nodeKey => ((), st.toggle nodeKey)
    | .expandAll => ((), st.expandAll)
    | .collapseAll => ((), st.collapseAll)
    | .expandPath nodeKey => ((), st.expandPath nodeKey)

/-- The state after some calls. -/
def treeAfter (calls : List TreeCall) : TreeState := (treeMachine.run {} calls).2

/-! ### What was said -/

namespace TreeState

variable {st : TreeState} {key : String}

/-- Something was said of a node, or of all nodes. -/
def Told (st : TreeState) (key : String) : Prop :=
  st.expanded.has key = true ∨ st.globalOverride.isSome

/-- What is shown of a node of which nothing was said. -/
theorem isExpanded_of_not_told (h : ¬ st.Told key) (autoExpandDepth depth : ℕ) :
    st.isExpanded autoExpandDepth key depth = decide (depth < autoExpandDepth) := by
  rw [Told, not_or, Bool.not_eq_true, Option.not_isSome_iff_eq_none] at h
  simp [isExpanded, h.1, h.2]

theorem isExpanded_toggle_self (autoExpandDepth depth : ℕ) :
    (st.toggle key).isExpanded autoExpandDepth key depth =
      !(if st.expanded.has key then (st.expanded.get key).truthy
        else st.globalOverride.getD false) := by
  simp [toggle, isExpanded, Property.truthy]

/-- A toggle knows what a node was, if something was said of it. -/
theorem isExpanded_toggle_of_told (h : st.Told key) (autoExpandDepth depth : ℕ) :
    (st.toggle key).isExpanded autoExpandDepth key depth =
      !st.isExpanded autoExpandDepth key depth := by
  rw [isExpanded_toggle_self, isExpanded]
  split_ifs with hhas
  · rfl
  · obtain ⟨override, hall⟩ := Option.isSome_iff_exists.mp (h.resolve_left hhas)
    simp [hall]

/-- **If nothing was said of a node, a toggle opens it**, whatever it was. -/
theorem isExpanded_toggle_of_not_told (h : ¬ st.Told key) (autoExpandDepth depth : ℕ) :
    (st.toggle key).isExpanded autoExpandDepth key depth = true := by
  rw [Told, not_or, Bool.not_eq_true, Option.not_isSome_iff_eq_none] at h
  simp [isExpanded_toggle_self, h.1, h.2]

/-- The other nodes are shown as before. -/
theorem isExpanded_toggle_of_ne {key' : String} (h : key' ≠ key) (autoExpandDepth depth : ℕ) :
    (st.toggle key).isExpanded autoExpandDepth key' depth =
      st.isExpanded autoExpandDepth key' depth := by
  simp [toggle, isExpanded, PlainObject.has_define_of_ne h, PlainObject.get_define_of_ne h]

end TreeState

/-- A call says something of a node. -/
def TreeCall.Tells : TreeCall → String → Prop
  | .toggle nodeKey, key => key = nodeKey
  | .expandAll, _ => True
  | .collapseAll, _ => True
  | .expandPath nodeKey, key => key ∈ TreeState.pathKeys nodeKey

/-- **What a call adds** to what was said. -/
theorem told_step (st : TreeState) (call : TreeCall) (key : String) :
    (treeMachine.step st call).2.Told key ↔ st.Told key ∨ call.Tells key := by
  cases call with
  | toggle nodeKey =>
    by_cases hkey : key = nodeKey
    · subst hkey
      simp [treeMachine, TreeState.Told, TreeState.toggle, TreeCall.Tells]
    · simp [treeMachine, TreeState.Told, TreeState.toggle, TreeCall.Tells, hkey,
        PlainObject.has_define_of_ne hkey]
  | expandAll => simp [treeMachine, TreeState.Told, TreeState.expandAll, TreeCall.Tells]
  | collapseAll => simp [treeMachine, TreeState.Told, TreeState.collapseAll, TreeCall.Tells]
  | expandPath nodeKey =>
    have hkeys : (PlainObject.empty.assignAll (TreeState.pathKeys nodeKey) true).has key = true ↔
        key ∈ TreeState.pathKeys nodeKey ∨ key ∈ objectPrototype := by
      by_cases hproto : key = "__proto__"
      · subst hproto
        simp [PlainObject.has, objectPrototype]
      · by_cases hmem : key ∈ TreeState.pathKeys nodeKey <;>
          simp [PlainObject.has, PlainObject.assignAll_apply, PlainObject.empty, hproto, hmem]
    -- what an object inherits it has from the start
    have hinherits : key ∈ objectPrototype → st.expanded.has key = true := by
      intro hproto
      simp [PlainObject.has, hproto]
    simp only [treeMachine, TreeState.Told, TreeState.expandPath, TreeCall.Tells,
      PlainObject.has_spread, Bool.or_eq_true, hkeys]
    constructor
    · rintro (((hpath | hproto) | hhas) | hall)
      · exact Or.inr hpath
      · exact Or.inl (Or.inl (hinherits hproto))
      · exact Or.inl (Or.inl hhas)
      · exact Or.inl (Or.inr hall)
    · rintro ((hhas | hall) | hpath)
      · exact Or.inl (Or.inr hhas)
      · exact Or.inr hall
      · exact Or.inl (Or.inl (Or.inl hpath))

/-- **What was said after some calls**: what one of them says, and what every object
inherits. -/
theorem told_treeAfter (calls : List TreeCall) (key : String) :
    (treeAfter calls).Told key ↔
      key ∈ objectPrototype ∨ ∃ call ∈ calls, call.Tells key := by
  induction calls using List.reverseRecOn with
  | nil => simp [treeAfter, TreeState.Told]
  | append_singleton calls call ih =>
    rw [treeAfter, Machine.run_concat, told_step, ← treeAfter, ih]
    simp only [List.mem_append, List.mem_singleton, or_assoc]
    constructor
    · rintro (hproto | ⟨c, hc, htells⟩ | htells)
      · exact Or.inl hproto
      · exact Or.inr ⟨c, Or.inl hc, htells⟩
      · exact Or.inr ⟨call, Or.inr rfl, htells⟩
    · rintro (hproto | ⟨c, hc | rfl, htells⟩)
      · exact Or.inl hproto
      · exact Or.inr (Or.inl ⟨c, hc, htells⟩)
      · exact Or.inr (Or.inr htells)

/-! ### Toggling -/

/-- **A toggle flips what is shown**: of the node at its depth, and of no other. -/
structure Flips (autoExpandDepth : ℕ) (st st' : TreeState) (key : String) (depth : ℕ) : Prop where
  /-- The node was open and is closed, or the other way round. -/
  flipped : st'.isExpanded autoExpandDepth key depth = !st.isExpanded autoExpandDepth key depth
  /-- The others are as they were. -/
  others : ∀ key' ≠ key, ∀ depth', st'.isExpanded autoExpandDepth key' depth' =
    st.isExpanded autoExpandDepth key' depth'

/-- From any state, a toggle flips exactly the nodes of which something was said, and those
that are closed. -/
theorem TreeState.flips_toggle_iff (autoExpandDepth : ℕ) (st : TreeState) (key : String)
    (depth : ℕ) :
    Flips autoExpandDepth st (st.toggle key) key depth ↔
      st.Told key ∨ autoExpandDepth ≤ depth := by
  by_cases htold : st.Told key
  · refine iff_of_true ⟨isExpanded_toggle_of_told htold _ _, ?_⟩ (Or.inl htold)
    intro key' hkey depth'
    exact isExpanded_toggle_of_ne hkey _ _
  · have hbefore := isExpanded_of_not_told htold autoExpandDepth depth
    have hafter := isExpanded_toggle_of_not_told htold autoExpandDepth depth
    constructor
    · rintro ⟨hflipped, -⟩
      rw [hafter, hbefore] at hflipped
      exact Or.inr (by simpa using hflipped.symm)
    · rintro (hsaid | hdeep)
      · exact absurd hsaid htold
      · refine ⟨?_, fun key' hkey depth' => isExpanded_toggle_of_ne hkey _ _⟩
        rw [hafter, hbefore]
        simpa using hdeep

/-- **After any calls, a toggle flips what is shown of a node exactly if** the node is too
deep to be open by itself, or a call has said something of it or of all nodes, or its key
is the name of a property that every object has. -/
theorem toggle_flips_iff (autoExpandDepth : ℕ) (calls : List TreeCall) (key : String)
    (depth : ℕ) :
    Flips autoExpandDepth (treeAfter calls) (treeAfter (calls ++ [.toggle key])) key depth ↔
      autoExpandDepth ≤ depth ∨ key ∈ objectPrototype ∨ ∃ call ∈ calls, call.Tells key := by
  have hlast : treeAfter (calls ++ [.toggle key]) = (treeAfter calls).toggle key := by
    rw [treeAfter, Machine.run_concat]
    rfl
  rw [hlast, TreeState.flips_toggle_iff, told_treeAfter, or_comm]

/-- **The first click on a root** does not close it. -/
theorem not_flips_root :
    (treeAfter []).isExpanded 2 "main" 0 = true ∧
      (treeAfter [.toggle "main"]).isExpanded 2 "main" 0 = true ∧
      ¬ Flips 2 (treeAfter []) (treeAfter ([] ++ [.toggle "main"])) "main" 0 := by
  refine ⟨by decide, by decide, fun h => ?_⟩
  exact absurd h.flipped (by decide)

end Apatchy
