import Apatchy.Foundations.Exploration
import Apatchy.Introspector.CallGraphWalker
import Mathlib.Data.Finset.Card
import Mathlib.Data.Multiset.Bind
import Std.Data.TreeMap.Lemmas

/-!
# What a walk finds

The walker explores the call graph depth first. What a loop over call records does
is the exploration of `Apatchy.Exploration` that it leaves behind
(`Apatchy.CallGraph.Explores`): the tree is the exploration written out
(`Apatchy.CallGraph.render`), with a depth-3 unfolding
(`Apatchy.CallGraph.unfolding`) where a function was met before; the edges are those
of its arcs; the table has the functions it entered, and besides them only functions
that these reach. `Apatchy.CallGraph.walkCalls_explores` and
`Apatchy.CallGraph.walkNode_explores` say so of the code, the bound on the recursion
being larger than the number of functions not yet visited.

The three results about a walk are then results about explorations: the functions of
the report are those that can be reached
(`Apatchy.CallGraph.walk_functions`), each call with a place in the source is one
edge (`Apatchy.CallGraph.walk_edges`), and the tree is the one that the order of
the first meetings determines (`Apatchy.CallGraph.walk_root`).
-/

namespace Apatchy

namespace CallGraph

variable {N F : Type} (g : CallGraph N F)

/-! ### Trees and tables -/

/-- **A node below the root**, for a call record: it has the line, the column and the file of the
call, if the record is that of a call with a place in the source. -/
def sited (name : String) (children : List CallTreeNode) (cr : CallRecord N F) : CallTreeNode :=
  match cr.first with
  | some (.callBase ⟨_, _, some ⟨line, col, filename⟩⟩) =>
    { name, siteFile := filename, siteLine := line, siteCol := col, children }
  | _ => { name, children }

/-- What is below a function in the unfolding of the call graph. -/
def unfoldingCalls : ℕ → F → List CallTreeNode
  | 0, _ => []
  | depth + 1, f =>
    (g.calls f).map fun c => sited (g.function c.2).name (unfoldingCalls depth c.2) c.1

/-- **The unfolding of the call graph** at a function, down to a given depth. -/
def unfolding (depth : ℕ) (f : F) : CallTreeNode :=
  { name := (g.function f).name, children := g.unfoldingCalls depth f }

/-- **An exploration, written out** as a list of call trees: a function that is
entered is above what was found inside, and one that is skipped is unfolded three
levels deep. -/
def render : Exploration (CallRecord N F) F → List CallTreeNode
  | .done => []
  | .enter cr f inside after =>
    sited (g.function f).name (render inside) cr :: render after
  | .skip cr f after => sited (g.function f).name (g.unfoldingCalls 3 f) cr :: render after

/-- What the walker notes on a node is the place of the call. -/
theorem atSite_eq (name : String) (children : List CallTreeNode) (cr : CallRecord N F) :
    atSite cr { name, children } = sited name children cr := by
  obtain ⟨first, second⟩ := cr
  rcases first with _ | ⟨⟨_, _, _ | ⟨line, col, filename⟩⟩⟩ | _
  · rfl
  · rfl
  · rfl
  · rfl

/-- **A table grows** by names of functions of a given kind only. -/
structure Grows (kind : F → Prop) (funcMap funcMap' : FunctionMap) : Prop where
  /-- Nothing is taken off. -/
  kept : ∀ name ∈ funcMap, name ∈ funcMap'
  /-- What is put on is of that kind. -/
  named : ∀ name ∈ funcMap', name ∈ funcMap ∨ ∃ h, kind h ∧ g.getName h = name

variable {g}

theorem Grows.refl {kind : F → Prop} (funcMap : FunctionMap) : g.Grows kind funcMap funcMap :=
  ⟨fun _ h => h, fun _ h => Or.inl h⟩

theorem Grows.trans {kind : F → Prop} {m₁ m₂ m₃ : FunctionMap} (h : g.Grows kind m₁ m₂)
    (h' : g.Grows kind m₂ m₃) : g.Grows kind m₁ m₃ where
  kept name hname := h'.kept name (h.kept name hname)
  named name hname := by
    rcases h'.named name hname with hname | hnew
    · exact h.named name hname
    · exact Or.inr hnew

theorem Grows.mono {kind kind' : F → Prop} {m₁ m₂ : FunctionMap} (h : g.Grows kind m₁ m₂)
    (hkind : ∀ f, kind f → kind' f) : g.Grows kind' m₁ m₂ where
  kept := h.kept
  named name hname := by
    rcases h.named name hname with hname | ⟨f, hf, hn⟩
    · exact Or.inl hname
    · exact Or.inr ⟨f, hkind f hf, hn⟩

theorem mem_addFunction {f : F} {funcMap : FunctionMap} {name : String} :
    name ∈ g.addFunction f funcMap ↔ g.getName f = name ∨ name ∈ funcMap := by
  simp [addFunction, Std.TreeMap.mem_insert]

theorem grows_addFunction {kind : F → Prop} {f : F} (hf : kind f) (funcMap : FunctionMap) :
    g.Grows kind funcMap (g.addFunction f funcMap) where
  kept _ hname := mem_addFunction.mpr (Or.inr hname)
  named name hname := by
    rcases mem_addFunction.mp hname with heq | hname
    · exact Or.inr ⟨f, hf, heq⟩
    · exact Or.inl hname

/-- What the calls of a function reach, the function reaches. -/
theorem reaches_of_calls {f h : F} (hc : ∃ c ∈ g.calls f, g.Reaches c.2 h) : g.Reaches f h := by
  obtain ⟨c, hmem, hreach⟩ := hc
  exact hreach.head (g.calls_of_mem_calls hmem)

theorem records_eq {n : N} {f : F} (h : g.getFunction n = some f) :
    (g.records n).filterMap g.call = g.calls f := by
  rw [calls, ← g.eq_node h]

theorem call_eq_some {cr : CallRecord N F} {f : F} (h : g.getFunction cr.second = some f) :
    g.call cr = some (cr, f) := by simp [call, h]

theorem call_eq_none {cr : CallRecord N F} (h : g.getFunction cr.second = none) :
    g.call cr = none := by simp [call, h]

theorem mem_functions_of_reaches {f h : F} (hf : f ∈ g.functions) (hreach : g.Reaches f h) :
    h ∈ g.functions := by
  rcases Relation.ReflTransGen.cases_tail hreach with rfl | ⟨_, -, cr, -, hcr⟩
  · exact hf
  · exact g.mem_functions hcr

/-- **The edges of a function**: one for each of its records that calls a function
from a call with a place in the source. -/
def edgesOf (g : CallGraph N F) (f : F) : List CallEdge :=
  (g.calls f).filterMap fun c =>
    match c.1.first with
    | some (.callBase cb) =>
      cb.debugLoc.map fun loc =>
        ⟨g.getName f, g.getName c.2, loc.filename, loc.line, loc.col, cb.isIndirectCall⟩
    | _ => none

/-- The walker takes the caller from the call site, and it is the function whose
record it is. -/
theorem filterMap_edge (g : CallGraph N F) {f : F} (hf : f ∈ g.functions) :
    (g.calls f).filterMap g.edge = g.edgesOf f := by
  refine List.filterMap_congr fun c hc => ?_
  have hcr := (g.mem_calls.mp hc).1
  rw [edge]
  rcases hfirst : c.1.first with _ | cb | _
  · rfl
  · simp only [g.caller_eq (g.getFunction_node hf) hcr hfirst]
  · rfl

/-! ### Shallow expansion -/

/-- The loop of the shallow expansion makes a child for each record that calls a
function. -/
theorem shallowCalls_spec {shallow : N → FunctionMap → CallTreeNode × FunctionMap}
    {child : F → CallTreeNode}
    (hshallow : ∀ n f m, g.getFunction n = some f →
      (shallow n m).1 = child f ∧ g.Grows (g.Reaches f) m (shallow n m).2)
    (crs : List (CallRecord N F)) (m : FunctionMap) :
    (g.shallowCalls shallow crs m).1 =
        (crs.filterMap g.call).map (fun c => atSite c.1 (child c.2)) ∧
      g.Grows (fun h => ∃ c ∈ crs.filterMap g.call, g.Reaches c.2 h) m
        (g.shallowCalls shallow crs m).2 := by
  induction crs generalizing m with
  | nil => exact ⟨rfl, Grows.refl m⟩
  | cons cr crs ih =>
    rcases hfun : g.getFunction cr.second with _ | f
    · simpa only [shallowCalls, hfun, List.filterMap_cons_none (call_eq_none hfun)] using ih m
    · obtain ⟨hchild, hgrow⟩ := hshallow cr.second f m hfun
      obtain ⟨hchildren, hrest⟩ := ih (shallow cr.second m).2
      rw [List.filterMap_cons_some (call_eq_some hfun)]
      simp only [shallowCalls, hfun]
      refine ⟨by rw [hchild, hchildren, List.map_cons], ?_⟩
      refine (hgrow.mono fun h hh => ?_).trans (hrest.mono fun h hh => ?_)
      · exact ⟨_, List.mem_cons_self .., hh⟩
      · obtain ⟨c, hc, hreach⟩ := hh
        exact ⟨c, List.mem_cons_of_mem _ hc, hreach⟩

/-- **A shallow expansion is an unfolding** of the call graph. -/
theorem shallowNode_spec (depth : ℕ) {n : N} {f : F} (h : g.getFunction n = some f)
    (m : FunctionMap) :
    (g.shallowNode depth n m).1 = g.unfolding depth f ∧
      g.Grows (g.Reaches f) m (g.shallowNode depth n m).2 := by
  induction depth generalizing n f m with
  | zero =>
    simp only [shallowNode, h, unfolding, unfoldingCalls, getName, true_and]
    exact grows_addFunction Relation.ReflTransGen.refl m
  | succ depth ih =>
    obtain ⟨hchildren, hgrow⟩ := shallowCalls_spec (fun n f m hf => ih hf m) (g.records n)
      (g.addFunction f m)
    rw [records_eq h] at hchildren hgrow
    have hsited : (g.calls f).map (fun c => atSite c.1 (g.unfolding depth c.2)) =
        g.unfoldingCalls (depth + 1) f :=
      List.map_congr_left fun c _ => atSite_eq _ _ _
    rw [hsited] at hchildren
    simp only [shallowNode, h, unfolding, hchildren, getName, true_and]
    exact (grows_addFunction Relation.ReflTransGen.refl m).trans
      (hgrow.mono fun _ => reaches_of_calls)

/-! ### Explorations of the call graph -/

/-- **What a loop over calls did** between two states: the children it made and the
exploration it left behind. -/
structure Explores (g : CallGraph N F) (calls : List (CallRecord N F × F)) (st st' : WalkState F)
    (children : List CallTreeNode) (o : Exploration (CallRecord N F) F) : Prop where
  /-- At the top are the calls looped over. -/
  top : o.top = calls
  /-- Below a function entered are its calls. -/
  follows : o.Follows g.calls
  /-- A function is entered where it is first met. -/
  first : FirstMeet {f | f ∈ st.visited} o.meets
  /-- The functions entered are those newly visited. -/
  visited : ∀ f, f ∈ st'.visited ↔ f ∈ st.visited ∨ f ∈ o.entered
  /-- The children are the exploration, written out. -/
  children : children = g.render o
  /-- The new edges are those of its arcs. -/
  edges : st'.edges = st.edges ++ o.arcs.filterMap g.edge
  /-- The table grows by what the calls reach. -/
  grows : g.Grows (fun h => ∃ c ∈ calls, g.Reaches c.2 h) st.funcMap st'.funcMap
  /-- The functions entered are in it. -/
  entered : ∀ f ∈ o.entered, g.getName f ∈ st'.funcMap

variable {calls : List (CallRecord N F × F)} {st st₁ st' : WalkState F}
  {children : List CallTreeNode} {o : Exploration (CallRecord N F) F}

theorem explores_done : Explores g [] st st [] .done where
  top := rfl
  follows := trivial
  first := trivial
  visited := by simp [Exploration.entered]
  children := rfl
  edges := by simp [Exploration.arcs]
  grows := Grows.refl _
  entered := by simp [Exploration.entered]

/-- A call of a function visited before. -/
theorem Explores.skip {cr : CallRecord N F} {f : F} {funcMap : FunctionMap}
    (hf : f ∈ st.visited) (hgrow : g.Grows (g.Reaches f) st.funcMap funcMap)
    (h : Explores g calls
      { st with funcMap, edges := st.edges ++ (g.edge (cr, f)).toList } st' children o) :
    Explores g ((cr, f) :: calls) st st' (atSite cr (g.unfolding 3 f) :: children)
      (.skip cr f o) where
  top := by rw [Exploration.top, h.top]
  follows := h.follows
  first := by
    refine ⟨by simpa using hf, ?_⟩
    rw [Set.insert_eq_of_mem (show f ∈ {a | a ∈ st.visited} from hf)]
    exact h.first
  visited := h.visited
  children := by rw [render, h.children, unfolding, atSite_eq]
  edges := by
    rw [h.edges, Exploration.arcs]
    rcases hedge : g.edge (cr, f) with _ | e <;> simp [hedge]
  grows := by
    refine (hgrow.mono fun b hb => ?_).trans (h.grows.mono fun b hb => ?_)
    · exact ⟨_, List.mem_cons_self .., hb⟩
    · obtain ⟨c, hc, hreach⟩ := hb
      exact ⟨c, List.mem_cons_of_mem _ hc, hreach⟩
  entered := h.entered

/-! What an exploration from a single function is. -/

section FromFunction

variable {f : F} {funcMap : FunctionMap}

theorem Explores.firstMeet (h : Explores g (g.calls f) ⟨{f}, funcMap, []⟩ st' children o) :
    FirstMeet {f} o.meets := by
  have hseen : {a | a ∈ ({f} : Finset F)} = ({f} : Set F) := by
    ext a
    simp
  rw [← hseen]
  exact h.first

/-- The functions entered are those it reaches, besides itself. -/
theorem Explores.mem_entered_iff (h : Explores g (g.calls f) ⟨{f}, funcMap, []⟩ st' children o)
    (b : F) : b ∈ f :: o.entered ↔ g.Reaches f b := by
  have harc : Exploration.Arc g.calls = g.Calls := by
    funext a b
    refine propext ⟨fun ⟨cr, hcr⟩ => g.calls_of_mem_calls hcr, fun ⟨cr, hcr⟩ => ⟨cr, ?_⟩⟩
    exact g.mem_calls.mpr hcr
  rw [Exploration.mem_entered_iff h.follows h.top h.firstMeet, harc, Reaches]

theorem Explores.nodup_entered (h : Explores g (g.calls f) ⟨{f}, funcMap, []⟩ st' children o) :
    (f :: o.entered).Nodup := by
  obtain ⟨hnodup, hseen⟩ := Exploration.nodup_entered h.firstMeet
  exact List.nodup_cons.mpr ⟨fun hf => hseen f hf rfl, hnodup⟩

open scoped List in
/-- The arcs are the calls of the functions it reaches, each once. -/
theorem Explores.arcs_perm (h : Explores g (g.calls f) ⟨{f}, funcMap, []⟩ st' children o) :
    o.arcs ~ (f :: o.entered).flatMap g.calls := by
  rw [List.flatMap_cons, ← h.top]
  exact Exploration.arcs_perm h.follows

end FromFunction

variable [DecidableEq F]

/-- The first call of a function: it is entered, and what was found inside comes
before the rest. -/
theorem Explores.enter {cr : CallRecord N F} {f : F} {kids : List CallTreeNode}
    {inside : Exploration (CallRecord N F) F} (hf : f ∉ st.visited)
    (hin : Explores g (g.calls f)
      { st with
        visited := insert f st.visited
        funcMap := g.addFunction f st.funcMap } st₁ kids inside)
    (haf : Explores g calls
      { st₁ with edges := st₁.edges ++ (g.edge (cr, f)).toList } st' children o) :
    Explores g ((cr, f) :: calls) st st'
      (atSite cr { name := g.getName f, children := kids } :: children)
      (.enter cr f inside o) where
  top := by rw [Exploration.top, haf.top]
  follows := ⟨hin.top, hin.follows, haf.follows⟩
  first := by
    -- the calls inside are met with the function itself visited, those behind with all of them
    have hseen : insert f {a | a ∈ st.visited} = {a | a ∈ insert f st.visited} := by
      ext a
      simp
    have hafter : {a | a ∈ insert f st.visited} ∪ {a | a ∈ inside.entered} =
        {a | a ∈ st₁.visited} := by
      ext a
      simp [hin.visited]
    refine ⟨by simpa using hf, ?_⟩
    rw [hseen, firstMeet_append, Exploration.seen_union_meets hin.first, hafter]
    exact ⟨hin.first, haf.first⟩
  visited a := by
    simp only [haf.visited, hin.visited, Finset.mem_insert, Exploration.entered, List.mem_cons,
      List.mem_append]
    tauto
  children := by rw [render, hin.children, haf.children, atSite_eq, getName]
  edges := by
    rw [haf.edges, Exploration.arcs, hin.edges]
    rcases hedge : g.edge (cr, f) with _ | e <;> simp [hedge]
  grows := by
    -- the function map only grows, by functions that the call reaches
    have hinside : g.Grows (g.Reaches f) st.funcMap st₁.funcMap :=
      (grows_addFunction Relation.ReflTransGen.refl _).trans
        (hin.grows.mono fun _ => reaches_of_calls)
    refine (hinside.mono fun b hb => ?_).trans (haf.grows.mono fun b hb => ?_)
    · exact ⟨_, List.mem_cons_self .., hb⟩
    · obtain ⟨c, hc, hreach⟩ := hb
      exact ⟨c, List.mem_cons_of_mem _ hc, hreach⟩
  entered a ha := by
    rcases List.mem_cons.mp ha with rfl | ha
    · exact haf.grows.kept _ (hin.grows.kept _ (mem_addFunction.mpr (Or.inl rfl)))
    · rcases List.mem_append.mp ha with ha | ha
      · exact haf.grows.kept _ (hin.entered a ha)
      · exact haf.entered a ha

/-! ### The walk explores -/

/-- The number of functions not yet visited. -/
def unvisited (g : CallGraph N F) (visited : Finset F) : ℕ :=
  (g.functions.toFinset \ visited).card

theorem unvisited_le {visited visited' : Finset F} (h : visited ⊆ visited') :
    g.unvisited visited' ≤ g.unvisited visited :=
  Finset.card_le_card (Finset.sdiff_subset_sdiff (Finset.Subset.refl _) h)

theorem unvisited_insert_lt {f : F} {visited : Finset F} (hf : f ∈ g.functions)
    (hnew : f ∉ visited) : g.unvisited (insert f visited) < g.unvisited visited := by
  refine Finset.card_lt_card (Finset.ssubset_iff_of_subset ?_ |>.mpr ⟨f, ?_, ?_⟩)
  · exact Finset.sdiff_subset_sdiff (Finset.Subset.refl _) (Finset.subset_insert f visited)
  · simp [hf, hnew]
  · simp

/-- **The loop of the walk explores**, if the walk does from every function that the
loop may enter. -/
theorem walkCalls_explores {walk : N → WalkState F → Option (CallTreeNode × WalkState F)}
    {fuel : ℕ}
    (hwalk : ∀ n f st, g.getFunction n = some f → g.unvisited st.visited < fuel →
      ∃ kids st' o, walk n st = some ({ name := g.getName f, children := kids }, st') ∧
        Explores g (g.calls f) { st with funcMap := g.addFunction f st.funcMap } st' kids o)
    (crs : List (CallRecord N F)) (st : WalkState F) (hfuel : g.unvisited st.visited ≤ fuel) :
    ∃ children st' o, g.walkCalls walk crs st = some (children, st') ∧
      Explores g (crs.filterMap g.call) st st' children o := by
  induction crs generalizing st with
  | nil => exact ⟨[], st, .done, rfl, explores_done⟩
  | cons cr crs ih =>
    rcases hfun : g.getFunction cr.second with _ | f
    · -- a call of nothing known is passed over
      obtain ⟨children, st', o, hrun, hexp⟩ := ih st hfuel
      refine ⟨children, st', o, ?_, ?_⟩
      · simpa only [walkCalls, hfun] using hrun
      · rwa [List.filterMap_cons_none (call_eq_none hfun)]
    · rw [List.filterMap_cons_some (call_eq_some hfun)]
      by_cases hf : f ∈ st.visited
      · -- a function visited before gets a node without calls
        obtain ⟨hchild, hgrow⟩ := shallowNode_spec 3 hfun st.funcMap
        obtain ⟨children, st', o, hrun, hexp⟩ := ih
          { st with
            funcMap := (g.shallowNode 3 cr.second st.funcMap).2
            edges := st.edges ++ (g.edge (cr, f)).toList } hfuel
        refine ⟨_, st', _, ?_, hexp.skip hf hgrow⟩
        simp [walkCalls, hfun, hf, hrun, hchild]
      · -- a function entered leaves fewer to visit, and so does what is found inside
        have hlt := unvisited_insert_lt (g.mem_functions hfun) hf
        obtain ⟨kids, st₁, inside, hinrun, hin⟩ := hwalk cr.second f
          { st with visited := insert f st.visited } hfun (lt_of_lt_of_le hlt hfuel)
        have hle : g.unvisited st₁.visited ≤ fuel := by
          refine (unvisited_le fun a ha => ?_).trans hfuel
          exact (hin.visited a).mpr (Or.inl (Finset.mem_insert_of_mem ha))
        obtain ⟨children, st', after, hrun, haf⟩ := ih
          { st₁ with edges := st₁.edges ++ (g.edge (cr, f)).toList } hle
        refine ⟨_, st', _, ?_, hin.enter hf haf⟩
        simp [walkCalls, hfun, hf, hrun, hinrun]

/-- **The walk explores** the calls of a function, with more fuel than there are
functions to visit. -/
theorem walkNode_explores (fuel : ℕ) {n : N} {f : F} (st : WalkState F)
    (h : g.getFunction n = some f) (hfuel : g.unvisited st.visited < fuel) :
    ∃ kids st' o, g.walkNode fuel n st = some ({ name := g.getName f, children := kids }, st') ∧
      Explores g (g.calls f) { st with funcMap := g.addFunction f st.funcMap } st' kids o := by
  induction fuel generalizing n f st with
  | zero => exact absurd hfuel (Nat.not_lt_zero _)
  | succ fuel ih =>
    obtain ⟨children, st', o, hrun, hexp⟩ := walkCalls_explores
      (fun n f st hn hlt => ih st hn hlt) (g.records n)
      { st with funcMap := g.addFunction f st.funcMap } (Nat.lt_succ_iff.mp hfuel)
    rw [records_eq h] at hexp
    exact ⟨children, st', o, by simp [walkNode, h, hrun], hexp⟩

/-! ### More fuel changes nothing -/

theorem walkCalls_mono {walk walk' : N → WalkState F → Option (CallTreeNode × WalkState F)}
    (h : ∀ n st r, walk n st = some r → walk' n st = some r) {crs : List (CallRecord N F)}
    {st : WalkState F} {r : List CallTreeNode × WalkState F}
    (hrun : g.walkCalls walk crs st = some r) : g.walkCalls walk' crs st = some r := by
  induction crs generalizing st r with
  | nil => exact hrun
  | cons cr crs ih =>
    rcases hfun : g.getFunction cr.second with _ | f
    · simp only [walkCalls, hfun] at hrun ⊢
      exact ih hrun
    · simp only [walkCalls, hfun] at hrun ⊢
      by_cases hf : f ∈ st.visited
      · simp only [hf, not_true_eq_false, if_false, Option.bind_eq_bind, Option.bind_some] at hrun ⊢
        obtain ⟨q, hq, hr⟩ := Option.bind_eq_some_iff.mp hrun
        rw [ih hq]
        exact hr
      · simp only [hf, not_false_eq_true, if_true, Option.bind_eq_bind] at hrun ⊢
        obtain ⟨p, hp, hrun⟩ := Option.bind_eq_some_iff.mp hrun
        obtain ⟨q, hq, hr⟩ := Option.bind_eq_some_iff.mp hrun
        rw [h _ _ _ hp, Option.bind_some, ih hq]
        exact hr

theorem walkNode_mono {fuel fuel' : ℕ} (hle : fuel ≤ fuel') {n : N} {st : WalkState F}
    {r : CallTreeNode × WalkState F} (hrun : g.walkNode fuel n st = some r) :
    g.walkNode fuel' n st = some r := by
  induction fuel generalizing fuel' n st r with
  | zero => exact absurd hrun (Option.some_ne_none _).symm
  | succ fuel ih =>
    obtain ⟨fuel', rfl⟩ : ∃ k, fuel' = k + 1 := ⟨fuel' - 1, by omega⟩
    rcases hfun : g.getFunction n with _ | f
    · simpa only [walkNode, hfun] using hrun
    · simp only [walkNode, hfun, Option.bind_eq_bind] at hrun ⊢
      obtain ⟨p, hp, hr⟩ := Option.bind_eq_some_iff.mp hrun
      rw [walkCalls_mono (fun n st r => ih (Nat.le_of_succ_le_succ hle)) hp]
      exact hr

/-! ### Walks -/

/-- **A walk from a function returns**, whatever the bound on the recursion, as long
as it is not below the number of functions; what it returns is an exploration from
that function. -/
theorem walk_explores (g : CallGraph N F) {f : F} (hf : f ∈ g.functions) :
    ∃ result st' o,
      (∀ fuel, g.functions.length ≤ fuel → g.walk fuel (g.getName f) = some result) ∧
        result = ⟨{ name := g.getName f, children := g.render o }, st'.funcMap, st'.edges⟩ ∧
        Explores g (g.calls f) ⟨{f}, g.addFunction f {}, []⟩ st' (g.render o) o := by
  have hfind : (g.functions.find? fun h => g.getName h = g.getName f) = some f := by
    rcases hfound : g.functions.find? fun h => g.getName h = g.getName f with _ | h
    · exact absurd (List.find?_eq_none.mp hfound f hf) (by simp)
    · have hname := List.find?_some hfound
      rw [g.name_injective (List.mem_of_find?_eq_some hfound) hf (of_decide_eq_true hname)]
  -- the entry is visited from the start, so fewer functions are left than there are
  have hfuel : g.unvisited {f} < g.functions.length := by
    have hlt : g.unvisited (insert f ∅) < g.unvisited ∅ :=
      unvisited_insert_lt hf (Finset.notMem_empty f)
    refine lt_of_lt_of_le hlt ?_
    rw [unvisited, Finset.sdiff_empty]
    exact g.functions.toFinset_card_le
  obtain ⟨kids, st', o, hrun, hexp⟩ := walkNode_explores g.functions.length
    ⟨{f}, {}, []⟩ (g.getFunction_node hf) hfuel
  obtain rfl := hexp.children
  refine ⟨_, st', o, fun fuel hle => ?_, rfl, hexp⟩
  simp [walk, hfind, walkNode_mono hle hrun]

/-- **The functions of the report are those that can be reached** from the entry. -/
theorem walk_functions (g : CallGraph N F) {f : F} (hf : f ∈ g.functions) :
    ∃ result, (∀ fuel, g.functions.length ≤ fuel → g.walk fuel (g.getName f) = some result) ∧
      ∀ name, name ∈ result.functions ↔ ∃ h, g.Reaches f h ∧ g.getName h = name := by
  obtain ⟨_, st', o, hwalk, rfl, hexp⟩ := walk_explores g hf
  refine ⟨_, hwalk, fun name => ⟨fun hname => ?_, ?_⟩⟩
  · rcases hexp.grows.named name hname with hname | ⟨h, hh, hn⟩
    · rcases mem_addFunction.mp hname with heq | hnil
      · exact ⟨f, Relation.ReflTransGen.refl, heq⟩
      · exact absurd hnil Std.TreeMap.not_mem_emptyc
    · exact ⟨h, reaches_of_calls hh, hn⟩
  · rintro ⟨h, hreach, rfl⟩
    rcases List.mem_cons.mp ((hexp.mem_entered_iff h).mpr hreach) with rfl | hentered
    · exact hexp.grows.kept _ (mem_addFunction.mpr (Or.inl rfl))
    · exact hexp.entered h hentered

/-- The report on `main` lists `main` and `handler`. -/
theorem walk_functions_twoFunctions :
    ∃ result, (∀ fuel, twoFunctions.functions.length ≤ fuel →
        twoFunctions.walk fuel (twoFunctions.getName false) = some result) ∧
      ∀ name, name ∈ result.functions ↔
        ∃ h, twoFunctions.Reaches false h ∧ twoFunctions.getName h = name :=
  walk_functions twoFunctions (f := false) (by decide)

/-! ### Edges -/

open Classical in
/-- The functions that a function reaches. -/
noncomputable def reachable (g : CallGraph N F) (f : F) : Finset F :=
  {h ∈ g.functions.toFinset | g.Reaches f h}

theorem mem_reachable {f : F} (hf : f ∈ g.functions) (h : F) :
    h ∈ g.reachable f ↔ g.Reaches f h := by
  simp only [reachable, Finset.mem_filter, List.mem_toFinset, and_iff_right_iff_imp]
  exact mem_functions_of_reaches hf

/-- **Each call is one edge**: as a multiset, the edges of the report are those of
the functions that can be reached. -/
theorem walk_edges (g : CallGraph N F) {f : F} (hf : f ∈ g.functions) :
    ∃ result, (∀ fuel, g.functions.length ≤ fuel → g.walk fuel (g.getName f) = some result) ∧
      (result.edges : Multiset CallEdge) =
        (g.reachable f).val.bind fun h => (g.edgesOf h : Multiset CallEdge) := by
  obtain ⟨_, st', o, hwalk, rfl, hexp⟩ := walk_explores g hf
  refine ⟨_, hwalk, ?_⟩
  have hmem : ∀ h, h ∈ f :: o.entered ↔ h ∈ g.reachable f := fun h =>
    (hexp.mem_entered_iff h).trans (mem_reachable hf h).symm
  -- each function that can be reached is entered once
  have hfunctions : ((f :: o.entered : List F) : Multiset F) = (g.reachable f).val :=
    (Multiset.Nodup.ext (Multiset.coe_nodup.mpr hexp.nodup_entered) (g.reachable f).nodup).mpr hmem
  have hedges : ((f :: o.entered).flatMap g.calls).filterMap g.edge =
      (f :: o.entered).flatMap g.edgesOf := by
    rw [List.filterMap_flatMap]
    exact List.flatMap_congr fun h hh =>
      filterMap_edge g (mem_functions_of_reaches hf ((hexp.mem_entered_iff h).mp hh))
  calc (st'.edges : Multiset CallEdge)
      _ = (o.arcs.filterMap g.edge : List CallEdge) := by rw [hexp.edges]; rfl
      _ = (((f :: o.entered).flatMap g.calls).filterMap g.edge : List CallEdge) :=
          Multiset.coe_eq_coe.mpr (hexp.arcs_perm.filterMap g.edge)
      _ = ((f :: o.entered : List F) : Multiset F).bind fun h =>
            (g.edgesOf h : Multiset CallEdge) := by rw [hedges, Multiset.coe_bind]
      _ = (g.reachable f).val.bind fun h => (g.edgesOf h : Multiset CallEdge) := by
          rw [hfunctions]

/-- From `main` there are two edges: the call back has no place in the source. -/
theorem walk_edges_twoFunctions :
    ∃ result, (∀ fuel, twoFunctions.functions.length ≤ fuel →
        twoFunctions.walk fuel (twoFunctions.getName false) = some result) ∧
      (result.edges : Multiset CallEdge) =
        (twoFunctions.reachable false).val.bind fun h =>
          (twoFunctions.edgesOf h : Multiset CallEdge) :=
  walk_edges twoFunctions (f := false) (by decide)

/-! ### Trees -/

/-- **The call tree of a function**, by the exploration it is written out from. -/
structure IsCallTree (g : CallGraph N F) (f : F) (tree : CallTreeNode)
    (o : Exploration (CallRecord N F) F) : Prop where
  /-- The tree is the exploration, below the function. -/
  root : tree = { name := (g.function f).name, children := g.render o }
  /-- Below the root are the calls of the function, in order. -/
  top : o.top = g.calls f
  /-- Below every other function that is entered are its calls, in order. -/
  follows : o.Follows g.calls
  /-- A function is entered exactly where the search first meets it. -/
  first : FirstMeet {f} o.meets
  /-- No function is expanded twice. -/
  nodup : (f :: o.entered).Nodup
  /-- The functions expanded are those that can be reached. -/
  expanded : ∀ h, h ∈ f :: o.entered ↔ g.Reaches f h

/-- **The tree of the report is the call tree** of the entry. -/
theorem walk_root (g : CallGraph N F) {f : F} (hf : f ∈ g.functions) :
    ∃ result o,
      (∀ fuel, g.functions.length ≤ fuel → g.walk fuel (g.getName f) = some result) ∧
        g.IsCallTree f result.root o := by
  obtain ⟨_, st', o, hwalk, rfl, hexp⟩ := walk_explores g hf
  exact ⟨_, o, hwalk,
    { root := rfl
      top := hexp.top
      follows := hexp.follows
      first := hexp.firstMeet
      nodup := hexp.nodup_entered
      expanded := hexp.mem_entered_iff }⟩

/-- The tree of `main` and `handler`, which call each other: below `main` are its two calls,
with their places in the source. -/
theorem walk_root_twoFunctions :
    ∃ result o,
      (∀ fuel, twoFunctions.functions.length ≤ fuel →
          twoFunctions.walk fuel (twoFunctions.getName false) = some result) ∧
        twoFunctions.IsCallTree false result.root o ∧
          result.root.children.map (fun c => (c.name, c.siteLine, c.siteCol, c.siteFile)) =
            [("main", 3, 1, "main.c"), ("handler", 4, 1, "main.c")] := by
  obtain ⟨result, o, hwalk, htree⟩ := walk_root twoFunctions (f := false) (by decide)
  refine ⟨result, o, hwalk, htree, ?_⟩
  have hrun : (twoFunctions.walk 2 "main").map (fun result => result.root.children.map fun c =>
      (c.name, c.siteLine, c.siteCol, c.siteFile)) =
        some [("main", 3, 1, "main.c"), ("handler", 4, 1, "main.c")] := by
    decide +kernel
  have hmain : twoFunctions.walk 2 "main" = some result := hwalk 2 le_rfl
  rw [hmain] at hrun
  exact Option.some.inj hrun

end CallGraph

end Apatchy
