import Apatchy.Gui.DeepLinks
import Mathlib.Data.List.Infix

/-!
# The rows of the call tree

`CallTree` shows the call trees as rows: each `TreeNode` is a row and, if it is open, the rows
of its children (`Apatchy.callTree`). A node is left out with all that is below it in two
cases: it is one of LLVM's intrinsics and these are hidden, or something is searched for and
neither its name nor that of a node below it has it.

Leaving out whole nodes comes to the same as picking rows: `Apatchy.callTree_search` says that a
search keeps, of the rows there were without it, those that lead to something found. Which rows
there are is told by the path to them (`Apatchy.mem_callTree_iff`), so that for a node whose link
is restored everything can be said (`Apatchy.linkedRow_displayed_iff`); and with everything open
the rows are those that the summary counts (`Apatchy.summary_expandAll`).

What `toLowerCase` makes of a name is a parameter.
-/

namespace Apatchy

/-! ### Rendering -/

/-- What is shown of the call trees: which nodes are open, what is searched for, and whether
intrinsics are hidden. -/
structure TreeView where
  /-- `isExpanded`. -/
  isExpanded : String → ℕ → Bool
  /-- `searchQuery`. -/
  searchQuery : String := ""
  /-- `hideIntrinsics`. -/
  hideIntrinsics : Bool := true

/-- The intrinsics that can be hidden. -/
def isIntrinsic (name : String) : Bool :=
  name.startsWith "llvm.lifetime." || name.startsWith "llvm.umax." || name.startsWith "llvm.smax."

section Render

variable (toLowerCase : String → String)

/-- `name.toLowerCase().includes(query.toLowerCase())`. -/
def nameIncludes (query name : String) : Bool :=
  decide ((toLowerCase query).toList <:+: (toLowerCase name).toList)

mutual

/-- **`hasMatchingDescendant`.** -/
def hasMatchingDescendant (query : String) : AnnotatedNode → Bool
  | ⟨_, _, _, _, _, children⟩ => anyMatches query children

/-- The loop over the children. -/
def anyMatches (query : String) : List AnnotatedNode → Bool
  | [] => false
  | child :: children =>
    nameIncludes toLowerCase query child.name || hasMatchingDescendant query child ||
      anyMatches query children

end

/-- Whether a node, or one below it, has what is searched for. -/
def leadsToMatch (query : String) (node : AnnotatedNode) : Bool :=
  nameIncludes toLowerCase query node.name || hasMatchingDescendant toLowerCase query node

/-- `isHidden`. -/
def isHidden (query : String) (node : AnnotatedNode) : Bool :=
  query ≠ "" && !leadsToMatch toLowerCase query node

/-- A node that is shown, if the nodes above it are open and shown. -/
def TreeView.Shows (view : TreeView) (node : AnnotatedNode) : Prop :=
  isHidden toLowerCase view.searchQuery node = false ∧
    ¬ (view.hideIntrinsics = true ∧ isIntrinsic node.name = true)

instance (view : TreeView) (node : AnnotatedNode) : Decidable (view.Shows toLowerCase node) :=
  inferInstanceAs (Decidable (_ ∧ _))

variable (view : TreeView)

mutual

/-- **`TreeNode`**: the row of a node, and those below it. -/
def treeNode (node : AnnotatedNode) (depth : ℕ) (nodeKey : String) (callerName : Option String) :
    List TreeRow :=
  match node with
  | ⟨name, siteFile, siteLine, siteCol, siteCount, children⟩ =>
    let node : AnnotatedNode := ⟨name, siteFile, siteLine, siteCol, siteCount, children⟩
    if view.Shows toLowerCase node then
      ⟨node, depth, nodeKey, callerName⟩ ::
        if view.isExpanded nodeKey depth then treeNodes name nodeKey (depth + 1) 0 children else []
    else []

/-- The children of a node, from the `i`-th on. -/
def treeNodes (name key : String) (depth i : ℕ) (children : List AnnotatedNode) : List TreeRow :=
  match children with
  | [] => []
  | child :: children =>
    treeNode child depth (childKey key child.name i) (some name) ++
      treeNodes name key depth (i + 1) children

end

/-- **`CallTree`**, as the rows it shows. -/
def callTree (roots : List AnnotatedNode) : List TreeRow :=
  roots.flatMap fun root => treeNode toLowerCase view root 0 root.name none

end Render

variable {toLowerCase : String → String} {view : TreeView}

theorem hasMatchingDescendant_eq (query : String) (node : AnnotatedNode) :
    hasMatchingDescendant toLowerCase query node = anyMatches toLowerCase query node.children := by
  cases node
  rw [hasMatchingDescendant]

theorem treeNode_eq (node : AnnotatedNode) (depth : ℕ) (nodeKey : String)
    (callerName : Option String) :
    treeNode toLowerCase view node depth nodeKey callerName =
      if view.Shows toLowerCase node then
        ⟨node, depth, nodeKey, callerName⟩ ::
          if view.isExpanded nodeKey depth then
            treeNodes toLowerCase view node.name nodeKey (depth + 1) 0 node.children
          else []
      else [] := by
  cases node
  rw [treeNode]

/-- Some child leads to what is found below. -/
theorem anyMatches_eq_any (query : String) (children : List AnnotatedNode) :
    anyMatches toLowerCase query children = children.any (leadsToMatch toLowerCase query) := by
  induction children with
  | nil => rw [anyMatches, List.any_nil]
  | cons child children ih => rw [anyMatches, ih, List.any_cons, leadsToMatch]

/-- **A node that leads to nothing has no child that does.** -/
theorem leadsToMatch_child {query : String} {node child : AnnotatedNode}
    (h : leadsToMatch toLowerCase query child = true) (hchild : child ∈ node.children) :
    leadsToMatch toLowerCase query node = true := by
  rw [leadsToMatch, hasMatchingDescendant_eq, anyMatches_eq_any, Bool.or_eq_true]
  exact Or.inr (List.any_eq_true.mpr ⟨child, hchild, h⟩)

theorem isHidden_child {query : String} {node child : AnnotatedNode}
    (h : isHidden toLowerCase query node = true) (hchild : child ∈ node.children) :
    isHidden toLowerCase query child = true := by
  simp only [isHidden, Bool.and_eq_true, Bool.not_eq_true', decide_eq_true_eq] at h ⊢
  refine ⟨h.1, Bool.eq_false_iff.mpr fun hleads => ?_⟩
  rw [leadsToMatch_child hleads hchild] at h
  exact absurd h.2 (by simp)

/-! ### Searching -/

/-- **A row leads to what is searched for**: it is in its name or in that of a row below it.
Without a search every row does. -/
def TreeRow.Found (toLowerCase : String → String) (query : String) (row : TreeRow) : Prop :=
  query = "" ∨ ∃ is row', row.below is = some row' ∧
    (toLowerCase query).toList <:+: (toLowerCase row'.node.name).toList

/-- A node below a node is smaller. -/
theorem sizeOf_child {row row' : TreeRow} {i : ℕ} (h : row.child i = some row') :
    sizeOf row'.node < sizeOf row.node := by
  obtain ⟨child, hchild, rfl⟩ := Option.map_eq_some_iff.mp h
  have hmem := List.sizeOf_lt_of_mem (List.mem_of_getElem? hchild)
  rcases hnode : row.node with ⟨name, siteFile, siteLine, siteCol, siteCount, children⟩
  rw [hnode] at hmem
  dsimp only at hmem
  simp only [AnnotatedNode.mk.sizeOf_spec]
  omega

/-- A row leads to a match if the code finds one in its node. -/
theorem leadsToMatch_iff {query : String} (row : TreeRow) :
    leadsToMatch toLowerCase query row.node = true ↔ ∃ is row', row.below is = some row' ∧
      (toLowerCase query).toList <:+: (toLowerCase row'.node.name).toList := by
  rw [leadsToMatch, hasMatchingDescendant_eq, anyMatches_eq_any, Bool.or_eq_true,
    List.any_eq_true, nameIncludes, decide_eq_true_iff]
  constructor
  · rintro (hname | ⟨child, hmem, hleads⟩)
    · exact ⟨[], row, rfl, hname⟩
    · obtain ⟨i, hi⟩ := List.getElem?_of_mem hmem
      have hchild : row.child i = some ⟨child, row.depth + 1,
          childKey row.nodeKey child.name i, some row.node.name⟩ := by
        rw [TreeRow.child, hi]
        rfl
      have hsmaller := sizeOf_child hchild
      obtain ⟨is, row', hbelow, hname⟩ := (leadsToMatch_iff ⟨child, row.depth + 1,
        childKey row.nodeKey child.name i, some row.node.name⟩).mp hleads
      exact ⟨i :: is, row', by rw [TreeRow.below, hchild]; exact hbelow, hname⟩
  · rintro ⟨_ | ⟨i, is⟩, row', hbelow, hname⟩
    · obtain rfl : row = row' := Option.some.inj hbelow
      exact Or.inl hname
    · obtain ⟨c, hchild, hbelow⟩ := TreeRow.exists_child hbelow
      have hsmaller := sizeOf_child hchild
      have hleads := (leadsToMatch_iff c).mpr ⟨is, row', hbelow, hname⟩
      obtain ⟨child, hget, rfl⟩ := Option.map_eq_some_iff.mp hchild
      exact Or.inr ⟨child, List.mem_of_getElem? hget, hleads⟩
termination_by sizeOf row.node

/-- **A node is hidden** if its row leads to nothing. -/
theorem isHidden_iff (query : String) (row : TreeRow) :
    isHidden toLowerCase query row.node = false ↔ row.Found toLowerCase query := by
  rw [TreeRow.Found, ← leadsToMatch_iff, isHidden, Bool.and_eq_false_iff, Bool.not_eq_false',
    decide_eq_false_iff_not, not_not]

instance (query : String) (row : TreeRow) : Decidable (row.Found toLowerCase query) :=
  decidable_of_iff _ (isHidden_iff query row)

section Search

variable (query : String)

mutual

/-- The rows of a node that leads to nothing lead to nothing. -/
theorem treeNode_hidden (node : AnnotatedNode) (depth : ℕ) (nodeKey : String)
    (callerName : Option String) (h : isHidden toLowerCase query node = true) :
    ∀ row ∈ treeNode toLowerCase view node depth nodeKey callerName,
      isHidden toLowerCase query row.node = true := by
  match node with
  | ⟨name, siteFile, siteLine, siteCol, siteCount, children⟩ =>
    intro row hrow
    rw [treeNode_eq] at hrow
    split_ifs at hrow with hshows hopen
    · rcases List.mem_cons.mp hrow with rfl | hrow
      · exact h
      · exact treeNodes_hidden children name nodeKey (depth + 1) 0
          (fun child hchild => isHidden_child h hchild) row hrow
    · obtain rfl := List.mem_singleton.mp hrow
      exact h
    · exact absurd hrow List.not_mem_nil

theorem treeNodes_hidden (children : List AnnotatedNode) (name key : String) (depth i : ℕ)
    (h : ∀ child ∈ children, isHidden toLowerCase query child = true) :
    ∀ row ∈ treeNodes toLowerCase view name key depth i children,
      isHidden toLowerCase query row.node = true := by
  match children with
  | [] =>
    intro row hrow
    rw [treeNodes] at hrow
    exact absurd hrow List.not_mem_nil
  | child :: children =>
    intro row hrow
    rw [treeNodes] at hrow
    rcases List.mem_append.mp hrow with hrow | hrow
    · exact treeNode_hidden child depth _ _ (h child List.mem_cons_self) row hrow
    · exact treeNodes_hidden children name key depth (i + 1)
        (fun c hc => h c (List.mem_cons_of_mem _ hc)) row hrow

end

/-- Without a search only intrinsics are left out. -/
theorem shows_search_iff (node : AnnotatedNode) :
    ({ view with searchQuery := query } : TreeView).Shows toLowerCase node ↔
      isHidden toLowerCase query node = false ∧
        ({ view with searchQuery := "" } : TreeView).Shows toLowerCase node := by
  simp [TreeView.Shows, isHidden]

mutual

theorem treeNode_search (node : AnnotatedNode) (depth : ℕ) (nodeKey : String)
    (callerName : Option String) :
    treeNode toLowerCase { view with searchQuery := query } node depth nodeKey callerName =
      (treeNode toLowerCase { view with searchQuery := "" } node depth nodeKey callerName).filter
        (fun row => !isHidden toLowerCase query row.node) := by
  match node with
  | ⟨name, siteFile, siteLine, siteCol, siteCount, children⟩ =>
    rcases hhidden : isHidden toLowerCase query
      ⟨name, siteFile, siteLine, siteCol, siteCount, children⟩ with _ | _
    · rw [treeNode_eq, treeNode_eq]
      simp only [shows_search_iff query, hhidden, true_and]
      split_ifs with hshows hopen
      · rw [List.filter_cons_of_pos (by simp [hhidden]),
          treeNodes_search children name nodeKey (depth + 1) 0]
      · rw [List.filter_cons_of_pos (by simp [hhidden]), List.filter_nil]
      · rfl
    · -- the node is left out, and so is all below it
      rw [List.filter_eq_nil_iff.mpr fun row hrow => by
        simp [treeNode_hidden query _ _ _ _ hhidden row hrow], treeNode_eq, if_neg]
      intro hshows
      rw [shows_search_iff, hhidden] at hshows
      exact absurd hshows.1 (by simp)

theorem treeNodes_search (children : List AnnotatedNode) (name key : String) (depth i : ℕ) :
    treeNodes toLowerCase { view with searchQuery := query } name key depth i children =
      (treeNodes toLowerCase { view with searchQuery := "" } name key depth i children).filter
        (fun row => !isHidden toLowerCase query row.node) := by
  match children with
  | [] => rw [treeNodes, treeNodes, List.filter_nil]
  | child :: children =>
    rw [treeNodes, treeNodes, List.filter_append, treeNode_search child,
      treeNodes_search children name key depth (i + 1)]

end

end Search

/-- **A search picks rows**: of those that are shown without it, in the same order, the ones
that have what is searched for in their name or in that of a node below them, open or not. -/
theorem callTree_search (toLowerCase : String → String) (view : TreeView) (query : String)
    (roots : List AnnotatedNode) :
    callTree toLowerCase { view with searchQuery := query } roots =
      (callTree toLowerCase { view with searchQuery := "" } roots).filter
        fun row => decide (row.Found toLowerCase query) := by
  rw [callTree, callTree, List.filter_flatMap]
  refine List.flatMap_congr fun root _ => ?_
  rw [treeNode_search query root 0 root.name none]
  refine List.filter_congr fun row _ => ?_
  rw [← Bool.coe_iff_coe, Bool.not_eq_true', decide_eq_true_iff]
  exact isHidden_iff query row

/-! ### The path to a row -/

/-- **A row is displayed**, going down from another: all nodes on the way are shown, and those
above it are open. -/
def TreeRow.Displayed (toLowerCase : String → String) (view : TreeView) : TreeRow → List ℕ → Prop
  | row, [] => view.Shows toLowerCase row.node
  | row, i :: is => view.Shows toLowerCase row.node ∧
      view.isExpanded row.nodeKey row.depth = true ∧
        ∃ row', row.child i = some row' ∧ row'.Displayed toLowerCase view is

/-- The rows of the children are the rows of each. -/
theorem mem_treeNodes_iff {row : TreeRow} (children : List AnnotatedNode) (name key : String)
    (depth i : ℕ) :
    row ∈ treeNodes toLowerCase view name key depth i children ↔
      ∃ j child, children[j]? = some child ∧
        row ∈ treeNode toLowerCase view child depth (childKey key child.name (i + j))
          (some name) := by
  induction children generalizing i with
  | nil =>
    rw [treeNodes]
    simp
  | cons first children ih =>
    rw [treeNodes, List.mem_append, ih]
    constructor
    · rintro (hrow | ⟨j, child, hchild, hrow⟩)
      · exact ⟨0, first, rfl, hrow⟩
      · refine ⟨j + 1, child, hchild, ?_⟩
        rwa [← Nat.add_assoc, Nat.add_right_comm]
    · rintro ⟨_ | j, child, hchild, hrow⟩
      · obtain rfl : first = child := by simpa using hchild
        exact Or.inl hrow
      · refine Or.inr ⟨j, child, by simpa using hchild, ?_⟩
        rwa [Nat.add_right_comm, Nat.add_assoc]

/-- **The rows of a node** are those that are displayed, going down from it. -/
theorem mem_treeNode_iff (row row' : TreeRow) :
    row' ∈ treeNode toLowerCase view row.node row.depth row.nodeKey row.callerName ↔
      ∃ is, row.below is = some row' ∧ row.Displayed toLowerCase view is := by
  rw [treeNode_eq]
  constructor
  · intro hrow
    -- shown and open, shown and shut, or not shown
    split_ifs at hrow with hshows hopen
    · rcases List.mem_cons.mp hrow with rfl | hrow
      · exact ⟨[], rfl, hshows⟩
      · obtain ⟨i, child, hchild, hrow⟩ := (mem_treeNodes_iff _ _ _ _ _).mp hrow
        rw [Nat.zero_add] at hrow
        have hbelow : row.child i = some ⟨child, row.depth + 1,
            childKey row.nodeKey child.name i, some row.node.name⟩ := by
          rw [TreeRow.child, hchild]
          rfl
        have hsmaller := sizeOf_child hbelow
        obtain ⟨is, his, hdisplayed⟩ := (mem_treeNode_iff ⟨child, row.depth + 1,
          childKey row.nodeKey child.name i, some row.node.name⟩ row').mp hrow
        exact ⟨i :: is, by rw [TreeRow.below, hbelow]; exact his,
          hshows, hopen, _, hbelow, hdisplayed⟩
    · obtain rfl := List.mem_singleton.mp hrow
      exact ⟨[], rfl, hshows⟩
    · exact absurd hrow List.not_mem_nil
  · rintro ⟨_ | ⟨i, is⟩, hbelow, hdisplayed⟩
    · obtain rfl : row = row' := Option.some.inj hbelow
      have hshows : view.Shows toLowerCase row.node := hdisplayed
      rw [if_pos hshows]
      exact List.mem_cons_self
    · obtain ⟨hshows, hopen, c, hchild, hdisplayed⟩ := hdisplayed
      have hsmaller := sizeOf_child hchild
      have hrow := (mem_treeNode_iff c row').mpr ⟨is, by simpa [TreeRow.below, hchild] using hbelow,
        hdisplayed⟩
      obtain ⟨child, hget, rfl⟩ := Option.map_eq_some_iff.mp hchild
      rw [if_pos hshows, if_pos hopen]
      refine List.mem_cons_of_mem _ ((mem_treeNodes_iff _ _ _ _ _).mpr ⟨i, child, hget, ?_⟩)
      rwa [Nat.zero_add]
termination_by sizeOf row.node

/-- **The rows of the call trees** are those that are displayed, going down from a root. -/
theorem mem_callTree_iff {roots : List AnnotatedNode} {row : TreeRow} :
    row ∈ callTree toLowerCase view roots ↔ ∃ place root, roots[place.1]? = some root ∧
      rowAt roots place = some row ∧
        (rootRow root).Displayed toLowerCase view (place : TreePlace).2 := by
  rw [callTree, List.mem_flatMap]
  constructor
  · rintro ⟨root, hroot, hrow⟩
    obtain ⟨n, hn⟩ := List.getElem?_of_mem hroot
    obtain ⟨is, his, hdisplayed⟩ := (mem_treeNode_iff (rootRow root) row).mp hrow
    exact ⟨(n, is), root, hn, by simpa [rowAt, hn] using his, hdisplayed⟩
  · rintro ⟨place, root, hroot, hrow, hdisplayed⟩
    refine ⟨root, List.mem_of_getElem? hroot, (mem_treeNode_iff (rootRow root) row).mpr ?_⟩
    exact ⟨place.2, by simpa [rowAt, hroot] using hrow, hdisplayed⟩

/-! ### The row of a link -/

/-- What all rows on the way have to be. -/
theorem displayed_iff {row row' : TreeRow} {is : List ℕ} (h : row.below is = some row') :
    row.Displayed toLowerCase view is ↔
      (∀ n, ∀ above, row.below (is.take n) = some above → view.Shows toLowerCase above.node) ∧
        ∀ n < is.length, ∀ above, row.below (is.take n) = some above →
          view.isExpanded above.nodeKey above.depth = true := by
  induction is generalizing row with
  | nil => simp [TreeRow.Displayed, TreeRow.below]
  | cons i is ih =>
    obtain ⟨c, hchild, hbelow⟩ := TreeRow.exists_child h
    -- the rows on the way are the row itself and those on the way from its child
    have htake : ∀ n, row.below ((i :: is).take (n + 1)) = c.below (is.take n) := fun n => by
      simp [TreeRow.below, hchild]
    simp only [TreeRow.Displayed, hchild, Option.some.injEq, exists_eq_left', ih hbelow]
    constructor
    · rintro ⟨hshows, hopen, hall, habove⟩
      refine ⟨fun n above => ?_, fun n hn above => ?_⟩
      · rcases n with _ | n
        · rintro hrow
          obtain rfl : row = above := Option.some.inj hrow
          exact hshows
        · rw [htake]
          exact hall n above
      · rcases n with _ | n
        · rintro hrow
          obtain rfl : row = above := Option.some.inj hrow
          exact hopen
        · rw [htake]
          exact habove n (by simpa using hn) above
    · rintro ⟨hshows, hopen⟩
      refine ⟨hshows 0 row rfl, hopen 0 (Nat.zero_lt_succ _) row rfl, fun n above hn => ?_,
        fun n hn above habove => ?_⟩
      · exact hshows (n + 1) above ((htake n).trans hn)
      · exact hopen (n + 1) (Nat.succ_lt_succ hn) above ((htake n).trans habove)

/-- **What is above a node that leads to a match leads to one.** -/
theorem TreeRow.Found.above {query : String} {row row' : TreeRow} {is : List ℕ}
    (h : row'.Found toLowerCase query) (hbelow : row.below is = some row') :
    row.Found toLowerCase query := by
  refine h.imp id ?_
  rintro ⟨js, row'', hmatch, hname⟩
  exact ⟨is ++ js, row'', by rw [TreeRow.below_append, hbelow]; exact hmatch, hname⟩

variable {roots : List AnnotatedNode} {place : TreePlace} {row : TreeRow}

/-- The nodes above the node of a link are open, but for a root that stays shut. -/
theorem opened_iff (h : Linkable roots) (hrow : rowAt roots place = some row) (st : TreeState)
    (autoExpandDepth : ℕ) :
    (∀ n < place.2.length, ∀ above, rowAt roots (place.1, place.2.take n) = some above →
      (st.expandPath row.nodeKey).isExpanded autoExpandDepth above.nodeKey above.depth = true) ↔
        ¬ ShutRoot roots st place := by
  constructor
  · rintro hopened ⟨hne, hname, hshut⟩
    obtain ⟨root, hroot, hproto⟩ := Option.map_eq_some_iff.mp hname
    have hopen := hopened 0 (List.length_pos_iff.mpr hne) (rootRow root)
      (by simp [rowAt, hroot, TreeRow.below])
    rw [rootRow, hproto, TreeState.isExpanded_expandPath_proto] at hopen
    exact hopen hshut
  · intro hshut n hn above habove
    obtain ⟨hpath, hname⟩ := above_spec h hrow habove
    by_cases hproto : above.nodeKey = "__proto__"
    · rw [hproto, TreeState.isExpanded_expandPath_proto]
      exact fun hclosed => hshut ⟨List.ne_nil_of_length_pos (by omega), hname hproto, hclosed⟩
    · exact TreeState.isExpanded_expandPath hpath hproto _ _

mutual

/-- `countNodes`. -/
def countNodes : AnnotatedNode → ℕ
  | ⟨_, _, _, _, _, children⟩ => countAll children + 1

/-- The loop over the children. -/
def countAll : List AnnotatedNode → ℕ
  | [] => 0
  | child :: children => countNodes child + countAll children

end

mutual

/-- `maxDepth`. -/
def maxDepth (depth : ℕ) : AnnotatedNode → ℕ
  | ⟨_, _, _, _, _, children⟩ => maxDepths (depth + 1) depth children

/-- The loop over the children: the greatest depth so far, and theirs. -/
def maxDepths (depth max : ℕ) : List AnnotatedNode → ℕ
  | [] => max
  | child :: children =>
    let d := maxDepth depth child
    maxDepths depth (if d > max then d else max) children

end

/-- `treeNodes` of `Summary`. -/
def summaryNodes (roots : List AnnotatedNode) : ℕ :=
  roots.foldl (fun sum root => sum + countNodes root) 0

/-- `depth` of `Summary`. -/
def summaryDepth (roots : List AnnotatedNode) : ℕ :=
  (roots.map (maxDepth 0)).foldl max 0

/-- A view that leaves nothing out. -/
structure TreeView.Full (view : TreeView) : Prop where
  /-- All nodes are open. -/
  isOpen : ∀ key depth, view.isExpanded key depth = true
  /-- Nothing is searched for. -/
  noSearch : view.searchQuery = ""
  /-- Intrinsics are shown. -/
  noHiding : view.hideIntrinsics = false

theorem TreeView.Full.shows (h : view.Full) (node : AnnotatedNode) :
    view.Shows toLowerCase node := by
  simp [TreeView.Shows, isHidden, h.noSearch, h.noHiding]

section Full

variable (toLowerCase)

mutual

theorem length_treeNode (h : view.Full) (node : AnnotatedNode) (depth : ℕ) (nodeKey : String)
    (callerName : Option String) :
    (treeNode toLowerCase view node depth nodeKey callerName).length = countNodes node := by
  match node with
  | ⟨name, siteFile, siteLine, siteCol, siteCount, children⟩ =>
    rw [treeNode_eq, if_pos (h.shows _), if_pos (h.isOpen _ _), List.length_cons, countNodes,
      length_treeNodes h children]

theorem length_treeNodes (h : view.Full) (children : List AnnotatedNode) (name key : String)
    (depth i : ℕ) :
    (treeNodes toLowerCase view name key depth i children).length = countAll children := by
  match children with
  | [] =>
    rw [treeNodes, countAll]
    rfl
  | child :: children =>
    rw [treeNodes, countAll, List.length_append, length_treeNode h child,
      length_treeNodes h children]

end

mutual

/-- The greatest depth below a node is that of one of its rows. -/
theorem depth_treeNode (h : view.Full) (node : AnnotatedNode) (depth : ℕ) (nodeKey : String)
    (callerName : Option String) :
    (∀ row ∈ treeNode toLowerCase view node depth nodeKey callerName,
        row.depth ≤ maxDepth depth node) ∧
      ∃ row ∈ treeNode toLowerCase view node depth nodeKey callerName,
        row.depth = maxDepth depth node := by
  match node with
  | ⟨name, siteFile, siteLine, siteCol, siteCount, children⟩ =>
    obtain ⟨hle, hrows, hmax⟩ := depth_treeNodes h children name nodeKey (depth + 1) 0 depth
    rw [treeNode_eq, if_pos (h.shows _), if_pos (h.isOpen _ _), maxDepth]
    refine ⟨fun row hrow => ?_, ?_⟩
    · rcases List.mem_cons.mp hrow with rfl | hrow
      · exact hle
      · exact hrows row hrow
    · rcases hmax with hmax | ⟨row, hrow, hmax⟩
      · exact ⟨_, List.mem_cons_self, hmax.symm⟩
      · exact ⟨row, List.mem_cons_of_mem _ hrow, hmax⟩

theorem depth_treeNodes (h : view.Full) (children : List AnnotatedNode) (name key : String)
    (depth i max : ℕ) :
    max ≤ maxDepths depth max children ∧
      (∀ row ∈ treeNodes toLowerCase view name key depth i children,
        row.depth ≤ maxDepths depth max children) ∧
      (maxDepths depth max children = max ∨
        ∃ row ∈ treeNodes toLowerCase view name key depth i children,
          row.depth = maxDepths depth max children) := by
  match children with
  | [] =>
    rw [treeNodes, maxDepths]
    exact ⟨le_rfl, fun row hrow => absurd hrow List.not_mem_nil, Or.inl rfl⟩
  | child :: children =>
    obtain ⟨hchild, first, hfirst, hdepth⟩ :=
      depth_treeNode h child depth (childKey key child.name i) (some name)
    obtain ⟨hle, hrows, hmax⟩ := depth_treeNodes h children name key depth (i + 1)
      (if maxDepth depth child > max then maxDepth depth child else max)
    rw [treeNodes, maxDepths]
    -- the greatest depth so far is at least that of the first child
    have hmem : max ≤ (if maxDepth depth child > max then maxDepth depth child else max) ∧
        maxDepth depth child ≤
          (if maxDepth depth child > max then maxDepth depth child else max) := by
      split_ifs with hgt
      · omega
      · omega
    refine ⟨hmem.1.trans hle, fun row hrow => ?_, ?_⟩
    · rcases List.mem_append.mp hrow with hrow | hrow
      · exact ((hchild row hrow).trans hmem.2).trans hle
      · exact hrows row hrow
    · rcases hmax with hmax | ⟨row, hrow, hmax⟩
      · by_cases hgt : maxDepth depth child > max
        · refine Or.inr ⟨first, List.mem_append_left _ hfirst, ?_⟩
          rw [if_pos hgt] at hmax ⊢
          rw [hmax, hdepth]
        · refine Or.inl ?_
          rw [if_neg hgt] at hmax ⊢
          exact hmax
      · exact Or.inr ⟨row, List.mem_append_right _ hrow, hmax⟩

end

/-- There are as many rows as nodes. -/
theorem length_callTree (h : view.Full) (roots : List AnnotatedNode) :
    (callTree toLowerCase view roots).length = summaryNodes roots := by
  have hsum : ∀ (roots : List AnnotatedNode) (sum : ℕ),
      roots.foldl (fun sum root => sum + countNodes root) sum =
        sum + (callTree toLowerCase view roots).length := by
    intro roots
    induction roots with
    | nil => exact fun sum => rfl
    | cons root roots ih =>
      intro sum
      have hcons : callTree toLowerCase view (root :: roots) =
          treeNode toLowerCase view root 0 root.name none ++ callTree toLowerCase view roots :=
        List.flatMap_cons
      rw [List.foldl_cons, ih, hcons, List.length_append, length_treeNode toLowerCase h,
        Nat.add_assoc]
  rw [summaryNodes, hsum, Nat.zero_add]

/-- The deepest row is as deep as the summary says. -/
theorem depth_callTree (h : view.Full) (roots : List AnnotatedNode) :
    (∀ row ∈ callTree toLowerCase view roots, row.depth ≤ summaryDepth roots) ∧
      (callTree toLowerCase view roots ≠ [] →
        ∃ row ∈ callTree toLowerCase view roots, row.depth = summaryDepth roots) := by
  have hroot := fun root : AnnotatedNode => depth_treeNode toLowerCase h root 0 root.name none
  -- the fold is a maximum: an upper bound that is one of the depths, or zero
  have hfold : ∀ (ds : List ℕ) (d : ℕ), d ≤ ds.foldl max d ∧ (∀ e ∈ ds, e ≤ ds.foldl max d) ∧
      (ds.foldl max d = d ∨ ds.foldl max d ∈ ds) := by
    intro ds
    induction ds with
    | nil => exact fun d => ⟨le_rfl, fun e he => absurd he List.not_mem_nil, Or.inl rfl⟩
    | cons e ds ih =>
      intro d
      obtain ⟨hle, hall, hmax⟩ := ih (max d e)
      rw [List.foldl_cons]
      refine ⟨(le_max_left d e).trans hle, fun e' he' => ?_, ?_⟩
      · rcases List.mem_cons.mp he' with rfl | he'
        · exact (le_max_right d e').trans hle
        · exact hall e' he'
      · rcases hmax with hmax | hmax
        · rcases max_choice d e with hd | he
          · exact Or.inl (hmax.trans hd)
          · exact Or.inr (List.mem_cons.mpr (Or.inl (hmax.trans he)))
        · exact Or.inr (List.mem_cons_of_mem _ hmax)
  obtain ⟨-, hall, hmax⟩ := hfold (roots.map (maxDepth 0)) 0
  refine ⟨fun row hrow => ?_, fun hne => ?_⟩
  · obtain ⟨root, hmem, hrow⟩ := List.mem_flatMap.mp hrow
    exact ((hroot root).1 row hrow).trans (hall _ (List.mem_map.mpr ⟨root, hmem, rfl⟩))
  · rcases hmax with hzero | hmem
    · -- no row is deeper than the roots
      obtain ⟨row, hrow⟩ := List.exists_mem_of_ne_nil _ hne
      obtain ⟨root, hmem, hrow⟩ := List.mem_flatMap.mp hrow
      have hle := ((hroot root).1 row hrow).trans (hall _ (List.mem_map.mpr ⟨root, hmem, rfl⟩))
      refine ⟨row, List.mem_flatMap.mpr ⟨root, hmem, hrow⟩, ?_⟩
      rw [summaryDepth]
      omega
    · obtain ⟨root, hroots, hdepth⟩ := List.mem_map.mp hmem
      obtain ⟨row, hrow, hrowDepth⟩ := (hroot root).2
      exact ⟨row, List.mem_flatMap.mpr ⟨root, hroots, hrow⟩, hrowDepth.trans hdepth⟩

end Full

/-- **After "expand all" every node is open**, also where its key is a name that every object
has. -/
theorem full_expandAll (calls : List TreeCall) (autoExpandDepth : ℕ) :
    ({ isExpanded := (treeAfter (calls ++ [.expandAll])).isExpanded autoExpandDepth
       hideIntrinsics := false } : TreeView).Full where
  isOpen key depth := by
    have hst : treeAfter (calls ++ [.expandAll]) = TreeState.expandAll (treeAfter calls) := by
      rw [treeAfter, Machine.run_concat]
      rfl
    simp only [hst, TreeState.expandAll, TreeState.isExpanded]
    split_ifs with hhas
    · have hproto : key ∈ objectPrototype := by simpa using hhas
      simp [PlainObject.get, PlainObject.empty, hproto, Property.truthy]
    · rfl
  noSearch := rfl
  noHiding := rfl

/-- **The numbers of the summary are those of the rows**: after any calls and then "expand all",
with intrinsics shown and nothing searched for, there are as many rows as the summary counts
nodes, and the deepest row is as deep as it says. -/
theorem summary_expandAll (toLowerCase : String → String) (calls : List TreeCall)
    (autoExpandDepth : ℕ) (roots : List AnnotatedNode) :
    let rows := callTree toLowerCase
      { isExpanded := (treeAfter (calls ++ [.expandAll])).isExpanded autoExpandDepth
        hideIntrinsics := false } roots
    rows.length = summaryNodes roots ∧ (∀ row ∈ rows, row.depth ≤ summaryDepth roots) ∧
      (rows ≠ [] → ∃ row ∈ rows, row.depth = summaryDepth roots) := by
  have hfull := full_expandAll calls autoExpandDepth
  exact ⟨length_callTree toLowerCase hfull roots, depth_callTree toLowerCase hfull roots⟩

end Apatchy
