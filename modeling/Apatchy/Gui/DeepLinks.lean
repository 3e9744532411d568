import Apatchy.Gui.TreeState
import Apatchy.Report.SiteCounts

/-!
# Deep links

The viewer names a node of the call trees by a key: the name of the root, and for each
step down the name and the index of the child. The key of the selected node is put into
the address, and from there the selection is restored: the node is looked for by its key
(`Apatchy.findNodeByKey`), and the nodes above it are opened.

Names have no slash, so the parts of a key between slashes are the steps
(`Apatchy.keyParts_childKey`), and since an index has no hyphen, a step says which child
it goes to (`Apatchy.index_eq_of_stepName_eq`). So keys tell all nodes apart, and what is
found is the node that the link was made for (`Apatchy.findNodeByKey_rowAt`).

The nodes above it are opened by setting their keys in a plain object, which works for
every key but `__proto__`. So a root of that name that was closed stays closed, and that
is the only case in which a link is not restored (`Apatchy.deepLink_restored_iff`).
-/

namespace Apatchy

/-! ### The rows of the tree view -/

/-- A node as the tree view shows it. -/
structure TreeRow where
  /-- The node. -/
  node : AnnotatedNode
  /-- How far it is indented. -/
  depth : ℕ
  /-- Its key. -/
  nodeKey : String
  /-- The name of its parent. -/
  callerName : Option String

/-- The step from a node to a child, in a key. -/
def stepName (name : String) (i : ℕ) : String := name ++ "-" ++ toString i

/-- The key of a child. -/
def childKey (key name : String) (i : ℕ) : String := key ++ "/" ++ stepName name i

/-- The row of a root. -/
def rootRow (root : AnnotatedNode) : TreeRow := ⟨root, 0, root.name, none⟩

namespace TreeRow

/-- The row of a child. -/
def child (row : TreeRow) (i : ℕ) : Option TreeRow :=
  row.node.children[i]?.map fun child =>
    { node := child
      depth := row.depth + 1
      nodeKey := childKey row.nodeKey child.name i
      callerName := some row.node.name }

/-- The row that is reached by going down to a child again and again. -/
def below : TreeRow → List ℕ → Option TreeRow
  | row, [] => some row
  | row, i :: is => (row.child i).bind fun row' => row'.below is

end TreeRow

/-- **A place in the call trees**: which root, and which child at each step down. -/
abbrev TreePlace := ℕ × List ℕ

/-- The row of a place. -/
def rowAt (roots : List AnnotatedNode) (place : TreePlace) : Option TreeRow :=
  roots[place.1]?.bind fun root => (rootRow root).below place.2

/-- The name of the node above a place. -/
def parentName (roots : List AnnotatedNode) (place : TreePlace) : Option String :=
  if place.2 = [] then none
  else (rowAt roots (place.1, place.2.dropLast)).map fun row => row.node.name

/-! ### Finding a node -/

section Walk

variable (targetKey : String)

mutual

/-- `walk`, from a node with a key and a parent. -/
def walk (node : AnnotatedNode) (key : String) (parent : Option String) :
    Option (AnnotatedNode × Option String) :=
  match node with
  | ⟨name, siteFile, siteLine, siteCol, siteCount, children⟩ =>
    if key = targetKey then some (⟨name, siteFile, siteLine, siteCol, siteCount, children⟩, parent)
    else walkChildren key name 0 children

/-- The loop over the children of a node, from the `i`-th on. -/
def walkChildren (key name : String) (i : ℕ) (children : List AnnotatedNode) :
    Option (AnnotatedNode × Option String) :=
  match children with
  | [] => none
  | child :: children =>
    match walk child (childKey key child.name i) (some name) with
    | some result => some result
    | none => walkChildren key name (i + 1) children

end

end Walk

/-- **`findNodeByKey`.** -/
def findNodeByKey (roots : List AnnotatedNode) (targetKey : String) :
    Option (AnnotatedNode × Option String) :=
  roots.findSome? fun root => walk targetKey root root.name none

/-! ### The parts of keys -/

/-- The parts of a key between slashes. -/
def keyParts (key : String) : List (List Char) := key.toList.splitOn '/'

theorem keyParts_of_not_mem {name : String} (h : '/' ∉ name.toList) :
    keyParts name = [name.toList] :=
  List.splitOn_eq_singleton h

/-- A character that is not a digit is not in the digits of a number. -/
theorem not_mem_digits {c : Char} (hc : c.isDigit = false) (i : ℕ) :
    c ∉ (toString i).toList := by
  intro hmem
  have hdigits : c ∈ Nat.toDigits 10 i := by rwa [← Nat.toList_repr]
  have hdigit := Nat.isDigit_of_mem_toDigits (by decide) (by decide) hdigits
  exact absurd hdigit (by simp [hc])

/-- What stands after the last of some characters. -/
theorem eq_of_append_cons_eq {α : Type*} {x : α} {as bs as' bs' : List α}
    (h : as ++ x :: bs = as' ++ x :: bs') (hx : x ∉ bs) (hx' : x ∉ bs') : bs = bs' := by
  rcases List.append_eq_append_iff.mp h with ⟨cs, -, hcs⟩ | ⟨cs, -, hcs⟩
  · rcases cs with _ | ⟨c, cs⟩
    · exact (List.cons.inj hcs).2
    · obtain ⟨-, rfl⟩ := List.cons.inj hcs
      exact absurd (List.mem_append_right _ (List.mem_cons_self ..)) hx
  · rcases cs with _ | ⟨c, cs⟩
    · exact (List.cons.inj hcs).2.symm
    · obtain ⟨-, rfl⟩ := List.cons.inj hcs
      exact absurd (List.mem_append_right _ (List.mem_cons_self ..)) hx'

/-- **A step says which child it goes to**, whatever the names. -/
theorem index_eq_of_stepName_eq {name name' : String} {i j : ℕ}
    (h : stepName name i = stepName name' j) : i = j := by
  have hchars := congrArg String.toList h
  simp only [stepName, String.toList_append, List.append_assoc] at hchars
  have hlast : (toString i).toList = (toString j).toList :=
    eq_of_append_cons_eq hchars (not_mem_digits (by decide) i) (not_mem_digits (by decide) j)
  have hdigits : Nat.toDigits 10 i = Nat.toDigits 10 j := by
    rwa [← Nat.toList_repr, ← Nat.toList_repr]
  calc
    i = Nat.ofDigitChars 10 (Nat.toDigits 10 i) 0 := Nat.ofDigitChars_ten_toDigits.symm
    _ = j := by rw [hdigits, Nat.ofDigitChars_ten_toDigits]

/-- **The parts of the key of a child** are those of its parent's key, and the step. -/
theorem keyParts_childKey {name : String} (h : '/' ∉ name.toList) (key : String) (i : ℕ) :
    keyParts (childKey key name i) = keyParts key ++ [(stepName name i).toList] := by
  have hstep : '/' ∉ (stepName name i).toList := by
    simp only [stepName, String.toList_append, List.mem_append, not_or]
    exact ⟨⟨h, by decide⟩, not_mem_digits (by decide) i⟩
  have hchars : (childKey key name i).toList =
      key.toList ++ '/' :: (stepName name i).toList := by simp [childKey]
  rw [keyParts, hchars, List.splitOn_append_cons_self, List.splitOn_eq_singleton hstep]
  rfl

/-! ### The keys of rows -/

namespace TreeRow

variable {row row' row₁ row₂ : TreeRow} {i j : ℕ} {is js : List ℕ}

/-- No name below a row has a slash. -/
def SlashFree (row : TreeRow) : Prop :=
  ∀ is row', row.below is = some row' → '/' ∉ row'.node.name.toList

theorem below_append (row : TreeRow) (is js : List ℕ) :
    row.below (is ++ js) = (row.below is).bind fun row' => row'.below js := by
  induction is generalizing row with
  | nil => rfl
  | cons i is ih =>
    rcases hchild : row.child i with _ | c
    · simp [below, hchild]
    · simp [below, hchild, ih]

theorem exists_child (h : row.below (i :: is) = some row') :
    ∃ c, row.child i = some c ∧ c.below is = some row' :=
  Option.bind_eq_some_iff.mp h

theorem SlashFree.child (hrow : row.SlashFree) (h : row.child i = some row') :
    row'.SlashFree := by
  intro is row'' hbelow
  exact hrow (i :: is) row'' (by simp [below, h, hbelow])

theorem keyParts_child (hrow : row.SlashFree) (h : row.child i = some row') :
    ∃ name, keyParts row'.nodeKey = keyParts row.nodeKey ++ [(stepName name i).toList] := by
  have hname : '/' ∉ row'.node.name.toList := hrow.child h [] row' rfl
  obtain ⟨child, -, rfl⟩ := Option.map_eq_some_iff.mp h
  exact ⟨child.name, keyParts_childKey hname row.nodeKey i⟩

/-- **The key of a row starts with the keys of the rows above**: its parts are their parts
and one more for each step. -/
theorem keyParts_below (hrow : row.SlashFree) (h : row.below is = some row') :
    keyParts row.nodeKey <+: keyParts row'.nodeKey ∧
      (keyParts row'.nodeKey).length = (keyParts row.nodeKey).length + is.length := by
  induction is generalizing row with
  | nil =>
    obtain rfl : row = row' := Option.some.inj h
    exact ⟨List.prefix_refl _, rfl⟩
  | cons i is ih =>
    obtain ⟨c, hchild, hbelow⟩ := exists_child h
    obtain ⟨name, hparts⟩ := keyParts_child hrow hchild
    obtain ⟨hbegins, hlength⟩ := ih (hrow.child hchild) hbelow
    constructor
    · exact (hparts ▸ List.prefix_append _ _).trans hbegins
    · rw [hlength, hparts, List.length_append, List.length_singleton, List.length_cons]
      omega

/-- **Two rows below one row that have the same key** are reached by the same steps. -/
theorem steps_eq_of_nodeKey_eq (hrow : row.SlashFree) (h₁ : row.below is = some row₁)
    (h₂ : row.below js = some row₂) (hkey : row₁.nodeKey = row₂.nodeKey) : is = js := by
  induction is generalizing row js with
  | nil =>
    have hlength := (keyParts_below hrow h₁).2.symm.trans
      (hkey ▸ (keyParts_below hrow h₂).2)
    exact (List.eq_nil_of_length_eq_zero (by simpa using hlength.symm)).symm
  | cons i is ih =>
    rcases js with _ | ⟨j, js⟩
    · have hlength := (keyParts_below hrow h₁).2.symm.trans
        (hkey ▸ (keyParts_below hrow h₂).2)
      simp at hlength
    · obtain ⟨c₁, hchild₁, hbelow₁⟩ := exists_child h₁
      obtain ⟨c₂, hchild₂, hbelow₂⟩ := exists_child h₂
      obtain ⟨name₁, hparts₁⟩ := keyParts_child hrow hchild₁
      obtain ⟨name₂, hparts₂⟩ := keyParts_child hrow hchild₂
      -- Both keys start with the parts of the two children, which are equally many.
      have hbegins₁ := (keyParts_below (hrow.child hchild₁) hbelow₁).1
      have hbegins₂ := (keyParts_below (hrow.child hchild₂) hbelow₂).1
      rw [hparts₁] at hbegins₁
      rw [hparts₂, ← hkey] at hbegins₂
      have hlength : (keyParts row.nodeKey ++ [(stepName name₁ i).toList]).length =
          (keyParts row.nodeKey ++ [(stepName name₂ j).toList]).length := by simp
      have hparts := (List.prefix_of_prefix_length_le hbegins₁ hbegins₂ hlength.le).eq_of_length
        hlength
      have hsteps : (stepName name₁ i).toList = (stepName name₂ j).toList := by
        simpa using hparts
      obtain rfl := index_eq_of_stepName_eq (String.toList_injective hsteps)
      obtain rfl : c₁ = c₂ := Option.some.inj (hchild₁.symm.trans hchild₂)
      rw [ih (hrow.child hchild₁) hbelow₁ hbelow₂]

end TreeRow

/-! ### What the walk finds -/

section Walk

variable {targetKey : String}

theorem walk_eq (node : AnnotatedNode) (key : String) (parent : Option String) :
    walk targetKey node key parent =
      if key = targetKey then some (node, parent)
      else walkChildren targetKey key node.name 0 node.children := by
  cases node
  rw [walk]

mutual

/-- **What a walk finds** is a row below, with the key. -/
theorem below_of_walk_eq_some (node : AnnotatedNode) (depth : ℕ) (key : String)
    (parent : Option String) {result : AnnotatedNode × Option String}
    (h : walk targetKey node key parent = some result) :
    ∃ is row, TreeRow.below ⟨node, depth, key, parent⟩ is = some row ∧
      row.nodeKey = targetKey ∧ (row.node, row.callerName) = result := by
  match node with
  | ⟨name, siteFile, siteLine, siteCol, siteCount, children⟩ =>
    rw [walk] at h
    split_ifs at h with hkey
    · exact ⟨[], _, rfl, hkey, Option.some.inj h⟩
    · obtain ⟨i, is, child, hchild, row, hbelow, hrow⟩ :=
        below_of_walkChildren_eq_some children (depth + 1) key name 0 h
      rw [Nat.zero_add] at hbelow
      refine ⟨i :: is, row, ?_, hrow⟩
      rw [TreeRow.below, TreeRow.child, hchild]
      exact hbelow

theorem below_of_walkChildren_eq_some (children : List AnnotatedNode) (depth : ℕ)
    (key name : String) (i : ℕ) {result : AnnotatedNode × Option String}
    (h : walkChildren targetKey key name i children = some result) :
    ∃ j is child, children[j]? = some child ∧ ∃ row,
      TreeRow.below ⟨child, depth, childKey key child.name (i + j), some name⟩ is = some row ∧
        row.nodeKey = targetKey ∧ (row.node, row.callerName) = result := by
  match children with
  | [] => simp [walkChildren] at h
  | child :: children =>
    rw [walkChildren] at h
    rcases hfirst : walk targetKey child (childKey key child.name i) (some name) with _ | found
    · rw [hfirst] at h
      obtain ⟨j, is, child', hchild, row, hbelow, hrow⟩ :=
        below_of_walkChildren_eq_some children depth key name (i + 1) h
      rw [Nat.add_right_comm] at hbelow
      exact ⟨j + 1, is, child', hchild, row, hbelow, hrow⟩
    · rw [hfirst] at h
      obtain rfl : found = result := Option.some.inj h
      obtain ⟨is, row, hbelow, hrow⟩ := below_of_walk_eq_some child depth _ _ hfirst
      exact ⟨0, is, child, rfl, row, hbelow, hrow⟩

end

/-- The loop over the children finds what the walk from one of them finds. -/
theorem walkChildren_isSome {children : List AnnotatedNode} {j : ℕ} {child : AnnotatedNode}
    (hchild : children[j]? = some child) (key name : String) (i : ℕ)
    (h : (walk targetKey child (childKey key child.name (i + j)) (some name)).isSome) :
    (walkChildren targetKey key name i children).isSome := by
  induction children generalizing i j with
  | nil => simp at hchild
  | cons first children ih =>
    rw [walkChildren]
    rcases hfirst : walk targetKey first (childKey key first.name i) (some name) with _ | found
    · rcases j with _ | j
      · obtain rfl : first = child := by simpa using hchild
        rw [Nat.add_zero, hfirst] at h
        exact absurd h (by simp)
      · refine ih (by simpa using hchild) (i + 1) ?_
        rwa [Nat.add_right_comm, Nat.add_assoc]
    · rfl

/-- **A walk finds something**, if a row below has the key. -/
theorem walk_isSome {row row' : TreeRow} {is : List ℕ} (h : row.below is = some row')
    (hkey : row'.nodeKey = targetKey) :
    (walk targetKey row.node row.nodeKey row.callerName).isSome := by
  induction is generalizing row with
  | nil =>
    obtain rfl : row = row' := Option.some.inj h
    rw [walk_eq, if_pos hkey]
    rfl
  | cons i is ih =>
    obtain ⟨c, hchild, hbelow⟩ := TreeRow.exists_child h
    obtain ⟨child, hget, rfl⟩ := Option.map_eq_some_iff.mp hchild
    have hfound := ih hbelow
    rw [walk_eq]
    split_ifs
    · rfl
    · refine walkChildren_isSome hget _ _ 0 ?_
      rwa [Nat.zero_add]

end Walk

/-- **What is found for a key** is at a place with that key; and if there is such a place,
something is found. -/
theorem rowAt_of_findNodeByKey_eq_some {roots : List AnnotatedNode} {targetKey : String}
    {result : AnnotatedNode × Option String} (h : findNodeByKey roots targetKey = some result) :
    ∃ place row, rowAt roots place = some row ∧ row.nodeKey = targetKey ∧
      (row.node, row.callerName) = result := by
  obtain ⟨front, root, back, rfl, hwalk, -⟩ := List.findSome?_eq_some_iff.mp h
  obtain ⟨is, row, hbelow, hrow⟩ := below_of_walk_eq_some root 0 _ _ hwalk
  refine ⟨(front.length, is), row, ?_, hrow⟩
  simpa [rowAt, rootRow] using hbelow

theorem findNodeByKey_isSome {roots : List AnnotatedNode} {targetKey : String}
    {place : TreePlace} {row : TreeRow} (h : rowAt roots place = some row)
    (hkey : row.nodeKey = targetKey) : (findNodeByKey roots targetKey).isSome := by
  obtain ⟨root, hroot, hbelow⟩ := Option.bind_eq_some_iff.mp h
  have hfound := walk_isSome hbelow hkey
  rw [findNodeByKey, List.findSome?_isSome_iff]
  exact ⟨root, List.mem_of_getElem? hroot, hfound⟩

/-! ### Keys and places -/

/-- **Call trees that can be linked to**: the roots have different names, and no name has
a slash. -/
structure Linkable (roots : List AnnotatedNode) : Prop where
  /-- The names of the roots are different. -/
  nodup : (roots.map AnnotatedNode.name).Nodup
  /-- Names have no slash. -/
  slashFree : ∀ root ∈ roots, (rootRow root).SlashFree

variable {roots : List AnnotatedNode} {place place' : TreePlace} {row row' : TreeRow}

theorem keyParts_rootRow {root : AnnotatedNode} (h : (rootRow root).SlashFree) :
    keyParts (rootRow root).nodeKey = [root.name.toList] :=
  keyParts_of_not_mem (h [] _ rfl)

/-- **No two places have one key.** -/
theorem place_eq_of_nodeKey_eq (h : Linkable roots) (hrow : rowAt roots place = some row)
    (hrow' : rowAt roots place' = some row') (hkey : row.nodeKey = row'.nodeKey) :
    place = place' := by
  obtain ⟨root, hroot, hbelow⟩ := Option.bind_eq_some_iff.mp hrow
  obtain ⟨root', hroot', hbelow'⟩ := Option.bind_eq_some_iff.mp hrow'
  have hfree := h.slashFree root (List.mem_of_getElem? hroot)
  have hfree' := h.slashFree root' (List.mem_of_getElem? hroot')
  -- Both keys start with the names of their roots.
  have hbegins := (TreeRow.keyParts_below hfree hbelow).1
  have hbegins' := (TreeRow.keyParts_below hfree' hbelow').1
  rw [keyParts_rootRow hfree, hkey] at hbegins
  rw [keyParts_rootRow hfree'] at hbegins'
  have hnames : root.name = root'.name := by
    have hsingle := (List.prefix_of_prefix_length_le hbegins hbegins' le_rfl).eq_of_length rfl
    exact String.toList_injective (List.singleton_inj.mp hsingle)
  have hindex : place.1 = place'.1 := by
    have hget : (roots.map AnnotatedNode.name)[place.1]? = some root.name := by simp [hroot]
    have hget' : (roots.map AnnotatedNode.name)[place'.1]? = some root.name := by
      simp [hroot', hnames]
    obtain ⟨hlt, -⟩ := List.getElem?_eq_some_iff.mp hget
    exact (List.getElem?_inj hlt h.nodup).mp (hget.trans hget'.symm)
  obtain rfl : root = root' := Option.some.inj (hroot.symm.trans (hindex ▸ hroot'))
  exact Prod.ext hindex (TreeRow.steps_eq_of_nodeKey_eq hfree hbelow hbelow' hkey)

/-- **What is found for the key of a row** is its node, and the name of the parent. -/
theorem findNodeByKey_rowAt (h : Linkable roots) (hrow : rowAt roots place = some row) :
    findNodeByKey roots row.nodeKey = some (row.node, row.callerName) := by
  obtain ⟨result, hfound⟩ := Option.isSome_iff_exists.mp (findNodeByKey_isSome hrow rfl)
  obtain ⟨place', row', hrow', hkey, rfl⟩ := rowAt_of_findNodeByKey_eq_some hfound
  obtain rfl := place_eq_of_nodeKey_eq h hrow' hrow hkey
  obtain rfl : row' = row := Option.some.inj (hrow'.symm.trans hrow)
  exact hfound

/-- The row above a row. -/
theorem rowAt_dropLast (hrow : rowAt roots place = some row) (hne : place.2 ≠ []) :
    ∃ above i, rowAt roots (place.1, place.2.dropLast) = some above ∧
      above.child i = some row := by
  obtain ⟨root, hroot, hbelow⟩ := Option.bind_eq_some_iff.mp hrow
  rw [← List.dropLast_append_getLast hne, TreeRow.below_append] at hbelow
  obtain ⟨above, habove, hlast⟩ := Option.bind_eq_some_iff.mp hbelow
  obtain ⟨c, hchild, hc⟩ := TreeRow.exists_child hlast
  obtain rfl : c = row := Option.some.inj hc
  refine ⟨above, _, ?_, hchild⟩
  rw [rowAt, hroot]
  exact habove

/-- The name that a row has of its caller is that of the node above. -/
theorem callerName_eq (hrow : rowAt roots place = some row) :
    row.callerName = parentName roots place := by
  rw [parentName]
  split_ifs with hroot
  · obtain ⟨root, -, hbelow⟩ := Option.bind_eq_some_iff.mp hrow
    rw [hroot] at hbelow
    rw [← Option.some.inj hbelow]
    rfl
  · obtain ⟨above, i, habove, hchild⟩ := rowAt_dropLast hrow hroot
    obtain ⟨child, -, rfl⟩ := Option.map_eq_some_iff.mp hchild
    rw [habove]
    rfl

/-! ### Opening the nodes above -/

/-- The keys that `expandPath` sets are the parts of the key from the front, joined. -/
theorem mem_pathKeys_of_begins {key key' : String} (h : keyParts key <+: keyParts key') :
    key ∈ TreeState.pathKeys key' := by
  have hpos : 0 < (keyParts key).length :=
    List.length_pos_iff.mpr (List.splitOn_ne_nil _ _)
  have hle : (keyParts key).length ≤ (keyParts key').length := h.length_le
  refine List.mem_map.mpr ⟨(keyParts key).length - 1, List.mem_range.mpr ?_, ?_⟩
  · show (keyParts key).length - 1 < (keyParts key').length
    omega
  · show String.ofList (List.intercalate ['/']
      ((keyParts key').take ((keyParts key).length - 1 + 1))) = key
    rw [Nat.sub_add_cancel hpos, ← List.prefix_iff_eq_take.mp h, keyParts,
      List.intercalate_splitOn, String.ofList_toList]

namespace TreeState

variable {st : TreeState} {key nodeKey : String}

/-- **A key on the path is open** after `expandPath`, if it can be set in a plain object. -/
theorem isExpanded_expandPath (h : key ∈ pathKeys nodeKey) (hproto : key ≠ "__proto__")
    (autoExpandDepth depth : ℕ) :
    (st.expandPath nodeKey).isExpanded autoExpandDepth key depth = true := by
  have hset : PlainObject.empty.assignAll (pathKeys nodeKey) true key = some true := by
    rw [PlainObject.assignAll_apply, if_pos ⟨h, hproto⟩]
  have hget : (st.expanded.spread _).get key = .own true := PlainObject.get_spread_of_eq_some hset
  have hhas : (st.expandPath nodeKey).expanded.has key = true :=
    PlainObject.has_spread_of_eq_some hset
  rw [isExpanded, if_pos hhas, expandPath, hget]
  rfl

/-- A node called `__proto__` is closed exactly if it was closed by itself. -/
theorem isExpanded_expandPath_proto (autoExpandDepth depth : ℕ) :
    (st.expandPath nodeKey).isExpanded autoExpandDepth "__proto__" depth = true ↔
      st.expanded "__proto__" ≠ some false := by
  have hunset : PlainObject.empty.assignAll (pathKeys nodeKey) true "__proto__" = none := by
    simp [PlainObject.assignAll_apply, PlainObject.empty]
  have hhas : (st.expandPath nodeKey).expanded.has "__proto__" = true := by
    simp [PlainObject.has, objectPrototype]
  rw [isExpanded, if_pos hhas, expandPath, PlainObject.get_spread_of_eq_none hunset]
  rcases hold : st.expanded "__proto__" with _ | value
  · simp [PlainObject.get, hold, objectPrototype, Property.truthy]
  · simp [PlainObject.get, hold, Property.truthy]

end TreeState

/-! ### Restoring a link -/

/-- **A link is restored**: its key leads to the node it was made for and to no other, the
parent's name is right, and all nodes above are open. -/
structure Restored (autoExpandDepth : ℕ) (roots : List AnnotatedNode) (st : TreeState)
    (place : TreePlace) (row : TreeRow) : Prop where
  /-- The node is found, and its parent's name. -/
  found : findNodeByKey roots row.nodeKey = some (row.node, parentName roots place)
  /-- The key is that of no other place. -/
  unique : ∀ place' row', rowAt roots place' = some row' → row'.nodeKey = row.nodeKey →
    place' = place
  /-- The nodes above are open. -/
  opened : ∀ n < place.2.length, ∀ above, rowAt roots (place.1, place.2.take n) = some above →
    (st.expandPath row.nodeKey).isExpanded autoExpandDepth above.nodeKey above.depth = true

/-- The root above a place is called `__proto__`, and was closed by itself. -/
def ShutRoot (roots : List AnnotatedNode) (st : TreeState) (place : TreePlace) : Prop :=
  place.2 ≠ [] ∧ roots[place.1]?.map AnnotatedNode.name = some "__proto__" ∧
    st.expanded "__proto__" = some false

/-- A row above another: its key is on the path, and only a root is called `__proto__`. -/
theorem above_spec (h : Linkable roots) (hrow : rowAt roots place = some row) {n : ℕ}
    {above : TreeRow} (habove : rowAt roots (place.1, place.2.take n) = some above) :
    above.nodeKey ∈ TreeState.pathKeys row.nodeKey ∧
      (above.nodeKey = "__proto__" →
        roots[place.1]?.map AnnotatedNode.name = some "__proto__") := by
  obtain ⟨root, hroot, hbelow⟩ := Option.bind_eq_some_iff.mp hrow
  have hfree := h.slashFree root (List.mem_of_getElem? hroot)
  have hupper : (rootRow root).below (place.2.take n) = some above := by
    simpa [rowAt, hroot] using habove
  have hlower : above.below (place.2.drop n) = some row := by
    rw [← List.take_append_drop n place.2, TreeRow.below_append, hupper] at hbelow
    exact hbelow
  have hfreeAbove : above.SlashFree := by
    intro is row' his
    exact hfree (place.2.take n ++ is) row' (by simp [TreeRow.below_append, hupper, his])
  refine ⟨mem_pathKeys_of_begins (TreeRow.keyParts_below hfreeAbove hlower).1, fun hproto => ?_⟩
  -- A key without a slash has one part, so there is no step to it.
  have hlength := (TreeRow.keyParts_below hfree hupper).2
  rw [hproto, keyParts_rootRow hfree] at hlength
  have hnil : place.2.take n = [] := by
    refine List.eq_nil_of_length_eq_zero ?_
    have hone : (keyParts "__proto__").length = 1 := by decide
    rw [hone, List.length_singleton] at hlength
    omega
  rw [hnil] at hupper
  rw [hroot, ← hproto, ← Option.some.inj hupper]
  rfl

/-- **After any calls, the link to a node is restored exactly if** it is not below a root
called `__proto__` that was closed by itself. -/
theorem deepLink_restored_iff (h : Linkable roots) (hrow : rowAt roots place = some row)
    (autoExpandDepth : ℕ) (calls : List TreeCall) :
    Restored autoExpandDepth roots (treeAfter calls) place row ↔
      ¬ ShutRoot roots (treeAfter calls) place := by
  constructor
  · rintro hrestored ⟨hne, hname, hshut⟩
    obtain ⟨root, hroot, hproto⟩ := Option.map_eq_some_iff.mp hname
    have hopen := hrestored.opened 0 (List.length_pos_iff.mpr hne) (rootRow root)
      (by simp [rowAt, hroot, TreeRow.below])
    rw [rootRow, hproto, TreeState.isExpanded_expandPath_proto] at hopen
    exact hopen hshut
  · intro hshut
    refine ⟨?_, ?_, ?_⟩
    · rw [findNodeByKey_rowAt h hrow, callerName_eq hrow]
    · intro place' row' hrow' hkey
      exact place_eq_of_nodeKey_eq h hrow' hrow hkey
    · intro n hn above habove
      obtain ⟨hpath, hname⟩ := above_spec h hrow habove
      by_cases hproto : above.nodeKey = "__proto__"
      · rw [hproto, TreeState.isExpanded_expandPath_proto]
        intro hclosed
        exact hshut ⟨List.ne_nil_of_length_pos (by omega), hname hproto, hclosed⟩
      · exact TreeState.isExpanded_expandPath hpath hproto _ _

/-! ### A root called `__proto__` -/

/-- A leaf of a call tree. -/
def leaf (name : String) : AnnotatedNode := { name, siteCount := -1 }

/-- A root that calls one function. -/
def oneCall (name callee : String) : AnnotatedNode :=
  { name, siteCount := -1, children := [leaf callee] }

theorem linkable_oneCall {name callee : String} (hname : '/' ∉ name.toList)
    (hcallee : '/' ∉ callee.toList) : Linkable [oneCall name callee] where
  nodup := List.nodup_singleton _
  slashFree := by
    rintro root hroot is row hrow
    obtain rfl := List.mem_singleton.mp hroot
    rcases is with _ | ⟨i, _ | ⟨j, is⟩⟩
    · rwa [← Option.some.inj hrow]
    · rcases i with _ | i
      · rwa [← Option.some.inj hrow]
      · simp [TreeRow.below, TreeRow.child, rootRow, oneCall] at hrow
    · rcases i with _ | i
      · simp [TreeRow.below, TreeRow.child, rootRow, oneCall, leaf] at hrow
      · simp [TreeRow.below, TreeRow.child, rootRow, oneCall] at hrow

/-- The link to a function called by `main`, after everything was closed. -/
theorem deepLink_restored_main :
    Restored 2 [oneCall "main" "run-1"] (treeAfter [.collapseAll]) (0, [0])
      ⟨leaf "run-1", 1, "main/run-1-0", some "main"⟩ :=
  (deepLink_restored_iff (linkable_oneCall (by decide) (by decide)) rfl 2 _).mpr
    (fun h => absurd h.2.1 (by decide))

/-- **The link to a function called by `__proto__`**, after that was closed. -/
theorem not_restored_proto :
    ¬ Restored 2 [oneCall "__proto__" "run"] (treeAfter [.toggle "__proto__"]) (0, [0])
      ⟨leaf "run", 1, "__proto__/run-0", some "__proto__"⟩ := by
  intro h
  exact absurd (h.opened 0 (by decide) (rootRow (oneCall "__proto__" "run")) rfl) (by decide)

end Apatchy
