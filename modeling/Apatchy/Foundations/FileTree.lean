import Apatchy.Foundations.Interruption
import Mathlib.Data.List.Infix
import Mathlib.Data.List.Nodup

/-!
# Trees of files, and archives

A tree of files has a directory or a file at some paths (`Apatchy.FileTree`). What a
program does to it is a task that can be interrupted at any point: a file is created
empty and then written byte by byte, a directory is renamed in one step. An archive is a
list of members, and is unpacked member by member (`Apatchy.extractAll`).

When unpacking is interrupted, every member may be there, or not, or in part. When it
returns, every member is there (`Apatchy.safe_extractAll`): what unpacking writes is at
or above a member, and no two members have one path.
-/

namespace Apatchy

/-! ### Trees of files -/

/-- A path, from the root of the tree. -/
abbrev Path : Type := List String

/-- What can be at a path. -/
inductive Node
  /-- A directory. -/
  | dir
  /-- A file. -/
  | file (data : List UInt8)
deriving DecidableEq, Repr

/-- **A tree of files**: what is at each path. -/
abbrev FileTree : Type := Path → Option Node

namespace FileTree

/-- Put a file or a directory at a path. -/
def write (t : FileTree) (p : Path) (n : Node) : FileTree :=
  fun q => if q = p then some n else t q

/-- Remove what is at a path. -/
def erase (t : FileTree) (p : Path) : FileTree := fun q => if q = p then none else t q

/-- Remove what is at a path and below it. -/
def eraseBelow (t : FileTree) (p : Path) : FileTree :=
  fun q => if p.isPrefixOf q then none else t q

/-- Move what is at a path and below it. -/
def move (t : FileTree) (src dst : Path) : FileTree := fun q =>
  if dst.isPrefixOf q then t (src ++ q.drop dst.length)
  else if src.isPrefixOf q then none
  else t q

/-- Whether a path is in a directory; what has no other one is in the root. -/
def inDirectory (t : FileTree) (p : Path) : Bool :=
  p.dropLast = [] || t p.dropLast = some .dir

/-- Write more data to a file. -/
def append (t : FileTree) (p : Path) (data : List UInt8) : FileTree :=
  match t p with
  | some (.file old) => t.write p (.file (old ++ data))
  | _ => t

@[simp] theorem write_self (t : FileTree) (p : Path) (n : Node) : t.write p n p = some n :=
  if_pos rfl

theorem write_of_ne {t : FileTree} {p q : Path} (n : Node) (h : q ≠ p) : t.write p n q = t q :=
  if_neg h

/-- A path that is taken stays taken. -/
theorem write_ne_none {t : FileTree} {q : Path} (p : Path) (n : Node) (h : t q ≠ none) :
    t.write p n q ≠ none := by
  by_cases hqp : q = p
  · simp [hqp]
  · rwa [write_of_ne n hqp]

/-- What is written to a path that is not taken changes no other path. -/
theorem write_eq_some {t : FileTree} {p q : Path} {n m : Node} (hp : t p = none)
    (hq : t q = some m) : t.write p n q = some m := by
  rw [write_of_ne n, hq]
  rintro rfl
  rw [hp] at hq
  exact absurd hq (by simp)

theorem append_eq {t : FileTree} {p : Path} {old : List UInt8} (h : t p = some (.file old))
    (data : List UInt8) : t.append p data = t.write p (.file (old ++ data)) := by
  rw [append, h]

theorem move_dst (t : FileTree) (src dst q : Path) : t.move src dst (dst ++ q) = t (src ++ q) := by
  rw [move, if_pos (List.isPrefixOf_iff_prefix.mpr (List.prefix_append ..)), List.drop_left]

theorem move_src {t : FileTree} {src dst q : Path} (hdst : ¬ dst <+: q) (hsrc : src <+: q) :
    t.move src dst q = none := by
  rw [move, if_neg (by rwa [List.isPrefixOf_iff_prefix]),
    if_pos (List.isPrefixOf_iff_prefix.mpr hsrc)]

theorem move_of_not {t : FileTree} {src dst q : Path} (hdst : ¬ dst <+: q) (hsrc : ¬ src <+: q) :
    t.move src dst q = t q := by
  rw [move, if_neg (by rwa [List.isPrefixOf_iff_prefix]),
    if_neg (by rwa [List.isPrefixOf_iff_prefix])]

end FileTree

/-! ### What programs do to them -/

/-- `Path.mkdir(exist_ok=True)`. -/
def mkdir (p : Path) : Task FileTree Unit := do
  let t ← Task.get
  match t p with
  | none => if t.inDirectory p then Task.step fun t => t.write p .dir else Task.raise
  | some .dir => pure ()
  | some (.file _) => Task.raise

/-- Write a file: create it, or empty it, and write byte after byte. -/
def writeFile (p : Path) (data : List UInt8) : Task FileTree Unit := do
  let t ← Task.get
  match t p with
  | some .dir => Task.raise
  | _ =>
    if t.inDirectory p then do
      Task.step fun t => t.write p (.file [])
      Task.forEach (fun b => Task.step fun t => t.append p [b]) data
    else Task.raise

/-- A member of an archive. -/
structure Member where
  /-- Its path in the archive. -/
  path : Path
  /-- The directory or the file. -/
  node : Node
deriving DecidableEq, Repr

/-- Unpack one member: the directories it is in, and the member. -/
def extractMember (root : Path) (m : Member) : Task FileTree Unit := do
  Task.forEach (fun d => mkdir (root ++ d)) m.path.dropLast.inits.tail
  match m.node with
  | .dir => mkdir (root ++ m.path)
  | .file data => writeFile (root ++ m.path) data

/-- `TarFile.extractall`. -/
def extractAll (root : Path) (ms : List Member) : Task FileTree Unit :=
  Task.forEach (extractMember root) ms

/-! ### What they leave -/

/-- The rule for a directory that is made, or was there. -/
theorem safe_mkdir {P C : FileTree → Prop} {Q : Unit → FileTree → Prop} {p : Path}
    (hC : ∀ t, P t → C t) (hnew : ∀ t, P t → t p = none → Q () (t.write p .dir))
    (hold : ∀ t, P t → t p = some .dir → Q () t) : Task.Safe P (mkdir p) C Q := by
  have hget : Task.Safe P Task.get C fun t t' => t = t' ∧ P t :=
    Task.safe_get fun t ht => ⟨rfl, ht⟩
  refine hget.bind fun t => ?_
  have hraise : ∀ t', t = t' ∧ P t → C t' := by
    rintro _ ⟨rfl, ht⟩
    exact hC t ht
  rcases hp : t p with _ | _ | data
  · by_cases hin : t.inDirectory p
    · simp only [hin, if_true]
      refine Task.safe_step hraise ?_
      rintro _ ⟨rfl, ht⟩
      exact hnew t ht hp
    · simp only [hin]
      exact Task.safe_raise hraise
  · refine Task.safe_pure ?_
    rintro _ ⟨rfl, ht⟩
    exact hold t ht hp
  · exact Task.safe_raise hraise

/-- **The rule for a file that is written**: what every beginning of the file keeps holds
at every point. -/
theorem safe_writeFile {I : FileTree → Prop} {p : Path}
    (hI : ∀ t data, I t → I (t.write p (.file data))) (data : List UInt8) :
    Task.Safe I (writeFile p data) I fun _ t => I t ∧ t p = some (.file data) := by
  have hget : Task.Safe I Task.get I fun t t' => t = t' ∧ I t :=
    Task.safe_get fun t ht => ⟨rfl, ht⟩
  have hwrite : Task.Safe I (do
      Task.step fun t => t.write p (.file [])
      Task.forEach (fun b => Task.step fun t => t.append p [b]) data) I
      fun _ t => I t ∧ t p = some (.file data) := by
    have hnew : Task.Safe I (Task.step fun t : FileTree => t.write p (.file [])) I
        fun _ t => I t ∧ t p = some (.file []) :=
      Task.safe_step (fun _ ht => ht) fun t ht => ⟨hI t [] ht, t.write_self ..⟩
    refine hnew.bind fun _ => Task.safe_forEach
      (fun done t => I t ∧ t p = some (.file done)) fun done b rest _ => ?_
    refine Task.safe_step (fun _ ht => ht.1) fun t ht => ?_
    rw [FileTree.append_eq ht.2]
    exact ⟨hI t _ ht.1, t.write_self ..⟩
  refine hget.bind fun t => ?_
  have hstart : ∀ t', t = t' ∧ I t → I t' := by
    rintro _ ⟨rfl, ht⟩
    exact ht
  -- what is there decides whether the file is opened at all
  by_cases hin : t.inDirectory p
  · simp only [hin, if_true]
    rcases hp : t p with _ | _ | old
    · exact hwrite.weaken hstart fun _ _ h => h
    · exact Task.safe_raise hstart
    · exact hwrite.weaken hstart fun _ _ h => h
  · simp only [hin]
    rcases t p with _ | _ | old <;> exact Task.safe_raise hstart

/-- The beginnings of a path, but for the empty one. -/
theorem mem_inits_tail {q p : Path} : q ∈ p.inits.tail ↔ q ≠ [] ∧ q <+: p := by
  rcases p with _ | ⟨a, p⟩
  · simp
  · rw [List.inits_cons, List.tail_cons, List.prefix_cons_iff, List.mem_map]
    constructor
    · rintro ⟨q, hq, rfl⟩
      exact ⟨List.cons_ne_nil a q, Or.inr ⟨q, rfl, (List.mem_inits ..).mp hq⟩⟩
    · rintro ⟨hne, rfl | ⟨q, rfl, hq⟩⟩
      · exact absurd rfl hne
      · exact ⟨q, (List.mem_inits ..).mpr hq, rfl⟩

/-- **The rule for directories that are made one after the other**: they are there at the
end. -/
theorem safe_mkdirs {I : FileTree → Prop} {root : Path} {ds : List Path}
    (hdir : ∀ t, ∀ d ∈ ds, I t → t (root ++ d) = none → I (t.write (root ++ d) .dir)) :
    Task.Safe I (Task.forEach (fun d => mkdir (root ++ d)) ds) I
      fun _ t => I t ∧ ∀ d ∈ ds, t (root ++ d) ≠ none := by
  have hloop : Task.Safe (fun t => I t ∧ ∀ d ∈ [], t (root ++ d) ≠ none)
      (Task.forEach (fun d => mkdir (root ++ d)) ds) I
      fun _ t => I t ∧ ∀ d ∈ ds, t (root ++ d) ≠ none := by
    refine Task.safe_forEach (fun done t => I t ∧ ∀ d ∈ done, t (root ++ d) ≠ none)
      fun done d rest hsplit => ?_
    have hd : d ∈ ds := by simp [hsplit]
    refine safe_mkdir (fun t ht => ht.1) (fun t ht hnone => ?_) (fun t ht hold => ?_)
    · refine ⟨hdir t d hd ht.1 hnone, fun d' hd' => ?_⟩
      rcases List.mem_append.mp hd' with hd' | hd'
      · exact FileTree.write_ne_none _ _ (ht.2 d' hd')
      · simp [List.mem_singleton.mp hd']
    · refine ⟨ht.1, fun d' hd' => ?_⟩
      rcases List.mem_append.mp hd' with hd' | hd'
      · exact ht.2 d' hd'
      · simp [List.mem_singleton.mp hd', hold]
  exact hloop.weaken (fun t ht => ⟨ht, by simp⟩) fun _ t ht => ht

/-- **The rule for a member**: what every directory on its path and every beginning of its
file keeps holds at every point; and when it is unpacked, it and the directories on its
path are there. -/
theorem safe_extractMember {I : FileTree → Prop} {root : Path} {m : Member} (hm : m.path ≠ [])
    (hdir : ∀ t q, I t → q ≠ [] → q <+: m.path → t (root ++ q) = none →
      I (t.write (root ++ q) .dir))
    (hfile : ∀ t data, I t → I (t.write (root ++ m.path) (.file data))) :
    Task.Safe I (extractMember root m) I fun _ t =>
      I t ∧ t (root ++ m.path) = some m.node ∧
        ∀ q, q ≠ [] → q <+: m.path → t (root ++ q) ≠ none := by
  let Above (t : FileTree) : Prop := ∀ d ∈ m.path.dropLast.inits.tail, t (root ++ d) ≠ none
  have hpath : m.path = m.path.dropLast ++ [m.path.getLast hm] :=
    (List.dropLast_append_getLast hm).symm
  have habove : Task.Safe I (Task.forEach (fun d => mkdir (root ++ d))
      m.path.dropLast.inits.tail) I fun _ t => I t ∧ Above t := by
    refine safe_mkdirs fun t d hmem ht hnone => ?_
    obtain ⟨hne, hdrop⟩ := mem_inits_tail.mp hmem
    exact hdir t d ht hne (hdrop.trans (List.dropLast_prefix _)) hnone
  -- The beginnings of the path are the directories above the member, and its own path.
  have hall : ∀ t : FileTree, Above t → t (root ++ m.path) = some m.node →
      ∀ q, q ≠ [] → q <+: m.path → t (root ++ q) ≠ none := by
    intro t ht hnode q hne hq
    rw [hpath, List.prefix_concat_iff, ← hpath] at hq
    rcases hq with rfl | hq
    · simp [hnode]
    · exact ht q (mem_inits_tail.mpr ⟨hne, hq⟩)
  refine habove.bind fun _ => ?_
  rcases hnode : m.node with _ | data
  · refine safe_mkdir (fun t ht => ht.1) (fun t ht hnone => ?_) (fun t ht hold => ?_)
    · have hown : t.write (root ++ m.path) .dir (root ++ m.path) = some m.node := by
        rw [FileTree.write_self, hnode]
      refine ⟨hdir t _ ht.1 hm (List.prefix_refl _) hnone, hnode ▸ hown, hall _ ?_ hown⟩
      exact fun d hd => FileTree.write_ne_none _ _ (ht.2 d hd)
    · exact ⟨ht.1, hold, hall t ht.2 (hold.trans (by rw [hnode]))⟩
  · have hwrite : Task.Safe (fun t => I t ∧ Above t) (writeFile (root ++ m.path) data)
        (fun t => I t ∧ Above t)
        fun _ t => (I t ∧ Above t) ∧ t (root ++ m.path) = some (.file data) :=
      safe_writeFile (fun t old ht =>
        ⟨hfile t old ht.1, fun d hd => FileTree.write_ne_none _ _ (ht.2 d hd)⟩) data
    refine hwrite.conseq (fun _ h => h) (fun t ht => ht.1) fun _ t ht => ?_
    have hown : t (root ++ m.path) = some m.node := by rw [ht.2, hnode]
    exact ⟨ht.1.1, ht.2, hall t ht.1.2 hown⟩

/-- **An archive is unpacked**: its members are there, and the directories on their
paths. -/
def Unpacked (root : Path) (ms : List Member) (t : FileTree) : Prop :=
  ∀ m ∈ ms, t (root ++ m.path) = some m.node ∧
    ∀ q, q ≠ [] → q <+: m.path → t (root ++ q) ≠ none

/-- What is unpacked stays so when something is written that is none of its members. -/
theorem Unpacked.write {root : Path} {ms : List Member} {t : FileTree} (h : Unpacked root ms t)
    {p : Path} (n : Node) (hp : t p = none ∨ ∀ m ∈ ms, root ++ m.path ≠ p) :
    Unpacked root ms (t.write p n) := by
  intro m hm
  obtain ⟨hnode, habove⟩ := h m hm
  refine ⟨?_, fun q hne hq => FileTree.write_ne_none p n (habove q hne hq)⟩
  rcases hp with hp | hp
  · exact FileTree.write_eq_some hp hnode
  · rw [FileTree.write_of_ne n (hp m hm), hnode]

/-- **The rule for an archive**: what every directory on the paths of its members and every
beginning of its files keeps holds at every point; and when it returns, the archive is
unpacked. -/
theorem safe_extractAll {I : FileTree → Prop} {root : Path} {ms : List Member}
    (hpaths : ∀ m ∈ ms, m.path ≠ []) (hnodup : (ms.map Member.path).Nodup)
    (hdir : ∀ t m q, I t → m ∈ ms → q ≠ [] → q <+: m.path → t (root ++ q) = none →
      I (t.write (root ++ q) .dir))
    (hfile : ∀ t m data, I t → m ∈ ms → I (t.write (root ++ m.path) (.file data))) :
    Task.Safe I (extractAll root ms) I fun _ t => I t ∧ Unpacked root ms t := by
  have hloop : Task.Safe (fun t => I t ∧ Unpacked root [] t) (extractAll root ms) I
      fun _ t => I t ∧ Unpacked root ms t := by
    refine Task.safe_forEach (fun done t => I t ∧ Unpacked root done t)
      fun done m rest hsplit => ?_
    have hm : m ∈ ms := by simp [hsplit]
    -- The members that are done are not written again.
    have hother : ∀ m' ∈ done, root ++ m'.path ≠ root ++ m.path := by
      intro m' hm' heq
      rw [hsplit, List.map_append, List.map_cons, List.nodup_append'] at hnodup
      exact hnodup.2.2 (List.mem_map_of_mem hm')
        (List.append_cancel_left heq ▸ List.mem_cons_self ..)
    have hmember := safe_extractMember (hpaths m hm)
      (fun t q (ht : I t ∧ Unpacked root done t) hne hq hnone =>
        ⟨hdir t m q ht.1 hm hne hq hnone, ht.2.write .dir (Or.inl hnone)⟩)
      (fun t data ht => ⟨hfile t m data ht.1 hm, ht.2.write _ (Or.inr hother)⟩)
    refine hmember.conseq (fun _ h => h) (fun _ h => h.1) fun _ t ht => ⟨ht.1.1, ?_⟩
    intro m' hm'
    rcases List.mem_append.mp hm' with hm' | hm'
    · exact ht.1.2 m' hm'
    · rw [List.mem_singleton.mp hm']
      exact ht.2
  exact hloop.weaken (fun t ht => ⟨ht, fun m hm => absurd hm (List.not_mem_nil)⟩) fun _ _ h => h

/-! ### Unpacking that does not begin -/

theorem inert_mkdir (p : Path) : Task.Inert (mkdir p) := by
  refine Task.inert_get.bind fun t => ?_
  rcases t p with _ | _ | data
  · by_cases hin : t.inDirectory p
    · simp only [hin, if_true]
      exact Task.inert_step _
    · simp only [hin]
      exact Task.inert_raise
  · exact Task.inert_pure ()
  · exact Task.inert_raise

theorem inert_writeFile (p : Path) (data : List UInt8) : Task.Inert (writeFile p data) := by
  have hwrite : Task.Inert (do
      Task.step fun t : FileTree => t.write p (.file [])
      Task.forEach (fun b => Task.step fun t => t.append p [b]) data) :=
    (Task.inert_step _).bind fun _ => Task.inert_forEach (fun _ => Task.inert_step _) data
  refine Task.inert_get.bind fun t => ?_
  by_cases hin : t.inDirectory p
  · simp only [hin, if_true]
    rcases t p with _ | _ | old
    · exact hwrite
    · exact Task.inert_raise
    · exact hwrite
  · simp only [hin]
    rcases t p with _ | _ | old <;> exact Task.inert_raise

/-- **Unpacking whose first step is hit leaves the tree as it was.** -/
theorem inert_extractAll (root : Path) (ms : List Member) : Task.Inert (extractAll root ms) := by
  refine Task.inert_forEach (fun m => ?_) ms
  refine (Task.inert_forEach (fun d => inert_mkdir _) _).bind fun _ => ?_
  rcases m.node with _ | data
  · exact inert_mkdir _
  · exact inert_writeFile _ data

end Apatchy
