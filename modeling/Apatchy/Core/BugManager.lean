import Apatchy.Foundations.PathNames
import Apatchy.Foundations.Script
import Apatchy.Foundations.Text
import Mathlib.Data.List.Pairwise

/-!
# The bug manager

Each bug has a directory with a manifest `bug.toml`. `BugManager.list_bugs` lists them, with
the ids that the manifests state, or the names of the directories where they state none
(`Apatchy.listBugs`). `BugManager.get_bug_instance` goes the other way, from an id to a
directory: it tries the id in lower case as a name, with underscores and without, and then
looks for a manifest that states the id (`Apatchy.resolveBugDir`).

So what a bug is listed as may not lead back to it. It does exactly if the first of the two
names that is there is the bug's own directory, or neither is there and the manifest states
the id (`Apatchy.resolvesToItself_iff`). `bug clean` goes from the list back to the bugs.

What is under a path is a parameter (`Apatchy.BugFiles`), and so are the upper and lower case
of Unicode (`Apatchy.CaseMaps`).
-/

namespace Apatchy

/-! ### Manifests -/

/-- A value of a TOML file. -/
inductive TomlValue
  /-- A string. -/
  | text (s : String)
  /-- An array. -/
  | array (items : List TomlValue)
  /-- A table. -/
  | table (fields : List (String × TomlValue))
  /-- A number, a date or a Boolean, by its spelling. -/
  | scalar (spelling : String)

/-- The manifest of a bug: a table. -/
abbrev Manifest : Type := List (String × TomlValue)

/-- `manifest.get("bug", {})`, of which `.get` is called. -/
def bugSection (manifest : Manifest) : Except String (List (String × TomlValue)) :=
  match manifest.lookup "bug" with
  | none => .ok []
  | some (.table fields) => .ok fields
  | some _ => .error "AttributeError"

/-- **The upper and lower case of strings.** -/
structure CaseMaps where
  /-- `str.lower`. -/
  lower : String → String
  /-- `str.upper`. -/
  upper : String → String
  /-- The empty string stays empty. -/
  lower_empty : lower "" = ""
  /-- No other string becomes empty. -/
  upper_eq_empty : ∀ s, upper s = upper "" → s = ""

/-- The letters of ASCII alone. -/
def CaseMaps.ascii : CaseMaps where
  lower s := String.ofList (s.toList.map Char.toLower)
  upper s := String.ofList (s.toList.map Char.toUpper)
  lower_empty := rfl
  upper_eq_empty s h := by
    have hnil : s.toList.map Char.toUpper = [] := by simpa using congrArg String.toList h
    simpa using hnil

/-! ### The directories of the bugs -/

/-- **What is on the disk**, as far as the bugs are concerned: `δ` is what a path can lead
to. -/
structure BugFiles (δ : Type) where
  /-- `bugs_dir`. -/
  bugsDir : PathName
  /-- The names of the directories in it, in the order of the disk. -/
  names : List String
  /-- What a path leads to, if anything; the system may refuse to say. -/
  find : PathName → Except String (Option δ)
  /-- `bug.toml` there, if there is one, and its table, if it can be read. -/
  bugToml : δ → Option (Option Manifest)
  /-- The class that `bug.py` there defines, if there is one. -/
  bugClass : δ → Option String

/-- A `Bug`. -/
structure Bug where
  /-- The subclass, where `bug.py` has one. -/
  subclass : Option String
  /-- `bug_dir`. -/
  bugDir : PathName
  /-- `manifest`. -/
  manifest : Manifest

/-- An entry of the list of bugs. -/
structure BugInfo where
  /-- The id. -/
  id : TomlValue
  /-- What it is about. -/
  description : TomlValue
  /-- The modules. -/
  modules : TomlValue
  /-- The version of httpd. -/
  version : TomlValue
  /-- What kind of bug. -/
  type : TomlValue
  /-- Its directory. -/
  dir : PathName

namespace BugFiles

variable {δ : Type} (files : BugFiles δ)

/-- What a path leads to, if it can be told. -/
def locate (dir : PathName) : Option δ :=
  match files.find dir with
  | .ok found => found
  | .error _ => none

/-- `(dir / "bug.toml").exists()`. -/
def hasToml (dir : PathName) : Bool := ((files.locate dir).bind files.bugToml).isSome

/-- `_load_manifest(dir / "bug.toml")`. -/
def loadManifest (dir : PathName) : Option Manifest := ((files.locate dir).bind files.bugToml).join

/-- A directory in `bugs_dir`. -/
def child (name : String) : PathName :=
  ⟨files.bugsDir.absolute, files.bugsDir.parts ++ [name.toList]⟩

/-- `bugs_dir.glob("*/bug.toml")`, by the names of the directories. -/
def globToml : List String := files.names.filter fun name => files.hasToml (files.child name)

end BugFiles

/-! ### From bugs to ids -/

section Manager

variable {δ : Type} (files : BugFiles δ)

/-- The entry of a bug. -/
def bugInfo (name : String) (manifest : Manifest) : Except String BugInfo := do
  let fields ← bugSection manifest
  return {
    id := (fields.lookup "id").getD (.text name)
    description := (fields.lookup "description").getD (.text "")
    modules := (fields.lookup "modules").getD (.array [])
    version := (fields.lookup "version").getD (.text "")
    type := (fields.lookup "type").getD (.text "")
    dir := files.child name }

/-- **`list_bugs`.** -/
def listBugs : Except String (List BugInfo) := do
  match ← files.find files.bugsDir with
  | none => return []
  | some _ =>
    let found := (files.globToml.mergeSort (· ≤ ·)).filterMap fun name =>
      (files.loadManifest (files.child name)).map fun manifest => (name, manifest)
    found.mapM fun bug => bugInfo files bug.1 bug.2

/-! ### From ids to bugs -/

variable (maps : CaseMaps)

/-- Whether a manifest states an id: an empty one does not count. -/
def statesId (cveId : String) (name : String) : Except String Bool :=
  match files.loadManifest (files.child name) with
  | none => .ok false
  | some [] => .ok false
  | some manifest => do
    let fields ← bugSection manifest
    match (fields.lookup "id").getD (.text "") with
    | .text id => return maps.upper id = maps.upper cveId
    -- `upper` is called on what is no text
    | _ => .error "AttributeError"

/-- The first name: underscores for hyphens. -/
def normalisedDir (cveId : String) : PathName :=
  files.bugsDir.join (PathName.parse (replaceText "-" "_" (maps.lower cveId)))

/-- The second name. -/
def dashedDir (cveId : String) : PathName :=
  files.bugsDir.join (PathName.parse (maps.lower cveId))

/-- `_resolve_bug_dir`. -/
def resolveBugDir (cveId : String) : Except String PathName := do
  if (← files.find (normalisedDir files maps cveId)).isSome then
    return normalisedDir files maps cveId
  if (← files.find (dashedDir files maps cveId)).isSome then
    return dashedDir files maps cveId
  match ← files.globToml.findM? (statesId files maps cveId) with
  | some name => return files.child name
  | none => .error "FileNotFoundError: Bug directory not found"

/-- **`get_bug_instance`.** -/
def getBugInstance (cveId : String) : Except String Bug := do
  let bugDir ← resolveBugDir files maps cveId
  if !files.hasToml bugDir then .error "FileNotFoundError: No bug.toml found"
  else
    match files.loadManifest bugDir with
    | none => .error "FileNotFoundError: Failed to parse"
    | some manifest =>
      return { subclass := (files.locate bugDir).bind files.bugClass, bugDir, manifest }

/-! ### Whether they lead back -/

/-- Two paths lead to the same place. -/
def SamePlace (p q : PathName) : Prop :=
  ∃ d, files.find p = .ok (some d) ∧ files.find q = .ok (some d)

/-- **The ids are strings, and differ** even if the case is ignored. -/
structure DistinctIds (entries : List BugInfo) : Prop where
  /-- They are strings. -/
  text : ∀ e ∈ entries, ∃ id, e.id = .text id
  /-- They differ. -/
  distinct : entries.Pairwise fun e e' => ∀ id id', e.id = .text id → e'.id = .text id' →
    maps.upper id ≠ maps.upper id'

/-- **A bug resolves to itself**: its id leads to its own directory. -/
def ResolvesToItself (e : BugInfo) : Prop :=
  ∃ cveId, e.id = .text cveId ∧ ∃ bug, getBugInstance files maps cveId = .ok bug ∧
    SamePlace files bug.bugDir e.dir

/-- The manifest of a bug states its id. -/
def StatesItsId (e : BugInfo) : Prop :=
  ∃ manifest, files.loadManifest e.dir = some manifest ∧
    ∃ fields, bugSection manifest = .ok fields ∧ fields.lookup "id" = some e.id

/-- **An id leads back**: the first of its two names that is there is the directory of the
bug, or neither is there and the manifest states the id. -/
def LeadsBack (e : BugInfo) : Prop :=
  ∃ cveId, e.id = .text cveId ∧
    (SamePlace files (normalisedDir files maps cveId) e.dir ∨
      files.find (normalisedDir files maps cveId) = .ok none ∧
        (SamePlace files (dashedDir files maps cveId) e.dir ∨
          files.find (dashedDir files maps cveId) = .ok none ∧ StatesItsId files e))

variable {files} {maps}

theorem locate_of_find {p : PathName} {found : Option δ} (h : files.find p = .ok found) :
    files.locate p = found := by
  rw [BugFiles.locate, h]

theorem find_of_locate {p : PathName} {d : δ} (h : files.locate p = some d) :
    files.find p = .ok (some d) := by
  rw [BugFiles.locate] at h
  rcases hfind : files.find p with e | found
  · simp [hfind] at h
  · rw [hfind] at h
    rw [← h]

theorem exists_of_loadManifest {p : PathName} {manifest : Manifest}
    (h : files.loadManifest p = some manifest) :
    ∃ d, files.find p = .ok (some d) ∧ files.bugToml d = some (some manifest) := by
  obtain ⟨d, hd, htoml⟩ := Option.bind_eq_some_iff.mp (Option.join_eq_some_iff.mp h)
  exact ⟨d, find_of_locate hd, htoml⟩

/-- What is loaded depends on the place only. -/
theorem loadManifest_of_find {p : PathName} {d : δ} (h : files.find p = .ok (some d)) :
    files.loadManifest p = (files.bugToml d).join := by
  rw [BugFiles.loadManifest, locate_of_find h, Option.bind_some]

/-- The bugs that are listed, by name. -/
theorem mem_found {name : String} {manifest : Manifest} :
    (name, manifest) ∈ ((files.globToml.mergeSort (· ≤ ·)).filterMap fun name =>
        (files.loadManifest (files.child name)).map fun manifest => (name, manifest)) ↔
      name ∈ files.globToml ∧ files.loadManifest (files.child name) = some manifest := by
  simp [List.mem_filterMap, List.mem_mergeSort]

/-- **The list of bugs**: its entries are those of the manifests that can be read. -/
theorem of_listBugs {entries : List BugInfo} (hlist : listBugs files = .ok entries) :
    (∀ e ∈ entries, (∃ d, files.find files.bugsDir = .ok (some d)) ∧
      ∃ name ∈ files.globToml, ∃ manifest, files.loadManifest (files.child name) = some manifest ∧
        bugInfo files name manifest = .ok e) ∧
    ∀ d, files.find files.bugsDir = .ok (some d) → ∀ name ∈ files.globToml, ∀ manifest,
      files.loadManifest (files.child name) = some manifest →
        ∃ e ∈ entries, bugInfo files name manifest = .ok e := by
  rw [listBugs] at hlist
  rcases hfind : files.find files.bugsDir with message | _ | d
  · rw [hfind] at hlist
    cases hlist
  · rw [hfind] at hlist
    obtain rfl : [] = entries := Except.ok.inj hlist
    exact ⟨by simp, by rintro d ⟨⟩⟩
  · rw [hfind] at hlist
    obtain ⟨hback, hforth⟩ := of_mapM_eq_ok hlist
    constructor
    · intro e he
      obtain ⟨⟨name, manifest⟩, hmem, hinfo⟩ := hback e he
      obtain ⟨hname, hload⟩ := mem_found.mp hmem
      exact ⟨⟨d, rfl⟩, name, hname, manifest, hload, hinfo⟩
    · intro _ _ name hname manifest hload
      exact hforth (name, manifest) (mem_found.mpr ⟨hname, hload⟩)

/-- What the entry of a bug says. -/
theorem of_bugInfo {name : String} {manifest : Manifest} {e : BugInfo}
    (h : bugInfo files name manifest = .ok e) :
    ∃ fields, bugSection manifest = .ok fields ∧
      e.id = (fields.lookup "id").getD (.text name) ∧ e.dir = files.child name := by
  rw [bugInfo] at h
  rcases hsection : bugSection manifest with message | fields
  · rw [hsection] at h
    cases h
  · rw [hsection] at h
    obtain rfl := Except.ok.inj h
    exact ⟨fields, rfl, rfl, rfl⟩

/-- The id in a manifest, or the empty one. -/
def statedId (manifest : Manifest) : String :=
  match bugSection manifest with
  | .ok fields =>
    match fields.lookup "id" with
    | some (.text id) => id
    | _ => ""
  | .error _ => ""

/-- Whether a scan takes a bug. -/
def isTaken (files : BugFiles δ) (maps : CaseMaps) (cveId name : String) : Bool :=
  match files.loadManifest (files.child name) with
  | none => false
  | some manifest => !manifest.isEmpty && decide (maps.upper (statedId manifest) = maps.upper cveId)

section Listed

variable {entries : List BugInfo} (hlist : listBugs files = .ok entries)
  (hids : DistinctIds maps entries)
include hlist hids

/-- **The scan does not fail**, once the bugs could be listed. -/
theorem statesId_eq {d : δ} (hdir : files.find files.bugsDir = .ok (some d)) (cveId : String)
    {name : String} (hname : name ∈ files.globToml) :
    statesId files maps cveId name = .ok (isTaken files maps cveId name) := by
  rw [statesId, isTaken]
  rcases hload : files.loadManifest (files.child name) with _ | _ | ⟨field, manifest⟩
  · rfl
  · rfl
  · obtain ⟨e, he, hinfo⟩ := (of_listBugs hlist).2 d hdir name hname _ hload
    obtain ⟨fields, hsection, hid, -⟩ := of_bugInfo hinfo
    obtain ⟨id, htext⟩ := hids.text e he
    have hstated : statedId (field :: manifest) =
        match fields.lookup "id" with
        | some (.text id) => id
        | _ => "" := by rw [statedId, hsection]
    simp only [hsection, hstated]
    show (match (fields.lookup "id").getD (.text "") with
      | .text id => Except.ok (decide (maps.upper id = maps.upper cveId))
      | _ => .error "AttributeError") = _
    rcases hlookup : fields.lookup "id" with _ | value
    · rfl
    · rw [hlookup, Option.getD_some] at hid
      obtain rfl : value = .text id := hid.symm.trans htext
      rfl

variable {e : BugInfo} (he : e ∈ entries) {cveId : String} (hid : e.id = .text cveId)
include he hid

/-- **The scan takes no other bug**, and the bug itself only if its manifest states the id. -/
theorem of_isTaken (hne : cveId ≠ "") {name : String} (hname : name ∈ files.globToml)
    (h : isTaken files maps cveId name = true) :
    e.dir = files.child name ∧ StatesItsId files e := by
  obtain ⟨⟨d, hdir⟩, -⟩ := (of_listBugs hlist).1 e he
  rw [isTaken] at h
  rcases hload : files.loadManifest (files.child name) with _ | manifest
  · simp [hload] at h
  · obtain ⟨e', he', hinfo⟩ := (of_listBugs hlist).2 d hdir name hname manifest hload
    obtain ⟨fields, hsection, hid', hdir'⟩ := of_bugInfo hinfo
    have hupper : maps.upper (statedId manifest) = maps.upper cveId := by
      simp only [hload, Bool.and_eq_true, decide_eq_true_eq] at h
      exact h.2
    -- an empty id is taken for an empty one only
    have hstated : statedId manifest ≠ "" := by
      intro hempty
      rw [hempty] at hupper
      exact hne (maps.upper_eq_empty _ hupper.symm)
    rw [statedId, hsection] at hstated hupper
    rcases hlookup : fields.lookup "id" with _ | value
    · simp [hlookup] at hstated
    · rw [hlookup, Option.getD_some] at hid'
      obtain ⟨id, htext⟩ := hids.text e' he'
      obtain rfl : value = .text id := hid'.symm.trans htext
      simp only [hlookup] at hupper
      have hsame : e' = e := by
        by_contra hne'
        have hsymm : Std.Symm fun e e' : BugInfo => ∀ id id', e.id = .text id → e'.id = .text id' →
            maps.upper id ≠ maps.upper id' :=
          ⟨fun _ _ h id id' hid hid' heq => h id' id hid' hid heq.symm⟩
        exact hids.distinct.forall he' he hne' id cveId htext hid hupper
      obtain rfl := hsame
      refine ⟨hdir', manifest, ?_, fields, hsection, ?_⟩
      · rw [hdir', hload]
      · rw [hlookup, htext]

omit hlist hids he in
/-- It takes the bug itself if its manifest states the id. -/
theorem isTaken_of_statesItsId {name : String} (hdir : e.dir = files.child name)
    (h : StatesItsId files e) : isTaken files maps cveId name = true := by
  obtain ⟨manifest, hload, fields, hsection, hlookup⟩ := h
  rw [hdir] at hload
  have hstated : statedId manifest = cveId := by
    rw [statedId, hsection]
    simp only [hlookup, hid]
  have hne : manifest.isEmpty = false := by
    rcases manifest with _ | ⟨field, manifest⟩
    · obtain rfl : [] = fields := Except.ok.inj hsection
      simp at hlookup
    · rfl
  simp [isTaken, hload, hstated, hne]

/-- **What the scan finds.** -/
theorem find?_isTaken (hne : cveId ≠ "") :
    (StatesItsId files e → (files.globToml.find? (isTaken files maps cveId)).map files.child =
      some e.dir) ∧
    (¬ StatesItsId files e → files.globToml.find? (isTaken files maps cveId) = none) := by
  obtain ⟨-, name, hname, manifest, hload, hinfo⟩ := (of_listBugs hlist).1 e he
  obtain ⟨fields, hsection, -, hdir⟩ := of_bugInfo hinfo
  constructor
  · intro hstates
    have htaken := @isTaken_of_statesItsId _ files maps _ _ hid _ hdir hstates
    rcases hfind : files.globToml.find? (isTaken files maps cveId) with _ | name'
    · exact absurd htaken (by simpa using List.find?_eq_none.mp hfind name hname)
    · have hother := of_isTaken hlist hids he hid hne (List.mem_of_find?_eq_some hfind)
        (List.find?_some hfind)
      rw [Option.map_some, hother.1]
  · intro hstates
    refine List.find?_eq_none.mpr fun name' hname' htaken => ?_
    exact hstates (of_isTaken hlist hids he hid hne hname' htaken).2

end Listed

/-! ### The result -/

/-- What an instance is loaded from. -/
theorem of_getBugInstance {cveId : String} {bug : Bug}
    (h : getBugInstance files maps cveId = .ok bug) :
    resolveBugDir files maps cveId = .ok bug.bugDir := by
  rw [getBugInstance] at h
  rcases hdir : resolveBugDir files maps cveId with message | p
  · rw [hdir] at h
    cases h
  · rw [hdir] at h
    have hrest : (if !files.hasToml p then Except.error "FileNotFoundError: No bug.toml found"
      else match files.loadManifest p with
        | none => .error "FileNotFoundError: Failed to parse"
        | some manifest => .ok ⟨(files.locate p).bind files.bugClass, p, manifest⟩) = .ok bug := h
    split_ifs at hrest
    rcases hload : files.loadManifest p with _ | manifest
    · rw [hload] at hrest
      cases hrest
    · rw [hload] at hrest
      obtain rfl := Except.ok.inj hrest
      rfl

/-- An instance of the bug in a directory. -/
theorem getBugInstance_eq {cveId : String} {p : PathName} {manifest : Manifest}
    (hdir : resolveBugDir files maps cveId = .ok p) (hload : files.loadManifest p = some manifest) :
    getBugInstance files maps cveId =
      .ok ⟨(files.locate p).bind files.bugClass, p, manifest⟩ := by
  obtain ⟨d, hd, htoml⟩ := exists_of_loadManifest hload
  have hhas : files.hasToml p = true := by
    rw [BugFiles.hasToml, locate_of_find hd, Option.bind_some, htoml]
    rfl
  rw [getBugInstance, hdir]
  show (if !files.hasToml p then _ else _) = _
  rw [hhas, hload]
  rfl

/-- **An id leads to the bug whose directory it resolves to.** -/
theorem getBugInstance_iff {cveId : String} {dir : PathName} {manifest : Manifest}
    (hload : files.loadManifest dir = some manifest) :
    (∃ bug, getBugInstance files maps cveId = .ok bug ∧ SamePlace files bug.bugDir dir) ↔
      ∃ p, resolveBugDir files maps cveId = .ok p ∧ SamePlace files p dir := by
  constructor
  · rintro ⟨bug, hbug, hplace⟩
    exact ⟨bug.bugDir, of_getBugInstance hbug, hplace⟩
  · rintro ⟨p, hp, d, hfind, hdir⟩
    have hload' : files.loadManifest p = some manifest := by
      rw [loadManifest_of_find hfind, ← loadManifest_of_find hdir, hload]
    exact ⟨_, getBugInstance_eq hp hload', d, hfind, hdir⟩

/-- The empty id stands for the directory of all bugs. -/
theorem normalisedDir_empty : normalisedDir files maps "" = files.bugsDir := by
  have hempty : replaceText "-" "_" (maps.lower "") = "" := by
    rw [maps.lower_empty]
    rfl
  rw [normalisedDir, hempty]
  simp [PathName.join, PathName.parse, PathName.partsOf]

/-- The three ways in which an id is resolved. -/
theorem resolveBugDir_eq (cveId : String) : resolveBugDir files maps cveId =
    match files.find (normalisedDir files maps cveId) with
    | .error message => .error message
    | .ok (some _) => .ok (normalisedDir files maps cveId)
    | .ok none =>
      match files.find (dashedDir files maps cveId) with
      | .error message => .error message
      | .ok (some _) => .ok (dashedDir files maps cveId)
      | .ok none =>
        match files.globToml.findM? (statesId files maps cveId) with
        | .error message => .error message
        | .ok (some name) => .ok (files.child name)
        | .ok none => .error "FileNotFoundError: Bug directory not found" := by
  rw [resolveBugDir]
  rcases files.find (normalisedDir files maps cveId) with message | _ | d
  · rfl
  · rcases files.find (dashedDir files maps cveId) with message | _ | d
    · rfl
    · rcases files.globToml.findM? (statesId files maps cveId) with message | _ | name <;> rfl
    · rfl
  · rfl

/-- A path that leads nowhere leads to no bug. -/
theorem not_samePlace {p q : PathName} (h : ∀ d, files.find p ≠ .ok (some d)) :
    ¬ SamePlace files p q := by
  rintro ⟨d, hp, -⟩
  exact h d hp

/-- **When an id resolves to its own directory**, for the id of a bug that is listed. -/
theorem resolveBugDir_iff {entries : List BugInfo} (hlist : listBugs files = .ok entries)
    (hids : DistinctIds maps entries) {e : BugInfo} (he : e ∈ entries) {cveId : String}
    (hid : e.id = .text cveId) :
    (∃ p, resolveBugDir files maps cveId = .ok p ∧ SamePlace files p e.dir) ↔
      SamePlace files (normalisedDir files maps cveId) e.dir ∨
        files.find (normalisedDir files maps cveId) = .ok none ∧
          (SamePlace files (dashedDir files maps cveId) e.dir ∨
            files.find (dashedDir files maps cveId) = .ok none ∧ StatesItsId files e) := by
  obtain ⟨⟨d, hdir⟩, name, -, manifest, hload, hinfo⟩ := (of_listBugs hlist).1 e he
  obtain ⟨-, -, -, hchild⟩ := of_bugInfo hinfo
  rw [← hchild] at hload
  obtain ⟨own, hown, -⟩ := exists_of_loadManifest hload
  rw [resolveBugDir_eq]
  -- the two names in turn, and then the scan
  rcases hfirst : files.find (normalisedDir files maps cveId) with message | _ | d₁
  · simp [not_samePlace, hfirst]
  · rcases hsecond : files.find (dashedDir files maps cveId) with message | _ | d₂
    · simp [not_samePlace, hfirst, hsecond]
    · -- neither name is there, so the id is not empty, and the scan decides
      have hne : cveId ≠ "" := by
        rintro rfl
        rw [normalisedDir_empty, hdir] at hfirst
        cases hfirst
      have hscan : files.globToml.findM? (statesId files maps cveId) =
          .ok (files.globToml.find? (isTaken files maps cveId)) :=
        findM?_eq_ok fun name hname => statesId_eq hlist hids hdir cveId hname
      obtain ⟨hfound, hnone⟩ := find?_isTaken hlist hids he hid hne
      rw [hscan]
      by_cases hstates : StatesItsId files e
      · obtain ⟨name', hname', hdir'⟩ := Option.map_eq_some_iff.mp (hfound hstates)
        simp only [hname', hstates, and_true, or_true, iff_true]
        exact ⟨files.child name', rfl, own, hdir' ▸ hown, hown⟩
      · simp [hnone hstates, hstates, not_samePlace, hfirst, hsecond]
    · simp [not_samePlace, hfirst]
  · simp

end Manager

/-! ### Three bugs -/

/-- A disk with three bugs: the id of the first is its directory in capitals, the second is
listed by its directory, and the third has an id that names no directory. -/
def threeBugs : BugFiles (Option String) where
  bugsDir := ⟨false, ["bugs".toList]⟩
  names := ["cve_1", "my-bug", "x"]
  find p :=
    if p = ⟨false, ["bugs".toList]⟩ then .ok (some none)
    else .ok ((["cve_1", "my-bug", "x"].find? fun name =>
      p = ⟨false, ["bugs".toList, name.toList]⟩).map some)
  bugToml
    | some "cve_1" => some (some [("bug", .table [("id", .text "CVE-1")])])
    | some "my-bug" => some (some [("bug", .table [])])
    | some "x" => some (some [("bug", .table [("id", .text "Other")])])
    | _ => none
  bugClass _ := none

/-- The entry of a bug without descriptions. -/
def plainInfo (id dir : String) : BugInfo where
  id := .text id
  description := .text ""
  modules := .array []
  version := .text ""
  type := .text ""
  dir := ⟨false, ["bugs".toList, dir.toList]⟩

theorem listBugs_threeBugs : listBugs threeBugs =
    .ok [plainInfo "CVE-1" "cve_1", plainInfo "my-bug" "my-bug", plainInfo "Other" "x"] := by
  have hglob : threeBugs.globToml = ["cve_1", "my-bug", "x"] := by decide
  have hsort : ["cve_1", "my-bug", "x"].mergeSort (· ≤ ·) = ["cve_1", "my-bug", "x"] :=
    List.mergeSort_of_pairwise (by decide)
  have hroot : threeBugs.find threeBugs.bugsDir = .ok (some none) := rfl
  rw [listBugs, hroot, hglob]
  show ((["cve_1", "my-bug", "x"].mergeSort (· ≤ ·)).filterMap _).mapM _ = _
  rw [hsort]
  rfl

theorem distinctIds_threeBugs : DistinctIds CaseMaps.ascii
    [plainInfo "CVE-1" "cve_1", plainInfo "my-bug" "my-bug", plainInfo "Other" "x"] where
  text := by
    simp only [List.forall_mem_cons]
    exact ⟨⟨_, rfl⟩, ⟨_, rfl⟩, ⟨_, rfl⟩, by simp⟩
  distinct := by
    have hne : ∀ id id' a b, CaseMaps.ascii.upper id ≠ CaseMaps.ascii.upper id' →
        ∀ i i', (plainInfo id a).id = .text i → (plainInfo id' b).id = .text i' →
          CaseMaps.ascii.upper i ≠ CaseMaps.ascii.upper i' := by
      rintro id id' a b h i i' ⟨⟩ ⟨⟩
      exact h
    simp only [List.pairwise_cons, List.forall_mem_cons]
    exact ⟨⟨hne _ _ _ _ (by decide), hne _ _ _ _ (by decide), by simp⟩,
      ⟨hne _ _ _ _ (by decide), by simp⟩, by simp, List.Pairwise.nil⟩

/-- A disk with one bug. -/
def oneBug (name : String) (fields : List (String × TomlValue)) : BugFiles Bool where
  bugsDir := PathName.parse "bugs"
  names := [name]
  find p :=
    if p = PathName.parse "bugs" then .ok (some false)
    else if p = ⟨false, ["bugs".toList, name.toList]⟩ then .ok (some true)
    else .ok none
  bugToml d := if d then some (some [("bug", .table fields)]) else none
  bugClass _ := none

/-- Its entry. -/
def oneBugInfo (name : String) (fields : List (String × TomlValue)) : BugInfo where
  id := (fields.lookup "id").getD (.text name)
  description := (fields.lookup "description").getD (.text "")
  modules := (fields.lookup "modules").getD (.array [])
  version := (fields.lookup "version").getD (.text "")
  type := (fields.lookup "type").getD (.text "")
  dir := (oneBug name fields).child name

theorem child_oneBug (name : String) (fields : List (String × TomlValue)) :
    (oneBug name fields).child name = ⟨false, ["bugs".toList, name.toList]⟩ := by
  have hparts : (PathName.parse "bugs").parts = ["bugs".toList] := by decide
  show PathName.mk (PathName.parse "bugs").absolute ((PathName.parse "bugs").parts ++ _) = _
  rw [hparts]
  rfl

theorem find_child_oneBug (name : String) (fields : List (String × TomlValue)) :
    (oneBug name fields).find ((oneBug name fields).child name) = .ok (some true) := by
  have hne : (⟨false, ["bugs".toList, name.toList]⟩ : PathName) ≠ PathName.parse "bugs" := by
    intro heq
    have hparts : (PathName.parse "bugs").parts.length = 1 := by decide
    rw [← heq] at hparts
    simp at hparts
  rw [child_oneBug, oneBug]
  simp only [hne, if_false, if_true]

theorem loadManifest_oneBug (name : String) (fields : List (String × TomlValue)) :
    (oneBug name fields).loadManifest ((oneBug name fields).child name) =
      some [("bug", .table fields)] := by
  rw [loadManifest_of_find (find_child_oneBug name fields)]
  rfl

/-- The list of one bug. -/
theorem listBugs_oneBug (name : String) (fields : List (String × TomlValue)) :
    listBugs (oneBug name fields) = .ok [oneBugInfo name fields] := by
  have hlocate := locate_of_find (find_child_oneBug name fields)
  have hglob : (oneBug name fields).globToml = [name] := by
    rw [BugFiles.globToml]
    show [name].filter _ = _
    rw [List.filter_cons_of_pos, List.filter_nil]
    simp only [BugFiles.hasToml, hlocate]
    rfl
  have hroot : (oneBug name fields).find (oneBug name fields).bugsDir = .ok (some false) := rfl
  rw [listBugs, hroot, hglob]
  show (([name].mergeSort (· ≤ ·)).filterMap _).mapM _ = _
  rw [List.mergeSort_singleton, List.filterMap_cons_some (by rw [loadManifest_oneBug]; rfl)]
  rfl

/-- One string is distinct. -/
theorem distinctIds_oneBug (maps : CaseMaps) {name id : String} {fields : List (String × TomlValue)}
    (hid : (oneBugInfo name fields).id = .text id) : DistinctIds maps [oneBugInfo name fields] where
  text e he := by
    obtain rfl := List.mem_singleton.mp he
    exact ⟨id, hid⟩
  distinct := List.pairwise_singleton ..

end Apatchy
