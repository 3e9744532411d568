import Apatchy.Foundations.FileTree
import Apatchy.Foundations.Text
import Mathlib.Algebra.GroupWithZero.Nat
import Mathlib.Algebra.Order.BigOperators.Group.List
import Mathlib.Data.List.Sort
import Mathlib.Data.String.Basic

/-!
# Replaying a corpus

Before a coverage report is made, the test cases of a corpus are handed to the harness. A
corpus is a directory that a fuzzer has written, with a queue for each of its instances,
or one queue, or just a directory of files (`Apatchy.collectCorpusDirs`).

The step that replays them counts the test cases in all these directories, and leaves out
the directories with crashes, by their name, afterwards (`Apatchy.replayCorpusProto`). So
the number that it returns is that of the test cases it handed over exactly if nothing it
left out has any (`Apatchy.replayCorpusProto_honest_iff`). It also leaves out a plain
corpus that has such a name, and then a report is made of nothing.
-/

namespace Apatchy

/-! ### Directories -/

/-- What a path leads to, links followed. -/
inductive DiskEntry
  /-- A regular file. -/
  | file
  /-- A directory, and the names in it. -/
  | dir (names : List String)
  /-- Something else. -/
  | other
deriving DecidableEq, Repr

/-- What is on the disk. -/
abbrev Disk : Type := Path → Option DiskEntry

namespace Disk

variable (disk : Disk)

/-- `path.is_file()`. -/
def isFile (path : Path) : Bool := disk path = some .file

/-- The names in a directory. -/
def names (path : Path) : List String :=
  match disk path with
  | some (.dir names) => names
  | _ => []

/-- `path.is_dir()`. -/
def isDir (path : Path) : Bool :=
  match disk path with
  | some (.dir _) => true
  | _ => false

/-- `path.exists()`. -/
def isThere (path : Path) : Bool := (disk path).isSome

/-- `path.iterdir()`. -/
def iterdir (path : Path) : Except String (List Path) :=
  if disk.isDir path then .ok ((disk.names path).map fun name => path ++ [name])
  else .error "NotADirectoryError"

/-- The test cases in a directory: its regular files but for `.state`. -/
def testCases (path : Path) : List Path :=
  ((disk.names path).map fun name => path ++ [name]).filter fun f =>
    disk.isFile f && f.getLastD "" != ".state"

end Disk

/-! ### Collecting -/

section Collect

variable (disk : Disk) (corpusPath : Path)

/-- `sorted(path.iterdir())`. -/
def sortedDir : List Path :=
  ((disk.names corpusPath).insertionSort (· ≤ ·)).map fun name => corpusPath ++ [name]

/-- The instances of the fuzzer: the directories with a queue, or the corpus itself. -/
def fuzzerInstances : List Path :=
  let instances := (sortedDir disk corpusPath).filter fun child =>
    disk.isDir child && disk.isDir (child ++ ["queue"])
  if instances = [] ∧ disk.isDir (corpusPath ++ ["queue"]) then [corpusPath] else instances

/-- What is replayed of an instance. -/
def instanceDirs (inst : Path) : List Path :=
  if disk.isDir (inst ++ ["crashes"]) && !(disk.names (inst ++ ["crashes"])).isEmpty then
    [inst ++ ["queue"], inst ++ ["crashes"]]
  else [inst ++ ["queue"]]

/-- **`_collect_corpus_dirs`**. -/
def collectCorpusDirs : Except String (List Path) :=
  if disk.isThere corpusPath = false then .ok []
  else if disk.isDir corpusPath = false then .error "NotADirectoryError"
  else
    let instances := fuzzerInstances disk corpusPath
    if instances ≠ [] then .ok (instances.flatMap (instanceDirs disk))
    -- the plain layout, if there is any file
    else if (disk.names corpusPath).any fun name => disk.isFile (corpusPath ++ [name]) then
      .ok [corpusPath]
    else .ok []

end Collect

/-! ### Replaying -/

/-- What the replay did. -/
structure ProtoReplay where
  /-- What it returned. -/
  count : ℕ
  /-- The directories that it handed to the harness. -/
  handed : List Path
deriving DecidableEq, Repr

/-- The number of test cases in some directories. -/
def totalCases (disk : Disk) (dirs : List Path) : ℕ :=
  (dirs.map fun dir => (disk.testCases dir).length).sum

/-- **`_replay_corpus_proto`**. -/
def replayCorpusProto (disk : Disk) (corpusDirs : List Path) : Except String ProtoReplay := do
  let existing := corpusDirs.filter disk.isThere
  let _ ← existing.mapM disk.iterdir
  let total := totalCases disk existing
  if total = 0 then return ⟨0, []⟩
  let replay := existing.filter fun dir => !containsText "crash" (dir.getLastD "")
  return ⟨total, replay⟩

/-- Whether `generate_coverage` goes on, to merge the profiles and make the report. -/
def ProtoReplay.goesOn (replay : ProtoReplay) : Bool := replay.count != 0

/-- **The count is honest**: it is the number of the test cases that were handed over, and
if the report is made then there was one. -/
structure HonestCount (disk : Disk) (replay : ProtoReplay) : Prop where
  /-- What is counted was handed over. -/
  count : replay.count = totalCases disk replay.handed
  /-- A report is of at least one test case. -/
  goesOn : replay.goesOn = true → 0 < totalCases disk replay.handed

/-! ### What is collected -/

variable {disk : Disk} {corpusPath : Path}

theorem isDir_queue {inst : Path} (h : inst ∈ fuzzerInstances disk corpusPath) :
    disk.isDir (inst ++ ["queue"]) = true := by
  rw [fuzzerInstances] at h
  split_ifs at h with hflat
  · rw [List.mem_singleton.mp h]
    exact hflat.2
  · have hboth := (List.mem_filter.mp h).2
    rw [Bool.and_eq_true] at hboth
    exact hboth.2

theorem testCases_of_names_eq_nil {path : Path} (h : disk.names path = []) :
    disk.testCases path = [] := by
  simp [Disk.testCases, h]

theorem names_of_not_isDir {path : Path} (h : disk.isDir path = false) :
    disk.names path = [] := by
  rw [Disk.isDir] at h
  rw [Disk.names]
  split at h
  · exact absurd h (by decide)
  · rfl

/-- What is replayed of an instance: its queue, and the crashes if there are any. -/
theorem mem_instanceDirs {inst dir : Path} :
    dir ∈ instanceDirs disk inst ↔ dir = inst ++ ["queue"] ∨
      dir = inst ++ ["crashes"] ∧ disk.isDir (inst ++ ["crashes"]) = true ∧
        disk.names (inst ++ ["crashes"]) ≠ [] := by
  rw [instanceDirs]
  split_ifs with hcrashes
  · simp only [Bool.and_eq_true, Bool.not_eq_true', List.isEmpty_eq_false_iff] at hcrashes
    simp [hcrashes.1, hcrashes.2]
  · simp only [Bool.and_eq_true, Bool.not_eq_true', List.isEmpty_eq_false_iff] at hcrashes
    constructor
    · intro hdir
      exact Or.inl (List.mem_singleton.mp hdir)
    · rintro (rfl | ⟨-, hboth⟩)
      · exact List.mem_singleton_self _
      · exact absurd hboth hcrashes

/-- A directory that is left out, because of its name. -/
def LeftOut (dir : Path) : Prop := containsText "crash" (dir.getLastD "") = true

instance (dir : Path) : Decidable (LeftOut dir) := inferInstanceAs (Decidable (_ = true))

theorem not_leftOut_queue (inst : Path) : ¬ LeftOut (inst ++ ["queue"]) := by
  rw [LeftOut, List.getLastD_concat]
  decide +kernel

theorem leftOut_crashes (inst : Path) : LeftOut (inst ++ ["crashes"]) := by
  rw [LeftOut, List.getLastD_concat]
  decide +kernel

/-- **Nothing that is left out has test cases**: the crashes of an instance have none, and
neither has a plain corpus with such a name. -/
def NothingLeftOut (disk : Disk) (corpusPath : Path) : Prop :=
  (∀ inst ∈ fuzzerInstances disk corpusPath, disk.testCases (inst ++ ["crashes"]) = []) ∧
    (fuzzerInstances disk corpusPath = [] → LeftOut corpusPath → disk.testCases corpusPath = [])

/-- **What is collected** is directories, and those of them that are left out are crashes of
instances, or the corpus itself. -/
theorem collectCorpusDirs_spec {dirs : List Path}
    (h : collectCorpusDirs disk corpusPath = .ok dirs) (hne : dirs ≠ []) :
    (∀ dir ∈ dirs, disk.isDir dir = true) ∧
      ((∀ dir ∈ dirs, LeftOut dir → disk.testCases dir = []) ↔
        NothingLeftOut disk corpusPath) := by
  simp only [collectCorpusDirs] at h
  -- no directory, instances, or a plain corpus
  split_ifs at h with hthere hdir hinst hplain
  · exact absurd (Except.ok.inj h).symm hne
  · obtain rfl := Except.ok.inj h
    -- the queues and the crashes of the instances: a crash directory is listed if it has a file
    refine ⟨fun dir hmem => ?_, fun hcases => ⟨fun inst hin => ?_, fun hnil => ?_⟩, ?_⟩
    · obtain ⟨inst, hin, hmem⟩ := List.mem_flatMap.mp hmem
      rcases mem_instanceDirs.mp hmem with rfl | ⟨rfl, hcrashes, -⟩
      · exact isDir_queue hin
      · exact hcrashes
    · by_cases hnames : disk.names (inst ++ ["crashes"]) = []
      · exact testCases_of_names_eq_nil hnames
      · have hcrashes : disk.isDir (inst ++ ["crashes"]) = true := by
          by_contra hnot
          exact hnames (names_of_not_isDir (Bool.eq_false_of_not_eq_true hnot))
        refine hcases _ (List.mem_flatMap.mpr ⟨inst, hin, ?_⟩) (leftOut_crashes inst)
        exact mem_instanceDirs.mpr (Or.inr ⟨rfl, hcrashes, hnames⟩)
    · exact absurd hnil hinst
    · rintro ⟨hcrashes, -⟩ dir hmem hleft
      obtain ⟨inst, hin, hmem⟩ := List.mem_flatMap.mp hmem
      rcases mem_instanceDirs.mp hmem with rfl | ⟨rfl, -⟩
      · exact absurd hleft (not_leftOut_queue inst)
      · exact hcrashes inst hin
  · obtain rfl := Except.ok.inj h
    -- the corpus alone
    have hnil : fuzzerInstances disk corpusPath = [] := not_not.mp hinst
    refine ⟨fun dir hmem => ?_, fun hcases => ⟨?_, fun _ => ?_⟩, ?_⟩
    · rw [List.mem_singleton.mp hmem]
      exact Bool.eq_true_of_not_eq_false hdir
    · simp [hnil]
    · exact hcases corpusPath (List.mem_singleton_self _)
    · rintro ⟨-, hcorpus⟩ dir hmem hleft
      obtain rfl := List.mem_singleton.mp hmem
      exact hcorpus hnil hleft
  · exact absurd (Except.ok.inj h).symm hne

/-! ### What is counted -/

theorem sum_filter_le {α : Type*} (f : α → ℕ) (keep : α → Bool) (as : List α) :
    ((as.filter keep).map f).sum ≤ (as.map f).sum :=
  (List.filter_sublist.map f).sum_le_sum fun _ _ => Nat.zero_le _

/-- **A sum does not change if items are left out, exactly if** these add nothing. -/
theorem sum_filter_eq_iff {α : Type*} (f : α → ℕ) (keep : α → Bool) (as : List α) :
    (as.map f).sum = ((as.filter keep).map f).sum ↔ ∀ a ∈ as, keep a = false → f a = 0 := by
  induction as with
  | nil => simp
  | cons a as ih =>
    have hle := sum_filter_le f keep as
    rw [List.forall_mem_cons, ← ih]
    rcases hkeep : keep a with _ | _
    · rw [List.filter_cons_of_neg (by simp [hkeep]), List.map_cons, List.sum_cons]
      simp only [true_implies]
      omega
    · rw [List.filter_cons_of_pos hkeep, List.map_cons, List.sum_cons, List.map_cons,
        List.sum_cons]
      simp

/-- Directories can be listed. -/
theorem exists_mapM_iterdir {dirs : List Path} (h : ∀ dir ∈ dirs, disk.isDir dir = true) :
    ∃ listings, dirs.mapM disk.iterdir = .ok listings := by
  induction dirs with
  | nil => exact ⟨[], rfl⟩
  | cons dir dirs ih =>
    obtain ⟨hdir, hrest⟩ := List.forall_mem_cons.mp h
    obtain ⟨listings, hlistings⟩ := ih hrest
    refine ⟨(disk.names dir).map (fun name => dir ++ [name]) :: listings, ?_⟩
    rw [List.mapM_cons, Disk.iterdir, if_pos hdir, hlistings]
    rfl

/-- **The replay of some directories counts honestly exactly if** those that are left out
have no test cases. -/
theorem replayCorpusProto_spec {dirs : List Path} (h : ∀ dir ∈ dirs, disk.isDir dir = true) :
    ∃ replay, replayCorpusProto disk dirs = .ok replay ∧
      (HonestCount disk replay ↔ ∀ dir ∈ dirs, LeftOut dir → disk.testCases dir = []) := by
  -- nothing that is collected is dropped as missing
  have hthere : dirs.filter disk.isThere = dirs := by
    refine List.filter_eq_self.mpr fun dir hdir => ?_
    have hisDir := h dir hdir
    rw [Disk.isDir] at hisDir
    rw [Disk.isThere]
    split at hisDir
    · next names hentry => rw [hentry]; rfl
    · exact absurd hisDir (by decide)
  obtain ⟨listings, hlistings⟩ := exists_mapM_iterdir h
  -- the total is that of the directories replayed exactly if the others have nothing
  have hsum := sum_filter_eq_iff (fun dir => (disk.testCases dir).length)
    (fun dir => !containsText "crash" (dir.getLastD "")) dirs
  have hleft : (∀ dir ∈ dirs, (!containsText "crash" (dir.getLastD "")) = false →
      (disk.testCases dir).length = 0) ↔ ∀ dir ∈ dirs, LeftOut dir → disk.testCases dir = [] := by
    simp only [Bool.not_eq_false', List.length_eq_zero_iff, LeftOut]
  rw [hleft] at hsum
  rw [replayCorpusProto]
  simp only [hthere, hlistings, bind, Except.bind, pure, Except.pure]
  split_ifs with htotal
  · refine ⟨_, rfl, iff_of_true ⟨rfl, by simp [ProtoReplay.goesOn]⟩ (hsum.mp ?_)⟩
    have hle := sum_filter_le (fun dir => (disk.testCases dir).length)
      (fun dir => !containsText "crash" (dir.getLastD "")) dirs
    rw [totalCases] at htotal
    omega
  · refine ⟨_, rfl, ⟨fun hhonest => hsum.mp hhonest.count, fun hcases => ?_⟩⟩
    have hcount := hsum.mpr hcases
    refine ⟨hcount, fun _ => Nat.pos_of_ne_zero ?_⟩
    rwa [totalCases, hcount] at htotal

/-- **Of every corpus that is accepted, the count is honest exactly if** nothing that is
left out has test cases. -/
theorem replayCorpusProto_honest_iff {dirs : List Path}
    (h : collectCorpusDirs disk corpusPath = .ok dirs) (hne : dirs ≠ []) :
    ∃ replay, replayCorpusProto disk dirs = .ok replay ∧
      (HonestCount disk replay ↔ NothingLeftOut disk corpusPath) := by
  obtain ⟨hdirs, hcases⟩ := collectCorpusDirs_spec h hne
  obtain ⟨replay, hreplay, hhonest⟩ := replayCorpusProto_spec hdirs
  exact ⟨replay, hreplay, hhonest.trans hcases⟩

/-! ### A directory of crashes -/

/-- A directory with one file. -/
def oneCase (name : String) : Disk := fun path =>
  if path = [name] then some (.dir ["id0"])
  else if path = [name, "id0"] then some .file
  else none

theorem nothingLeftOut_seeds : NothingLeftOut (oneCase "seeds") ["seeds"] := by
  have hnone : fuzzerInstances (oneCase "seeds") ["seeds"] = [] := by decide +kernel
  refine ⟨fun inst hinst => ?_, fun _ hleft => absurd hleft (by decide +kernel)⟩
  rw [hnone] at hinst
  exact absurd hinst List.not_mem_nil

/-- A plain corpus of one test case. -/
theorem replayCorpusProto_honest_seeds :
    ∃ replay, replayCorpusProto (oneCase "seeds") [["seeds"]] = .ok replay ∧
      HonestCount (oneCase "seeds") replay := by
  obtain ⟨replay, hreplay, hhonest⟩ :=
    @replayCorpusProto_honest_iff (oneCase "seeds") ["seeds"] [["seeds"]] (by decide +kernel)
      (by decide)
  exact ⟨replay, hreplay, hhonest.mpr nothingLeftOut_seeds⟩

/-- **A plain corpus called `crashes`** is counted, and nothing is handed over. -/
theorem not_honest_crashes :
    collectCorpusDirs (oneCase "crashes") ["crashes"] = .ok [["crashes"]] ∧
      replayCorpusProto (oneCase "crashes") [["crashes"]] = .ok ⟨1, []⟩ ∧
      ¬ HonestCount (oneCase "crashes") ⟨1, []⟩ := by
  refine ⟨by decide +kernel, by decide +kernel, fun h => ?_⟩
  exact absurd h.count (by decide)

end Apatchy
