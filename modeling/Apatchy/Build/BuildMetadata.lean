import Apatchy.Build.BuildConfig
import Apatchy.Foundations.Machine

/-!
# The metadata of a branch

`make --tree lf` and `make --tree cov` build an alternate tree each and write its
metadata, from which later steps take the flags. The flags are made anew at every
`make`; but `ensure_build` compiles nothing when it finds the tree built, and whether it
does depends on the configuration of the root only. So when the compiler or an
ignorelist changed in between, the metadata names flags that nothing was compiled with
(`Apatchy.makes_not_recordsTruth`).

The metadata is true as long as each `make` that finds its tree built also finds what the
build depends on as it was when the tree was compiled (`Apatchy.FindsSameInputs`):
`Apatchy.makes_recordsTruth` says so of all runs.
-/

namespace Apatchy

variable (sha : Sha256) (fw : Framework) (httpdRoot : String)

/-! ### Branches -/

/-- The branches, by the argument of `--tree`. -/
inductive Branch
  | lf
  | cov
deriving DecidableEq, Repr

/-- The argument itself. -/
def Branch.tree : Branch → String
  | .lf => "lf"
  | .cov => "cov"

/-- `mode_map`. -/
def Branch.mode : Branch → BuildMode
  | .lf => .libfuzzer
  | .cov => .coverage

/-- The alternate tree of a branch. -/
def Branch.alternate (b : Branch) : AlternateBuildTree := ⟨httpdRoot, "-" ++ b.tree⟩

/-- The machine, the root and its branches. -/
structure BuildState where
  /-- What is found on the machine. -/
  toolchain : Toolchain
  /-- The root. -/
  root : HttpdTree
  /-- The alternate trees. -/
  alt : Branch → Option AltTree

namespace BuildState

/-- The root and the tree of a branch. -/
def trees (b : Branch) (d : BuildState) : Trees := ⟨d.root, d.alt b⟩

/-- Change the root and the tree of a branch. -/
def putTrees (b : Branch) (trees : Trees) (d : BuildState) : BuildState :=
  { d with root := trees.root, alt := Function.update d.alt b trees.alt }

end BuildState

/-! ### `configure` -/

/-- The version in the name of a root, `httpd-` and three numbers. -/
def extractVersionFromPath (httpdRoot : String) : Option String :=
  let name := ((httpdRoot.toList.splitOn '/').getLast?).getD []
  if startsWith "httpd-" (String.ofList name) then
    let version := name.drop 6
    let major := version.takeWhile Char.isDigit
    let afterMajor := version.dropWhile Char.isDigit
    let minor := (afterMajor.drop 1).takeWhile Char.isDigit
    let afterMinor := (afterMajor.drop 1).dropWhile Char.isDigit
    let patch := (afterMinor.drop 1).takeWhile Char.isDigit
    if major ≠ [] ∧ afterMajor.head? = some '.' ∧ minor ≠ [] ∧ afterMinor.head? = some '.' ∧
        patch ≠ [] then
      some (String.ofList (major ++ '.' :: minor ++ '.' :: patch))
    else none
  else none

/-- What `./configure` did: the root as it left it, and whether it succeeded. -/
structure ConfigureRun where
  /-- The root, its metadata apart. -/
  left : HttpdTree
  /-- Whether it succeeded. -/
  ok : Bool := true

/-- `configure_httpd`: run `./configure`, and save the metadata of the root. -/
def configureHttpd (options : Sanitizers) (run : ConfigureRun) : Script BuildState Bool := do
  let d ← Script.get
  let httpdVersion := extractVersionFromPath httpdRoot
  let cm : ConfigManager := { options with buildMode := .vanilla }
  let config := cm.generateBuildConfig fw d.toolchain httpdVersion
  let root := { run.left with buildMeta := d.root.buildMeta }
  Script.modify fun d => { d with root }
  -- a command that fails raises, and nothing is saved
  if run.ok then do
    let buildMeta : BuildMeta :=
      { tree := "vanilla"
        cc := config.cc.getD "clang"
        cflags := config.cflags
        ldflags := config.ldflags
        asan := options.asan
        ubsan := options.ubsan
        ubsanIgnorelist := options.ubsanIgnorelist
        intsan := options.intsan
        truncsan := options.truncsan
        httpdVersion := httpdVersion.getD ""
        configHash := configHash sha root }
    Script.modify fun d => { d with root := { root with buildMeta := some buildMeta } }
    pure true
  else Script.fail "command failed"

/-! ### `make --tree lf` and `make --tree cov` -/

/-- The sanitizers that a branch inherits. -/
def BuildMeta.sanitizers (rootMeta : BuildMeta) : Sanitizers :=
  { asan := rootMeta.asan
    ubsan := rootMeta.ubsan
    ubsanIgnorelist := rootMeta.ubsanIgnorelist
    intsan := rootMeta.intsan
    truncsan := rootMeta.truncsan }

/-- `branch_config`, with the compiler. -/
def branchFlags (tc : Toolchain) (b : Branch) (rootMeta : BuildMeta) : Flags :=
  let cm : ConfigManager := { rootMeta.sanitizers with buildMode := b.mode }
  let config := cm.generateBuildConfig fw tc (some rootMeta.httpdVersion)
  ⟨tc.cc, config.cflags, config.ldflags⟩

/-- `branch_meta`. -/
def branchMeta (b : Branch) (flags : Flags) (rootMeta : BuildMeta) : BuildMeta :=
  { tree := b.tree
    cc := flags.cc
    cflags := flags.cflags
    ldflags := flags.ldflags
    asan := rootMeta.asan
    ubsan := rootMeta.ubsan
    ubsanIgnorelist := rootMeta.ubsanIgnorelist
    intsan := rootMeta.intsan
    truncsan := rootMeta.truncsan
    httpdVersion := rootMeta.httpdVersion
    configHash := rootMeta.configHash }

/-- `_handle_compile`, for a branch, where the external commands succeed: whether it got
to the end. Without a configured root it says so and returns. -/
def handleCompile (b : Branch) (bear database : Bool) : Script BuildState Bool := do
  let d ← Script.get
  match d.root.buildMeta with
  | none => pure false
  | some rootMeta => do
    let flags := branchFlags fw d.toolchain b rootMeta
    Script.zoom (BuildState.trees b) (BuildState.putTrees b)
      ((b.alternate httpdRoot).ensureBuild sha flags bear { database })
    -- saved whether `ensure_build` has built something or found the tree built
    Script.zoom (BuildState.trees b) (BuildState.putTrees b)
      (AlternateBuildTree.onAlt fun alt =>
        { alt with buildMeta := some (branchMeta b flags rootMeta) })
    pure true

/-! ### Runs -/

/-- A step that concerns the metadata of a branch. -/
inductive MakeEvent
  | configure (options : Sanitizers) (run : ConfigureRun)
  | changeToolchain (toolchain : Toolchain)
  | make (branch : Branch) (bear database : Bool)

/-- What a step runs. -/
def MakeEvent.script : MakeEvent → Script BuildState Bool
  | .configure options run => configureHttpd sha fw httpdRoot options run
  | .changeToolchain toolchain => do
    Script.modify fun d => { d with toolchain }
    pure true
  | .make branch bear database => handleCompile sha fw httpdRoot branch bear database

/-- What a build depends on, by the metadata of the root. -/
def BuildState.inputs (d : BuildState) : Option BuildInputs :=
  d.root.buildMeta.map fun rootMeta =>
    rootMeta.sanitizers.inputs fw d.toolchain (some rootMeta.httpdVersion)

/-- Whether `make` for a branch finds its tree built. -/
def BuildState.findsBuilt (b : Branch) (d : BuildState) : Bool :=
  (b.alternate httpdRoot).fastPath sha (d.trees b)

/-- What is there, and what no file says: what each branch depended on when it was last
compiled. -/
structure BuildHistory extends BuildState where
  /-- What each branch depended on when it was last compiled. -/
  compiledWith : Branch → Option BuildInputs := fun _ => none

/-- A machine and a root, without branches. -/
def BuildHistory.fresh (toolchain : Toolchain) (root : HttpdTree) : BuildHistory :=
  ⟨⟨toolchain, root, fun _ => none⟩, fun _ => none⟩

/-- What is known of the last compilations after a step. -/
def MakeEvent.compiled (d : BuildHistory) : MakeEvent → Branch → Option BuildInputs
  | .make branch _ _ =>
    match d.inputs fw with
    | none => d.compiledWith
    | some i =>
      if d.findsBuilt sha httpdRoot branch then d.compiledWith
      else Function.update d.compiledWith branch (some i)
  | _ => d.compiledWith

/-- **The builds of the branches**, one after another. -/
def makes : Machine BuildHistory MakeEvent (Except String Bool) where
  step d event :=
    (((event.script sha fw httpdRoot).run d.toBuildState).1,
      { ((event.script sha fw httpdRoot).run d.toBuildState).2 with
        compiledWith := event.compiled sha fw httpdRoot d })

/-! ### Metadata that is true -/

/-- **The metadata of a tree is true**: it names the compiler and the flags that the
tree was last made with. -/
def RecordsTruth (alt : AltTree) : Prop :=
  ∃ record ∈ alt.buildMeta, alt.made = some ⟨record.cc, record.cflags, record.ldflags⟩

instance : DecidablePred RecordsTruth :=
  fun alt => inferInstanceAs (Decidable (∃ record ∈ alt.buildMeta, _))

/-- **After a `make` the metadata is true**, if it got to the end. -/
def MakesTruth (e : Machine.Entry BuildHistory MakeEvent (Except String Bool)) : Prop :=
  match e.input with
  | .make branch _ _ => e.answer.toOption = some true → ∃ alt ∈ e.post.alt branch, RecordsTruth alt
  | _ => True

instance : DecidablePred MakesTruth
  | ⟨_, .make branch _ _, _, post⟩ =>
    inferInstanceAs (Decidable (_ → ∃ alt ∈ post.alt branch, RecordsTruth alt))
  | ⟨_, .configure _ _, _, _⟩ => inferInstanceAs (Decidable True)
  | ⟨_, .changeToolchain _, _, _⟩ => inferInstanceAs (Decidable True)

/-- **A step finds the same inputs**: if it is a `make` that finds its tree built, then
what the build depends on is as it was when the tree was compiled. -/
def FindsSameInputs (d : BuildHistory) : MakeEvent → Prop
  | .make branch _ _ =>
    ∀ i ∈ d.inputs fw, d.findsBuilt sha httpdRoot branch = true → d.compiledWith branch = some i
  | _ => True

instance (d : BuildHistory) : DecidablePred (FindsSameInputs sha fw httpdRoot d)
  | .make _ _ _ => inferInstanceAs (Decidable (∀ i ∈ d.inputs fw, _))
  | .configure _ _ => inferInstanceAs (Decidable True)
  | .changeToolchain _ => inferInstanceAs (Decidable True)

/-- A framework in its usual place. -/
def sampleFramework : Framework where
  projectRoot := "/opt/apatchy"
  harnessesDir := "/opt/apatchy/framework/harnesses"
  inSpecifierSet versions version := versions = "<=2.4.58" ∧ version = "2.4.58"

/-- A machine with one clang and no ignorelists. -/
def sampleToolchain (clang : String) : Toolchain where
  clang := some clang
  resolve := id
  pathExists _ := false

/-- A run of four steps: the root is configured, the branch is made, another clang is
installed, and the branch is made again. -/
theorem makes_not_recordsTruth :
    ¬∀ e ∈ (makes sampleSha sampleFramework "/work/httpd-2.4.58").trace
        (.fresh (sampleToolchain "/usr/bin/clang-14") {})
        [.configure {} ⟨sampleRoot, true⟩, .make .lf false false,
          .changeToolchain (sampleToolchain "/usr/bin/clang-18"), .make .lf false false],
      MakesTruth e := by
  decide +kernel

/-! ### What a `make` does -/

/-- The flags of a branch, from what its build depends on. -/
theorem branchFlags_eq (tc : Toolchain) (b : Branch) (rootMeta : BuildMeta) :
    branchFlags fw tc b rootMeta =
      (rootMeta.sanitizers.inputs fw tc (some rootMeta.httpdVersion)).flags b.mode :=
  ConfigManager.generateBuildConfig_eq fw tc { rootMeta.sanitizers with buildMode := b.mode } _

/-- The end of a `make`: the tree of the branch is built, and its metadata is written. -/
theorem run_saveMeta {b : Branch} {d : BuildState} {build : Script Trees Unit} {alt : AltTree}
    (hbuild : build.run (d.trees b) = (.ok (), { d.trees b with alt := some alt }))
    (record : BuildMeta) :
    ((do
      Script.zoom (BuildState.trees b) (BuildState.putTrees b) build
      Script.zoom (BuildState.trees b) (BuildState.putTrees b)
        (AlternateBuildTree.onAlt fun alt => { alt with buildMeta := some record })
      pure true : Script BuildState Bool)).run d =
      (.ok true, { d with
        alt := Function.update d.alt b (some { alt with buildMeta := some record }) }) := by
  have hfirst : (Script.zoom (BuildState.trees b) (BuildState.putTrees b) build).run d =
      (.ok (), { d with alt := Function.update d.alt b (some alt) }) := by
    rw [Script.run_zoom, hbuild]
    rfl
  rw [Script.run_bind_of_ok hfirst]
  simp [Script.run_zoom, AlternateBuildTree.onAlt, BuildState.trees, BuildState.putTrees]

/-- **What `make` for a branch can do**: return for want of a configured root, or write
the metadata into the tree that it found built, or into one that it made with the flags
in it. -/
theorem handleCompile_cases (b : Branch) (bear database : Bool) (d : BuildState) :
    (d.inputs fw = none ∧
        (handleCompile sha fw httpdRoot b bear database).run d = (.ok false, d)) ∨
      ∃ rootMeta i alt, d.inputs fw = some i ∧
        (handleCompile sha fw httpdRoot b bear database).run d =
          (.ok true, { d with
            alt := Function.update d.alt b
              (some { alt with buildMeta := some (branchMeta b (i.flags b.mode) rootMeta) }) }) ∧
        ((d.findsBuilt sha httpdRoot b = true ∧ alt ∈ d.alt b) ∨
          (d.findsBuilt sha httpdRoot b = false ∧ alt.made = some (i.flags b.mode))) := by
  rw [handleCompile, Script.run_bind_of_ok (Script.run_get d)]
  rcases hmeta : d.root.buildMeta with _ | rootMeta
  · exact Or.inl ⟨by rw [BuildState.inputs, hmeta]; rfl, rfl⟩
  refine Or.inr ⟨rootMeta, rootMeta.sanitizers.inputs fw d.toolchain (some rootMeta.httpdVersion),
    ?_⟩
  rw [← branchFlags_eq]
  rcases (b.alternate httpdRoot).ensureBuild_cases sha (branchFlags fw d.toolchain b rootMeta) bear
    { database } (d.trees b) with ⟨hfast, hrun⟩ | ⟨-, hfails, -⟩ | ⟨hslow, -, -, hrun⟩
  · obtain ⟨alt, halt, hprepared, -⟩ := AlternateBuildTree.exists_of_fastPath _ _ hfast
    refine ⟨alt, by rw [BuildState.inputs, hmeta]; rfl, ?_, Or.inl ⟨hfast, halt⟩⟩
    rw [hprepared] at hrun
    exact run_saveMeta hrun _
  · -- the external commands succeed
    rcases hfails with h | h <;> exact absurd rfl h
  · exact ⟨_, by rw [BuildState.inputs, hmeta]; rfl, run_saveMeta hrun _, Or.inr ⟨hslow, rfl⟩⟩

/-! ### What is known of the trees -/

variable {sha fw httpdRoot}

/-- **The trees are what they were made with**: each was made with the flags that what
it depended on at its last compilation leads to. -/
def MadeAsCompiled (d : BuildHistory) : Prop :=
  ∀ b, ∀ alt ∈ d.alt b, ∃ i ∈ d.compiledWith b, alt.made = some (i.flags b.mode)

/-- `configure` leaves the alternate trees alone. -/
theorem configureHttpd_alt (options : Sanitizers) (run : ConfigureRun) (d : BuildState) :
    ((configureHttpd sha fw httpdRoot options run).run d).2.alt = d.alt := by
  rcases run with ⟨left, _ | _⟩ <;> rfl

/-- A `make` leaves the trees as they were made, or makes one and remembers with what. -/
theorem madeAsCompiled_step (d : BuildHistory) (event : MakeEvent) (h : MadeAsCompiled d) :
    MadeAsCompiled ((makes sha fw httpdRoot).step d event).2 := by
  cases event with
  | configure options run =>
    intro b alt halt
    simp only [makes, MakeEvent.script, configureHttpd_alt] at halt
    exact h b alt halt
  | changeToolchain toolchain => exact h
  | make branch bear database =>
    intro b alt halt
    simp only [makes, MakeEvent.script, MakeEvent.compiled] at halt ⊢
    rcases handleCompile_cases sha fw httpdRoot branch bear database d.toBuildState with
      ⟨hnone, hrun⟩ | ⟨rootMeta, i, built, hi, hrun, hbuilt⟩
    · rw [hrun] at halt
      rw [hnone]
      exact h b alt halt
    rw [hrun] at halt
    rw [hi]
    simp only at halt ⊢
    by_cases hb : b = branch
    · subst hb
      rw [Function.update_self] at halt
      obtain rfl := Option.some.inj halt
      rcases hbuilt with ⟨hfound, hthere⟩ | ⟨hmakes, hmade⟩
      · -- found built, the tree is the one there was
        rw [if_pos hfound]
        exact h b built hthere
      · rw [if_neg (by rw [hmakes]; exact Bool.false_ne_true), Function.update_self]
        exact ⟨i, rfl, hmade⟩
    · -- the other branch is left alone
      rw [Function.update_of_ne hb] at halt
      obtain ⟨j, hj, hmade⟩ := h b alt halt
      refine ⟨j, ?_, hmade⟩
      split_ifs
      · exact hj
      · rw [Function.update_of_ne hb]
        exact hj

/-! ### When the metadata is true -/

/-- Metadata that was just written is true if the tree was made with what it names. -/
theorem recordsTruth_iff {alt : AltTree} {record : BuildMeta} :
    RecordsTruth { alt with buildMeta := some record } ↔
      alt.made = some ⟨record.cc, record.cflags, record.ldflags⟩ := by
  constructor
  · rintro ⟨written, hwritten, hmade⟩
    obtain rfl := Option.some.inj hwritten
    exact hmade
  · intro hmade
    exact ⟨record, rfl, hmade⟩

/-- **When a `make` writes metadata that is true**: exactly when, if it finds its tree
built, what the build depends on still leads to the flags it led to when the tree was
compiled. -/
theorem makesTruth_iff (d : BuildHistory) (h : MadeAsCompiled d) (branch : Branch)
    (bear database : Bool) :
    MakesTruth ⟨d, .make branch bear database,
        ((makes sha fw httpdRoot).step d (.make branch bear database)).1,
        ((makes sha fw httpdRoot).step d (.make branch bear database)).2⟩ ↔
      ∀ i ∈ d.inputs fw, d.findsBuilt sha httpdRoot branch = true →
        ∀ j ∈ d.compiledWith branch, j.flags branch.mode = i.flags branch.mode := by
  simp only [makes, MakeEvent.script, MakesTruth]
  rcases handleCompile_cases sha fw httpdRoot branch bear database d.toBuildState with
    ⟨hnone, hrun⟩ | ⟨rootMeta, i, built, hi, hrun, hbuilt⟩
  · rw [hrun, hnone]
    constructor
    · rintro - i hi
      exact absurd hi (by simp)
    · intro _ hfalse
      exact absurd hfalse (by simp [Except.toOption])
  rw [hrun, hi]
  constructor
  · -- a tree that was found built keeps what it was made with
    rintro htruth i' hi' hfound j hj
    obtain rfl := Option.some.inj hi'
    obtain ⟨alt, halt, hrecord⟩ := htruth rfl
    simp only [Function.update_self] at halt
    obtain rfl := Option.some.inj halt
    have hmade := recordsTruth_iff.mp hrecord
    rcases hbuilt with ⟨-, hthere⟩ | ⟨hmakes, -⟩
    · obtain ⟨j', hj', hbefore⟩ := h branch built hthere
      rw [hj] at hj'
      obtain rfl := Option.some.inj hj'
      exact Option.some.inj (hbefore.symm.trans hmade)
    · rw [hmakes] at hfound
      exact absurd hfound Bool.false_ne_true
  · -- what is recorded is what the tree was made with, just now or when it was compiled
    rintro hsame -
    refine ⟨_, Function.update_self .., recordsTruth_iff.mpr ?_⟩
    rcases hbuilt with ⟨hfound, hthere⟩ | ⟨-, hmade⟩
    · obtain ⟨j, hj, hmade⟩ := h branch built hthere
      exact hmade.trans (congrArg some (hsame i rfl hfound j hj))
    · exact hmade

/-- A step that finds the same inputs writes metadata that is true. -/
theorem makesTruth_step (d : BuildHistory) (event : MakeEvent) (h : MadeAsCompiled d)
    (hsame : FindsSameInputs sha fw httpdRoot d event) :
    MakesTruth ⟨d, event, ((makes sha fw httpdRoot).step d event).1,
      ((makes sha fw httpdRoot).step d event).2⟩ := by
  cases event with
  | configure options run => trivial
  | changeToolchain toolchain => trivial
  | make branch bear database =>
    rw [makesTruth_iff d h]
    rintro i hi hfound j hj
    have hcompiled := hsame i hi hfound
    rw [hj] at hcompiled
    obtain rfl := Option.some.inj hcompiled
    rfl

/-- **The metadata of the branches is true** in every run whose steps find the same
inputs. -/
theorem makes_recordsTruth (sha : Sha256) (fw : Framework) (httpdRoot : String)
    (toolchain : Toolchain) (root : HttpdTree) (events : List MakeEvent)
    (hsame : ∀ e ∈ (makes sha fw httpdRoot).trace (.fresh toolchain root) events,
      FindsSameInputs sha fw httpdRoot e.pre e.input) :
    ∀ e ∈ (makes sha fw httpdRoot).trace (.fresh toolchain root) events, MakesTruth e := by
  have hstart : MadeAsCompiled (.fresh toolchain root) :=
    fun b alt halt => absurd halt (by simp [BuildHistory.fresh])
  exact (makes sha fw httpdRoot).forall_mem_trace
    (fun d event h _ => madeAsCompiled_step d event h) makesTruth_step hstart hsame

/-- A clang that comes and goes does no harm. -/
theorem makes_recordsTruth_five :
    (((makes sampleSha sampleFramework "/work/httpd-2.4.58").run
        (.fresh (sampleToolchain "/usr/bin/clang-14") {})
        [.configure {} ⟨sampleRoot, true⟩, .make .lf false false,
          .changeToolchain (sampleToolchain "/usr/bin/clang-18"),
          .changeToolchain (sampleToolchain "/usr/bin/clang-14"), .make .lf false false]).1.map
          Except.isOk) = [true, true, true, true, true] ∧
      ∀ e ∈ (makes sampleSha sampleFramework "/work/httpd-2.4.58").trace
          (.fresh (sampleToolchain "/usr/bin/clang-14") {})
          [.configure {} ⟨sampleRoot, true⟩, .make .lf false false,
            .changeToolchain (sampleToolchain "/usr/bin/clang-18"),
            .changeToolchain (sampleToolchain "/usr/bin/clang-14"), .make .lf false false],
        MakesTruth e :=
  ⟨by decide +kernel, makes_recordsTruth sampleSha sampleFramework "/work/httpd-2.4.58"
    (sampleToolchain "/usr/bin/clang-14") {} _ (by decide +kernel)⟩

end Apatchy
