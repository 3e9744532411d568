import Apatchy.Build.HarnessBuilder
import Apatchy.Foundations.Machine

/-!
# The cached coverage harness

Coverage reports need `fuzz_harness_coverage`, and `_build_coverage_harness` builds
it unless it is up to date: the stamp `.cov_harness_name` names the harness asked
for, and the binary is newer than the `-cov` tree. But the stamp is written here
only, while `link --tree cov` and the setup of a bug write the same binary.

So the binary that is returned is the one asked for as long as every step that
writes the binary leaves a stamp beside it that names the same harness
(`Apatchy.KeepsStampTrue`): `Apatchy.coverageBuilds_returnsAsked` says so of all
runs, and `Apatchy.coverageBuilds_not_returnsAsked` is a run of four steps that
returns another harness.
-/

namespace Apatchy

variable (srcs : HarnessSources)

/-! ### The steps -/

/-- What bringing the `-cov` tree up to date did. -/
inductive TreeOutcome
  /-- It was up to date. -/
  | ready
  /-- It was built. -/
  | rebuilt
  /-- Building it failed, and left `server/libmain.la` or not. -/
  | failed (libmain : Bool)
deriving DecidableEq, Repr

/-- Bring the `-cov` tree up to date. -/
def rebuildTree : TreeOutcome → Script CoverageFiles Unit
  | .ready => Script.modify fun files => { files with covTree := true }
  | .rebuilt =>
    Script.modify fun files =>
      { files with covTree := true, libmain := some files.clock, clock := files.clock + 1 }
  | .failed libmain => do
    Script.modify fun files =>
      { files with
        covTree := true
        libmain := if libmain then some files.clock else none
        clock := files.clock + 1 }
    Script.fail "command failed"

/-- Whether the stamp names the harness asked for. -/
def nameMatches (files : CoverageFiles) (harnessName : String) : Bool :=
  (files.stamp.map fun text => strip (readText text)) = some harnessName

/-- Whether the binary is newer than the tree. -/
def mtimeOk (files : CoverageFiles) : Bool :=
  match files.harness, files.libmain with
  | some harness, some libmain => decide (libmain < harness.mtime)
  | _, _ => false

/-- `_build_coverage_harness`: it returns the path of the binary. -/
def buildCoverageHarness (harnessName : Option String) (outcome : LinkOutcome) :
    Script CoverageFiles Unit := do
  let files ← Script.get
  if files.covTree = false then
    let name := files.covRootName
    Script.fail s!"Coverage tree not found at {name}/. Run 'apatchy make --tree cov' first."
  else if nameMatches files (harnessName.getD "") ∧ mtimeOk files then
    pure ()
  else do
    -- where this raises, the stamp stays as it was
    buildHarness srcs (harnessName.getD "") outcome
    let files ← Script.get
    if files.harness.isNone then
      Script.fail "Failed to build fuzz_harness_coverage"
    else
      Script.modify fun files => { files with stamp := some (harnessName.getD "") }

/-- `link --tree cov`. Without the tree it says so and returns. -/
def linkCov (harnessName : Option String) (outcome : LinkOutcome) :
    Script CoverageFiles Unit := do
  let files ← Script.get
  if files.covTree = false then pure () else buildHarness srcs (harnessName.getD "") outcome

/-- `BugManager.setup`, as far as it concerns the coverage harness. -/
def setupBug (harness : String) (tree : TreeOutcome) (outcome : LinkOutcome) :
    Script CoverageFiles Unit := do
  rebuildTree tree
  buildHarness srcs harness outcome

/-- A step of the framework that concerns the coverage harness. -/
inductive CoverageEvent
  | buildCoverageHarness (harnessName : Option String) (outcome : LinkOutcome)
  | link (harnessName : Option String) (outcome : LinkOutcome)
  | setup (harness : String) (tree : TreeOutcome) (outcome : LinkOutcome)
  | rebuildTree (tree : TreeOutcome)

/-- What a step runs. -/
def CoverageEvent.script : CoverageEvent → Script CoverageFiles Unit
  | .buildCoverageHarness harnessName outcome =>
    Apatchy.buildCoverageHarness srcs harnessName outcome
  | .link harnessName outcome => linkCov srcs harnessName outcome
  | .setup harness tree outcome => setupBug srcs harness tree outcome
  | .rebuildTree tree => Apatchy.rebuildTree tree

/-- **The coverage builds of the framework**, one after another: time passes between
them. -/
def coverageBuilds : Machine CoverageFiles CoverageEvent (Except String Unit) where
  step files event :=
    let (answer, files) := (event.script srcs).run files
    (answer, { files with clock := files.clock + 1 })

/-! ### The harness asked for -/

/-- The binary was built from a harness. -/
def BuiltFrom (files : CoverageFiles) (harnessName : String) : Prop :=
  ∃ binary ∈ files.harness, srcs.source harnessName = some binary.source

instance (files : CoverageFiles) (harnessName : String) :
    Decidable (BuiltFrom srcs files harnessName) :=
  inferInstanceAs (Decidable (∃ binary ∈ files.harness, _))

/-- **What is returned was asked for**: where `_build_coverage_harness` returns, the
binary was built from the harness it was called with. -/
def ReturnsAsked (e : Machine.Entry CoverageFiles CoverageEvent (Except String Unit)) : Prop :=
  match e.input with
  | .buildCoverageHarness harnessName _ =>
    e.answer.isOk = true → BuiltFrom srcs e.post (harnessName.getD "")
  | _ => True

instance : DecidablePred (ReturnsAsked srcs)
  | ⟨_, .buildCoverageHarness _ _, _, _⟩ => inferInstanceAs (Decidable (_ → BuiltFrom ..))
  | ⟨_, .link _ _, _, _⟩ => inferInstanceAs (Decidable True)
  | ⟨_, .setup _ _ _, _, _⟩ => inferInstanceAs (Decidable True)
  | ⟨_, .rebuildTree _, _, _⟩ => inferInstanceAs (Decidable True)

/-- Two harnesses, `a` and `b`. -/
def sampleSources : HarnessSources where
  harnessesDir := "harnesses"
  pathExists path := path = "harnesses/a.c" ∨ path = "harnesses/b.c"
  realpath := id

/-- A run of four steps: the tree is built and the harness `a` for it, `b` is linked,
and who then asks for `a` is given `b`. -/
theorem coverageBuilds_not_returnsAsked :
    ¬∀ e ∈ (coverageBuilds sampleSources).trace {}
        [.rebuildTree .rebuilt, .buildCoverageHarness (some "a") .linked,
          .link (some "b") .linked, .buildCoverageHarness (some "a") .linked],
      ReturnsAsked sampleSources e := by
  decide

/-! ### A stamp that is true -/

/-- A stamp with this text names this harness: read back, it leads to the same source.
A harness without a source is built by nobody. -/
def StampNames (text harnessName : String) : Prop :=
  srcs.source harnessName = none ∨ srcs.source (strip (readText text)) = srcs.source harnessName

/-- Whether a step gets as far as building the harness. -/
def CoverageEvent.builds (files : CoverageFiles) : CoverageEvent → Bool
  | .buildCoverageHarness harnessName _ =>
    files.covTree && !(nameMatches files (harnessName.getD "") && mtimeOk files)
  | .link _ _ => files.covTree
  | .setup _ (.failed _) _ => false
  | .setup _ _ _ => true
  | .rebuildTree _ => false

/-- What a step that builds must know of the stamp: if it writes the binary, then
either it writes the stamp as well, and the name survives being read back, or the
stamp that is there, if there is one, names the harness it builds. -/
def StampSuits (files : CoverageFiles) : CoverageEvent → Prop
  | .buildCoverageHarness harnessName .linked =>
    StampNames srcs (harnessName.getD "") (harnessName.getD "")
  | .buildCoverageHarness harnessName outcome =>
    outcome.writes = true → ∀ text ∈ files.stamp, StampNames srcs text (harnessName.getD "")
  | .link harnessName outcome =>
    outcome.writes = true → ∀ text ∈ files.stamp, StampNames srcs text (harnessName.getD "")
  | .setup harness _ outcome =>
    outcome.writes = true → ∀ text ∈ files.stamp, StampNames srcs text harness
  | .rebuildTree _ => True

/-- **A step keeps the stamp true** if it builds nothing, or the stamp suits what it
builds. -/
def KeepsStampTrue (files : CoverageFiles) (event : CoverageEvent) : Prop :=
  event.builds files = true → StampSuits srcs files event

instance (text harnessName : String) : Decidable (StampNames srcs text harnessName) :=
  inferInstanceAs (Decidable (_ ∨ _))

instance (files : CoverageFiles) : DecidablePred (StampSuits srcs files)
  | .buildCoverageHarness _ .linked => inferInstanceAs (Decidable (StampNames ..))
  | .buildCoverageHarness _ .failedAfterLink =>
    inferInstanceAs (Decidable (_ → ∀ text ∈ files.stamp, StampNames ..))
  | .buildCoverageHarness _ .failed =>
    inferInstanceAs (Decidable (_ → ∀ text ∈ files.stamp, StampNames ..))
  | .buildCoverageHarness _ .removed =>
    inferInstanceAs (Decidable (_ → ∀ text ∈ files.stamp, StampNames ..))
  | .link _ _ => inferInstanceAs (Decidable (_ → ∀ text ∈ files.stamp, StampNames ..))
  | .setup _ _ _ => inferInstanceAs (Decidable (_ → ∀ text ∈ files.stamp, StampNames ..))
  | .rebuildTree _ => inferInstanceAs (Decidable True)

instance (files : CoverageFiles) : DecidablePred (KeepsStampTrue srcs files) :=
  fun _ => inferInstanceAs (Decidable (_ → _))

/-- **The stamp is true**: it names the harness that the binary was built from. -/
def StampTrue (files : CoverageFiles) : Prop :=
  ∀ text ∈ files.stamp, ∀ binary ∈ files.harness,
    srcs.source (strip (readText text)) = some binary.source

variable {srcs}

/-- A build keeps the stamp true if the stamp names what it builds. -/
theorem stampTrue_buildHarness {files : CoverageFiles} (h : StampTrue srcs files)
    {harnessName : String} {outcome : LinkOutcome}
    (hstamp : outcome.writes = true → ∀ text ∈ files.stamp, StampNames srcs text harnessName) :
    StampTrue srcs ((buildHarness srcs harnessName outcome).run files).2 := by
  obtain ⟨harness, hrun, (rfl | rfl) | ⟨hwrites, source, hsource, rfl⟩⟩ :=
    buildHarness_spec srcs harnessName outcome files
  · rw [hrun]
    exact h
  · rw [hrun]
    exact fun text _ binary hbinary => absurd hbinary (by simp)
  · rw [hrun]
    rintro text htext binary hbinary
    obtain rfl := Option.some.inj hbinary
    rcases hstamp hwrites text htext with hnone | hsame
    · rw [hsource] at hnone
      exact absurd hnone (Option.some_ne_none source)
    · rw [hsame, hsource]

theorem rebuildTree_spec (tree : TreeOutcome) (files : CoverageFiles) :
    ((rebuildTree tree).run files).2.harness = files.harness ∧
      ((rebuildTree tree).run files).2.stamp = files.stamp := by
  cases tree <;> exact ⟨rfl, rfl⟩

/-- **What `_build_coverage_harness` can do**: find the binary up to date; stop, before
a build or in one, without touching the stamp; or build and write the stamp. -/
theorem buildCoverageHarness_cases (srcs : HarnessSources) (harnessName : Option String)
    (outcome : LinkOutcome) (files : CoverageFiles) :
    ((nameMatches files (harnessName.getD "") = true ∧ mtimeOk files = true) ∧
        (buildCoverageHarness srcs harnessName outcome).run files = (.ok (), files)) ∨
      (∃ e, (buildCoverageHarness srcs harnessName outcome).run files = (.error e, files)) ∨
      ((CoverageEvent.buildCoverageHarness harnessName outcome).builds files = true ∧
        ((outcome ≠ .linked ∧ ∃ e, (buildCoverageHarness srcs harnessName outcome).run files =
            (.error e, ((buildHarness srcs (harnessName.getD "") outcome).run files).2)) ∨
          (outcome = .linked ∧ ∃ source, srcs.source (harnessName.getD "") = some source ∧
            (buildCoverageHarness srcs harnessName outcome).run files =
              (.ok (), { files with
                harness := some ⟨files.clock, source⟩
                stamp := some (harnessName.getD "") })))) := by
  rw [buildCoverageHarness, Script.run_bind_of_ok (Script.run_get files)]
  by_cases htree : files.covTree = false
  · rw [if_pos htree]
    exact Or.inr (Or.inl ⟨_, rfl⟩)
  rw [if_neg htree]
  by_cases hcached : nameMatches files (harnessName.getD "") ∧ mtimeOk files
  · rw [if_pos hcached]
    exact Or.inl ⟨hcached, rfl⟩
  rw [if_neg hcached]
  rcases hsource : srcs.source (harnessName.getD "") with _ | source
  · have hrun : ∃ e, (buildHarness srcs (harnessName.getD "") outcome).run files =
        (.error e, files) := by
      rw [buildHarness, hsource]
      exact ⟨_, rfl⟩
    obtain ⟨e, he⟩ := hrun
    exact Or.inr (Or.inl ⟨e, Script.run_bind_of_error he _⟩)
  · have hbuilds : (CoverageEvent.buildCoverageHarness harnessName outcome).builds files =
        true := by
      have hcov : files.covTree = true := Bool.of_not_eq_false htree
      have hnot : (nameMatches files (harnessName.getD "") && mtimeOk files) = false := by
        rwa [← Bool.not_eq_true, Bool.and_eq_true]
      rw [CoverageEvent.builds, hcov, hnot]
      rfl
    refine Or.inr (Or.inr ⟨hbuilds, ?_⟩)
    -- the source is there, and what happens is what the linker does
    rcases outcome
    case linked =>
      have hrun : (buildHarness srcs (harnessName.getD "") .linked).run files =
          (.ok (), { files with harness := some ⟨files.clock, source⟩ }) := by
        rw [buildHarness, hsource]
        rfl
      refine Or.inr ⟨rfl, source, rfl, ?_⟩
      rw [Script.run_bind_of_ok hrun]
      rfl
    all_goals
      refine Or.inl ⟨by decide, "command failed", Script.run_bind_of_error ?_ _⟩
      rw [buildHarness, hsource]
      rfl

/-- What is found up to date is what was asked for. -/
theorem builtFrom_of_upToDate {files : CoverageFiles} (h : StampTrue srcs files)
    {harnessName : String} (hname : nameMatches files harnessName = true)
    (hmtime : mtimeOk files = true) : BuiltFrom srcs files harnessName := by
  obtain ⟨text, htext, hread⟩ := Option.map_eq_some_iff.mp (of_decide_eq_true hname)
  rcases hharness : files.harness with _ | binary
  · simp [mtimeOk, hharness] at hmtime
  · refine ⟨binary, hharness, ?_⟩
    rw [← hread]
    exact h text htext binary hharness

/-- **A step keeps the stamp true**, under its condition. -/
theorem stampTrue_step (files : CoverageFiles) (event : CoverageEvent)
    (h : StampTrue srcs files) (hkeeps : KeepsStampTrue srcs files event) :
    StampTrue srcs ((coverageBuilds srcs).step files event).2 := by
  cases event with
  | buildCoverageHarness harnessName outcome =>
    simp only [coverageBuilds, CoverageEvent.script]
    rcases buildCoverageHarness_cases srcs harnessName outcome files with
      ⟨-, hrun⟩ | ⟨e, hrun⟩ | ⟨hbuilds, ⟨hne, e, hrun⟩ | ⟨rfl, source, hsource, hrun⟩⟩
    · rw [hrun]
      exact h
    · rw [hrun]
      exact h
    · rw [hrun]
      refine stampTrue_buildHarness h ?_
      cases outcome
      · exact absurd rfl hne
      all_goals exact hkeeps hbuilds
    · -- the binary and the stamp were written together
      rw [hrun]
      rintro text htext binary hbinary
      obtain rfl := Option.some.inj htext
      obtain rfl := Option.some.inj hbinary
      rcases hkeeps hbuilds with hnone | hsame
      · rw [hsource] at hnone
        exact absurd hnone (Option.some_ne_none source)
      · rw [hsame, hsource]
  | link harnessName outcome =>
    simp only [coverageBuilds, CoverageEvent.script, linkCov]
    rw [Script.run_bind_of_ok (Script.run_get files)]
    split_ifs with htree
    · exact h
    · exact stampTrue_buildHarness h (hkeeps (Bool.of_not_eq_false htree))
  | setup harness tree outcome =>
    simp only [coverageBuilds, CoverageEvent.script, setupBug]
    obtain ⟨hharness, hstamp⟩ := rebuildTree_spec tree files
    have htree : StampTrue srcs ((rebuildTree tree).run files).2 := by
      rw [StampTrue, hharness, hstamp]
      exact h
    -- a tree that failed to build stops the setup before it links
    rcases tree
    case failed => exact htree
    all_goals
      refine stampTrue_buildHarness htree fun hwrites text htext => ?_
      rw [hstamp] at htext
      exact hkeeps rfl hwrites text htext
  | rebuildTree tree =>
    obtain ⟨hharness, hstamp⟩ := rebuildTree_spec tree files
    show StampTrue srcs ((rebuildTree tree).run files).2
    rw [StampTrue, hharness, hstamp]
    exact h

/-- Where `_build_coverage_harness` returns, it returns what it was asked for. -/
theorem returnsAsked_step (files : CoverageFiles) (event : CoverageEvent)
    (h : StampTrue srcs files) :
    ReturnsAsked srcs ⟨files, event, ((coverageBuilds srcs).step files event).1,
      ((coverageBuilds srcs).step files event).2⟩ := by
  cases event with
  | buildCoverageHarness harnessName outcome =>
    simp only [coverageBuilds, CoverageEvent.script, ReturnsAsked]
    rcases buildCoverageHarness_cases srcs harnessName outcome files with
      ⟨⟨hname, hmtime⟩, hrun⟩ | ⟨e, hrun⟩ | ⟨-, ⟨-, e, hrun⟩ | ⟨-, source, hsource, hrun⟩⟩
    · rw [hrun]
      exact fun _ => builtFrom_of_upToDate h hname hmtime
    · rw [hrun]
      exact fun hok => absurd hok Bool.false_ne_true
    · rw [hrun]
      exact fun hok => absurd hok Bool.false_ne_true
    · rw [hrun]
      exact fun _ => ⟨_, rfl, hsource⟩
  | link harnessName outcome => trivial
  | setup harness tree outcome => trivial
  | rebuildTree tree => trivial

/-- **The cached coverage harness is the one asked for** in every run whose steps keep
the stamp true. -/
theorem coverageBuilds_returnsAsked (srcs : HarnessSources) (events : List CoverageEvent)
    (hkeeps : ∀ e ∈ (coverageBuilds srcs).trace {} events, KeepsStampTrue srcs e.pre e.input) :
    ∀ e ∈ (coverageBuilds srcs).trace {} events, ReturnsAsked srcs e := by
  have hstart : StampTrue srcs {} := fun text htext => absurd htext (by simp)
  exact (coverageBuilds srcs).forall_mem_trace stampTrue_step
    (fun files event h _ => returnsAsked_step files event h) hstart hkeeps

/-- Linking the harness that the stamp names does no harm: every step returns. -/
theorem coverageBuilds_returnsAsked_three :
    (((coverageBuilds sampleSources).run {}
        [.rebuildTree .rebuilt, .buildCoverageHarness (some "a") .linked,
          .link (some "a") .linked, .buildCoverageHarness (some "a") .linked]).1.map
          Except.isOk) = [true, true, true, true] ∧
      ∀ e ∈ (coverageBuilds sampleSources).trace {}
          [.rebuildTree .rebuilt, .buildCoverageHarness (some "a") .linked,
            .link (some "a") .linked, .buildCoverageHarness (some "a") .linked],
        ReturnsAsked sampleSources e :=
  ⟨by decide, coverageBuilds_returnsAsked sampleSources _ (by decide)⟩

end Apatchy
