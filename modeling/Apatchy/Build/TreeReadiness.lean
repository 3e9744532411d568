import Apatchy.Build.BuildTree
import Apatchy.Foundations.Machine

/-!
# When an alternate tree is ready

`ensure_build` takes a tree as built when two files are there: `.config_hash`, which is
written after a build that succeeded, and `server/libmain.la`. The hash goes away only
with the tree. So a `make` that runs later in a tree that has one – by `build_bitcode`,
or by `ensure_build` itself when `server/libmain.la` is missing – and fails after
`server/libmain.la` was made, leaves a tree that looks ready and is not
(`Apatchy.treeRuns_not_returnsReady`).

As long as no step does that (`Apatchy.SparesMarkers`), what the two files say is true
(`Apatchy.Honest`), and `ensure_build` returns only with a tree that is built and was
copied from the root's configuration (`Apatchy.treeRuns_returnsReady`).
-/

namespace Apatchy

variable (sha : Sha256) (t : AlternateBuildTree)

/-! ### The steps -/

/-- `build_bitcode`, as far as the `-cov` tree is concerned: without a compilation
database it cleans the tree, whether that works or not, and makes it under `bear`.
What it does after that leaves the tree alone. -/
def buildBitcode (cc : String) (run : MakeRun) : Script Trees Unit := do
  let d ← Script.get
  match d.alt with
  | none => Script.fail "No such file or directory"
  | some alt =>
    if alt.compileCommands then pure ()
    else do
      -- the hash of the last build stays where it is
      let flags : Flags := ⟨cc, alt.configVars.cflags, alt.configVars.ldflags⟩
      AlternateBuildTree.onAlt (AltTree.afterClean run)
      if run.clean = .notStarted then Script.fail "No such file or directory: 'make'"
      else do
        AlternateBuildTree.onAlt (AltTree.afterMake flags true run)
        if run.make = .notStarted then Script.fail "No such file or directory: 'bear'"
        else pure ()

/-- A tree after `build_bitcode`. -/
def afterBitcode (cc : String) (run : MakeRun) (alt : AltTree) : AltTree :=
  if alt.compileCommands ∨ run.clean = .notStarted then alt
  else (alt.afterClean run).afterMake ⟨cc, alt.configVars.cflags, alt.configVars.ldflags⟩ true run

/-- **What `build_bitcode` leaves**, whether it returns or stops. -/
theorem buildBitcode_state (cc : String) (run : MakeRun) (d : Trees) :
    ((buildBitcode cc run).run d).2 = { d with alt := d.alt.map (afterBitcode cc run) } := by
  rw [buildBitcode, Script.run_bind_of_ok (Script.run_get d)]
  rcases d with ⟨root, _ | alt⟩
  · rfl
  · rcases hdatabase : alt.compileCommands with _ | _
    · by_cases hclean : run.clean = .notStarted
      · simp [AlternateBuildTree.onAlt, afterBitcode, AltTree.afterClean, hdatabase, hclean]
      · by_cases hmake : run.make = .notStarted
        · simp [AlternateBuildTree.onAlt, afterBitcode, hdatabase, hclean, hmake]
        · simp [AlternateBuildTree.onAlt, afterBitcode, hdatabase, hclean, hmake]
    · simp [afterBitcode, hdatabase]

/-- A step of the framework that concerns an alternate tree. -/
inductive TreeEvent
  | ensureBuild (flags : Flags) (bear : Bool) (run : MakeRun)
  | reconfigure (root : HttpdTree)
  | buildBitcode (cc : String) (run : MakeRun)

/-- What a step runs. -/
def TreeEvent.script : TreeEvent → Script Trees Unit
  | .ensureBuild flags bear run => t.ensureBuild sha flags bear run
  | .reconfigure root => Script.modify fun d => { d with root }
  | .buildBitcode cc run => Apatchy.buildBitcode cc run

/-- **The builds of an alternate tree**, one after another. -/
def treeRuns : Machine Trees TreeEvent (Except String Unit) where
  step d event := (event.script sha t).run d

/-! ### Ready trees -/

/-- **A tree is ready**: the last `make` in it ran to completion after the last
`make clean`, and it was copied from the configuration that the root has. -/
def Ready (d : Trees) : Prop :=
  ∃ alt ∈ d.alt, alt.made.isSome = true ∧ alt.copiedHash = configHash sha d.root

instance (d : Trees) : Decidable (Ready sha d) :=
  inferInstanceAs (Decidable (∃ alt ∈ d.alt, _))

/-- **What is reported ready is ready**: where `ensure_build` returns, the tree is. -/
def ReturnsReady (e : Machine.Entry Trees TreeEvent (Except String Unit)) : Prop :=
  match e.input with
  | .ensureBuild _ _ _ => e.answer.isOk = true → Ready sha e.post
  | _ => True

instance : DecidablePred (ReturnsReady sha)
  | ⟨_, .ensureBuild _ _ _, _, _⟩ => inferInstanceAs (Decidable (_ → Ready ..))
  | ⟨_, .reconfigure _, _, _⟩ => inferInstanceAs (Decidable True)
  | ⟨_, .buildBitcode _ _, _, _⟩ => inferInstanceAs (Decidable True)

/-- A run of three steps: the tree is built, `build_bitcode` makes it again and fails
after `server/libmain.la`, and `ensure_build` finds it ready. -/
theorem treeRuns_not_returnsReady :
    ¬∀ e ∈ (treeRuns sampleSha ⟨"/work/httpd-2.4.58", "-cov"⟩).trace ⟨sampleRoot, none⟩
        [.ensureBuild ⟨"clang", "-g", ""⟩ false {},
          .buildBitcode "clang" { make := .failed true },
          .ensureBuild ⟨"clang", "-g", ""⟩ false {}],
      ReturnsReady sampleSha e := by
  decide +kernel

/-! ### Markers that are true -/

/-- **The external commands spoil a tree**: `make` did not complete after a
`make clean`, and `server/libmain.la` is there all the same. -/
def MakeRun.spoils (run : MakeRun) (libmain : Bool) : Bool :=
  match run.clean, run.make with
  | .notStarted, _ => false
  | _, .completed => false
  | _, .failed left => left
  | .ok, .notStarted => false
  | .failed left, .notStarted => libmain && left

/-- **A step spares the markers**: where it runs `make` in a tree with a hash, it does
not spoil it. That is a tree `ensure_build` keeps but finds without
`server/libmain.la`, and any tree with a hash in which `build_bitcode` finds no
compilation database. -/
def SparesMarkers (d : Trees) : TreeEvent → Prop
  | .ensureBuild _ _ run =>
    ∀ alt ∈ d.alt, t.keeps sha d.root alt = true → alt.libmain = false → run.clean = .ok →
      run.spoils false = false
  | .reconfigure _ => True
  | .buildBitcode _ run =>
    ∀ alt ∈ d.alt, alt.configHash.isSome = true → alt.compileCommands = false →
      run.spoils alt.libmain = false

instance (d : Trees) : DecidablePred (SparesMarkers sha t d)
  | .ensureBuild _ _ _ => inferInstanceAs (Decidable (∀ alt ∈ d.alt, _))
  | .reconfigure _ => inferInstanceAs (Decidable True)
  | .buildBitcode _ _ => inferInstanceAs (Decidable (∀ alt ∈ d.alt, _))

/-- **The markers of a tree are true**: the hash, if there is one, is that of the
configuration it was copied from, and with it `server/libmain.la` says that the tree is
built. -/
def Honest (alt : AltTree) : Prop :=
  ∀ text ∈ alt.configHash,
    strip (readText text) = alt.copiedHash ∧ (alt.libmain = true → alt.made.isSome = true)

variable {sha t}

/-- Unless it was spoiled, a tree with `server/libmain.la` is built. -/
theorem made_of_libmain {alt : AltTree} {flags : Flags} {bear : Bool} {run : MakeRun}
    (hclean : run.clean ≠ .notStarted) (hspoils : run.spoils alt.libmain = false)
    (hlibmain : ((alt.afterClean run).afterMake flags bear run).libmain = true) :
    ((alt.afterClean run).afterMake flags bear run).made.isSome = true := by
  rcases hc : run.clean with _ | left | _
  · rcases hm : run.make with _ | left | _ <;>
      simp_all [AltTree.afterMake, AltTree.afterClean, MakeRun.spoils]
  · rcases hm : run.make with _ | left | _ <;>
      simp_all [AltTree.afterMake, AltTree.afterClean, MakeRun.spoils]
  · exact absurd hc hclean

/-- `make clean` and `make` leave the markers true, unless they spoil a tree with a
hash. -/
theorem honest_make {alt : AltTree} (h : Honest alt) {flags : Flags} {bear : Bool}
    {run : MakeRun} (hclean : run.clean ≠ .notStarted)
    (hspares : alt.configHash.isSome = true → run.spoils alt.libmain = false) :
    Honest ((alt.afterClean run).afterMake flags bear run) := by
  intro text htext
  rw [AltTree.configHash_afterMake, AltTree.configHash_afterClean] at htext
  refine ⟨?_, made_of_libmain hclean (hspares (Option.isSome_iff_exists.mpr ⟨text, htext⟩))⟩
  rw [AltTree.copiedHash_afterMake, AltTree.copiedHash_afterClean]
  exact (h text htext).1

/-- A build by `ensure_build` leaves the markers true, unless it spoils a tree with a
hash: there `server/libmain.la` was missing. -/
theorem honest_built {alt : AltTree} (h : Honest alt) {flags : Flags} {bear : Bool}
    {run : MakeRun}
    (hspares : alt.configHash.isSome = true →
      alt.libmain = false ∧ (run.clean = .ok → run.spoils false = false)) :
    Honest (AlternateBuildTree.built flags bear run alt) := by
  have hpatched : Honest { alt with configVars := flags } := h
  simp only [AlternateBuildTree.built]
  by_cases hclean : run.clean = .ok
  · rw [if_pos hclean]
    refine honest_make hpatched (by simp [hclean]) fun hhash => ?_
    obtain ⟨hmissing, hspoils⟩ := hspares hhash
    rw [show run.spoils alt.libmain = run.spoils false by rw [hmissing]]
    exact hspoils hclean
  · rw [if_neg hclean]
    intro text htext
    rw [AltTree.configHash_afterClean] at htext
    obtain ⟨hmissing, -⟩ := hspares (Option.isSome_iff_exists.mpr ⟨text, htext⟩)
    rw [AltTree.copiedHash_afterClean]
    refine ⟨(h text htext).1, fun hlibmain => ?_⟩
    -- of a file that is missing, `make clean` leaves nothing
    rcases hrun : run.clean with _ | left | _
    · exact absurd hrun hclean
    · simp [AltTree.afterClean, hrun, hmissing] at hlibmain
    · simp [AltTree.afterClean, hrun, hmissing] at hlibmain

/-- **What `ensure_build` builds in** is a tree whose markers are true, copied from the
configuration the root has. -/
theorem honest_prepared {d : Trees} (h : ∀ alt ∈ d.alt, Honest alt) :
    Honest (t.prepared sha d) ∧ (t.prepared sha d).copiedHash = configHash sha d.root := by
  have hcopy : Honest (t.copy sha d.root) ∧
      (t.copy sha d.root).copiedHash = configHash sha d.root :=
    ⟨fun text htext => absurd htext (by simp [AlternateBuildTree.copy]), rfl⟩
  rcases d with ⟨root, _ | alt⟩
  · exact hcopy
  · simp only [AlternateBuildTree.prepared]
    by_cases hkeeps : t.keeps sha root alt
    · rw [if_pos hkeeps]
      have halt := h alt rfl
      refine ⟨halt, ?_⟩
      have hmatches := (Bool.and_eq_true_iff.mp hkeeps).2
      obtain ⟨text, htext, hread⟩ := Option.map_eq_some_iff.mp (of_decide_eq_true hmatches)
      rw [← (halt text htext).1, hread]
    · rw [if_neg hkeeps]
      exact hcopy

/-- The tree that `ensure_build` builds in has a hash only if it was kept. -/
theorem keeps_of_configHash {d : Trees} (h : (t.prepared sha d).configHash.isSome = true) :
    ∃ alt ∈ d.alt, t.prepared sha d = alt ∧ t.keeps sha d.root alt = true := by
  rcases d with ⟨root, _ | alt⟩
  · exact absurd h Bool.false_ne_true
  · simp only [AlternateBuildTree.prepared] at h ⊢
    by_cases hkeeps : t.keeps sha root alt
    · rw [if_pos hkeeps]
      exact ⟨alt, rfl, rfl, hkeeps⟩
    · rw [if_neg hkeeps] at h
      exact absurd h Bool.false_ne_true

/-- A build that succeeded leaves the markers true, and the tree ready. -/
theorem honest_saved {flags : Flags} {bear : Bool} {run : MakeRun} {alt : AltTree}
    {root : HttpdTree} (hcopied : alt.copiedHash = configHash sha root)
    (hclean : run.clean = .ok) (hmake : run.make = .completed) :
    (AlternateBuildTree.built flags bear run alt).made.isSome = true ∧
      Honest { AlternateBuildTree.built flags bear run alt with
        configHash := some (configHash sha root) } := by
  have hmade : (AlternateBuildTree.built flags bear run alt).made.isSome = true := by
    simp [AlternateBuildTree.built, hclean, AltTree.afterMake, hmake]
  refine ⟨hmade, ?_⟩
  rintro text htext
  obtain rfl := Option.some.inj htext
  refine ⟨?_, fun _ => hmade⟩
  rw [strip_configHash, AlternateBuildTree.copiedHash_built, hcopied]

/-- **A step leaves the markers true**, if it spares them. -/
theorem honest_step (d : Trees) (event : TreeEvent) (h : ∀ alt ∈ d.alt, Honest alt)
    (hspares : SparesMarkers sha t d event) :
    ∀ alt ∈ ((treeRuns sha t).step d event).2.alt, Honest alt := by
  cases event with
  | ensureBuild flags bear run =>
    obtain ⟨hprepared, hcopied⟩ := honest_prepared h
    simp only [treeRuns, TreeEvent.script]
    rcases t.ensureBuild_cases sha flags bear run d with
      ⟨-, hrun⟩ | ⟨hslow, -, e, hrun⟩ | ⟨-, hclean, hmake, hrun⟩
    · rw [hrun]
      rintro alt halt
      obtain rfl := Option.some.inj halt
      exact hprepared
    · rw [hrun]
      rintro alt halt
      obtain rfl := Option.some.inj halt
      refine honest_built hprepared fun hhash => ?_
      obtain ⟨kept, hkept, heq, hkeeps⟩ := keeps_of_configHash hhash
      -- the tree was kept and has a hash, so what is missing is `server/libmain.la`
      have hmissing : (t.prepared sha d).libmain = false := by
        rw [AlternateBuildTree.fastPath, hhash, Bool.and_true] at hslow
        exact hslow
      refine ⟨hmissing, hspares kept hkept hkeeps ?_⟩
      rw [← heq]
      exact hmissing
    · rw [hrun]
      rintro alt halt
      obtain rfl := Option.some.inj halt
      exact (honest_saved hcopied hclean hmake).2
  | reconfigure root => exact h
  | buildBitcode cc run =>
    simp only [treeRuns, TreeEvent.script, buildBitcode_state]
    rintro made hmade
    obtain ⟨alt, halt, rfl⟩ := Option.map_eq_some_iff.mp hmade
    rw [afterBitcode]
    split_ifs with hskips
    · exact h alt halt
    · -- `make` ran: the guard is about a tree that has a hash
      obtain ⟨hdatabase, hclean⟩ := not_or.mp hskips
      refine honest_make (h alt halt) hclean fun hhash => ?_
      exact hspares alt halt hhash (Bool.of_not_eq_true hdatabase)

/-- **Where `ensure_build` returns**, a tree whose markers are true is ready. -/
theorem returnsReady_step (d : Trees) (event : TreeEvent) (h : ∀ alt ∈ d.alt, Honest alt) :
    ReturnsReady sha ⟨d, event, ((treeRuns sha t).step d event).1,
      ((treeRuns sha t).step d event).2⟩ := by
  cases event with
  | ensureBuild flags bear run =>
    obtain ⟨hprepared, hcopied⟩ : Honest (t.prepared sha d) ∧
        (t.prepared sha d).copiedHash = configHash sha d.root := honest_prepared h
    simp only [treeRuns, TreeEvent.script, ReturnsReady]
    rcases t.ensureBuild_cases sha flags bear run d with
      ⟨hfast, hrun⟩ | ⟨-, -, e, hrun⟩ | ⟨-, hclean, hmake, hrun⟩
    · rw [hrun]
      intro _
      obtain ⟨hlibmain, hhash⟩ := Bool.and_eq_true_iff.mp hfast
      obtain ⟨text, htext⟩ := Option.isSome_iff_exists.mp hhash
      exact ⟨_, rfl, (hprepared text htext).2 hlibmain, hcopied⟩
    · rw [hrun]
      exact fun hok => absurd hok Bool.false_ne_true
    · rw [hrun]
      intro _
      refine ⟨_, rfl, (honest_saved hcopied hclean hmake).1, ?_⟩
      rw [AlternateBuildTree.copiedHash_built]
      exact hcopied
  | reconfigure root => trivial
  | buildBitcode cc run => trivial

/-- **A tree is reported ready only when it is**, in every run whose steps spare the
markers. -/
theorem treeRuns_returnsReady (sha : Sha256) (t : AlternateBuildTree) (root : HttpdTree)
    (events : List TreeEvent)
    (hspares : ∀ e ∈ (treeRuns sha t).trace ⟨root, none⟩ events,
      SparesMarkers sha t e.pre e.input) :
    ∀ e ∈ (treeRuns sha t).trace ⟨root, none⟩ events, ReturnsReady sha e := by
  have hstart : ∀ alt ∈ (⟨root, none⟩ : Trees).alt, Honest alt :=
    fun alt halt => absurd halt (by simp)
  exact (treeRuns sha t).forall_mem_trace honest_step
    (fun d event h _ => returnsReady_step d event h) hstart hspares

/-- A failure of `build_bitcode` before `server/libmain.la` does no harm: the tree is
built again. -/
theorem treeRuns_returnsReady_three :
    (((treeRuns sampleSha ⟨"/work/httpd-2.4.58", "-cov"⟩).run ⟨sampleRoot, none⟩
        [.ensureBuild ⟨"clang", "-g", ""⟩ false {},
          .buildBitcode "clang" { make := .failed false },
          .ensureBuild ⟨"clang", "-g", ""⟩ false {}]).1.map Except.isOk) = [true, true, true] ∧
      ∀ e ∈ (treeRuns sampleSha ⟨"/work/httpd-2.4.58", "-cov"⟩).trace ⟨sampleRoot, none⟩
          [.ensureBuild ⟨"clang", "-g", ""⟩ false {},
            .buildBitcode "clang" { make := .failed false },
            .ensureBuild ⟨"clang", "-g", ""⟩ false {}],
        ReturnsReady sampleSha e :=
  ⟨by decide +kernel,
    treeRuns_returnsReady sampleSha ⟨"/work/httpd-2.4.58", "-cov"⟩ sampleRoot _
      (by decide +kernel)⟩

end Apatchy
