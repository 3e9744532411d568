import Apatchy.Foundations.Script
import Apatchy.Foundations.Text

/-!
# The harness builder

`HarnessBuilder.build` compiles a harness and links it into a binary. Which source
it takes is decided by `Apatchy.HarnessSources.resolveHarness` from what files exist; the
compilers, the linker and what they leave behind are the outside world, so a build
takes its outcome as an argument (`Apatchy.LinkOutcome`).

The state is what the coverage builds of the framework share
(`Apatchy.CoverageFiles`): the binary `fuzz_harness_coverage`, the stamp
`.cov_harness_name` and the `-cov` tree. Of the binary is kept when it was written,
and, what no file says, the source it was built from.
-/

namespace Apatchy

/-! ### Harness sources -/

/-- The files that harness names are resolved against. -/
structure HarnessSources where
  /-- `Config.HARNESSES_DIR`. -/
  harnessesDir : String
  /-- Whether a path exists. -/
  pathExists : String → Bool
  /-- `Path.resolve`. -/
  realpath : String → String

namespace HarnessSources

variable (srcs : HarnessSources)

/-- `HARNESSES_DIR / name`: an absolute name stays what it is. -/
def inHarnessesDir (name : String) : String :=
  if startsWith "/" name then name else srcs.harnessesDir ++ "/" ++ name

/-- `HarnessBuilder.resolve_harness`. -/
def resolveHarness (name : String) : Option String :=
  let bundled := srcs.inHarnessesDir (name ++ ".c")
  if srcs.pathExists bundled then some bundled
  else
    let bundledCc := srcs.inHarnessesDir (name ++ ".cc")
    if srcs.pathExists bundledCc then some bundledCc
    else if srcs.pathExists name then some name
    else none

/-- The source that a build takes for a harness name, the empty name standing for
the default harness. -/
def source (name : String) : Option String :=
  (srcs.resolveHarness (if name = "" then "mod_fuzzy_proto" else name)).map srcs.realpath

end HarnessSources

/-! ### Building the coverage harness -/

/-- A built harness. -/
structure HarnessBinary where
  /-- When it was written. -/
  mtime : ℕ
  /-- The source it was built from. -/
  source : String
deriving DecidableEq, Repr

/-- What the compiler and the linker did. -/
inductive LinkOutcome
  /-- They succeeded. -/
  | linked
  /-- One of them failed before the binary was touched. -/
  | failed
  /-- One of them failed, and the binary is gone. -/
  | removed
  /-- Something failed after the binary was written. -/
  | failedAfterLink
deriving DecidableEq, Repr

/-- Whether a build writes the binary. -/
def LinkOutcome.writes : LinkOutcome → Bool
  | .linked => true
  | .failed => false
  | .removed => false
  | .failedAfterLink => true

/-- What the coverage builds share. -/
structure CoverageFiles where
  /-- The file clock. -/
  clock : ℕ := 0
  /-- The name of the `-cov` tree. -/
  covRootName : String := "httpd-cov"
  /-- Whether the `-cov` tree exists. -/
  covTree : Bool := false
  /-- When `server/libmain.la` of the `-cov` tree was written, if it is there. -/
  libmain : Option ℕ := none
  /-- `fuzz_harness_coverage`, if it is there. -/
  harness : Option HarnessBinary := none
  /-- The text of `.cov_harness_name`, if it is there. -/
  stamp : Option String := none

/-- `HarnessBuilder.build` with `mode="coverage"`. -/
def buildHarness (srcs : HarnessSources) (harnessName : String) (outcome : LinkOutcome) :
    Script CoverageFiles Unit := do
  match srcs.source harnessName with
  | none =>
    let name := if harnessName = "" then "mod_fuzzy_proto" else harnessName
    Script.fail s!"Harness '{name}' not found"
  | some source =>
    let files ← Script.get
    let binary : HarnessBinary := { mtime := files.clock, source }
    match outcome with
    | .linked => Script.modify fun files => { files with harness := some binary }
    | .failed => Script.fail "command failed"
    -- the linker has taken the old binary away
    | .removed => do
      Script.modify fun files => { files with harness := none }
      Script.fail "command failed"
    -- the binary is there, and a command after the link fails
    | .failedAfterLink => do
      Script.modify fun files => { files with harness := some binary }
      Script.fail "command failed"

/-- **What a build can do**: it touches the binary only, and what it writes there is
built from the source of the harness it was asked for. -/
theorem buildHarness_spec (srcs : HarnessSources) (harnessName : String) (outcome : LinkOutcome)
    (files : CoverageFiles) :
    ∃ harness, ((buildHarness srcs harnessName outcome).run files).2 = { files with harness } ∧
      ((harness = files.harness ∨ harness = none) ∨
        outcome.writes = true ∧ ∃ source, srcs.source harnessName = some source ∧
          harness = some ⟨files.clock, source⟩) := by
  rw [buildHarness]
  rcases srcs.source harnessName with _ | source
  · exact ⟨files.harness, rfl, Or.inl (Or.inl rfl)⟩
  · cases outcome
    · exact ⟨_, rfl, Or.inr ⟨rfl, source, rfl, rfl⟩⟩
    · exact ⟨files.harness, rfl, Or.inl (Or.inl rfl)⟩
    · exact ⟨none, rfl, Or.inl (Or.inr rfl)⟩
    · exact ⟨_, rfl, Or.inr ⟨rfl, source, rfl, rfl⟩⟩

end Apatchy
