import Apatchy.Foundations.Script
import Apatchy.Foundations.Text
import Mathlib.Tactic.SplitIfs

/-!
# Alternate build trees

An alternate build tree is a copy of the configured httpd tree that is compiled with
flags of its own. `AlternateBuildTree.ensure_build` makes the copy, rebuilds it when
it has to, and tells from two files whether it has to: `.config_hash`, the hash of the
root's configuration, and `server/libmain.la`. `IntrospectorManager.build_bitcode`
runs `make` in the same tree for reasons of its own.

What an external command does is an argument of the run (`Apatchy.MakeRun`): it may
succeed, fail with or without having produced `server/libmain.la`, or not start. Of a
tree are kept the files that are looked at, and two things that no file says: with
which flags the last `make` ran, if it ran to completion after the last `make clean`
(`made`), and which configuration the root had when it was copied (`copiedHash`).
-/

namespace Apatchy

/-! ### Trees -/

/-- Compiler and flags. -/
structure Flags where
  /-- `CC`. -/
  cc : String
  /-- `CFLAGS`. -/
  cflags : String
  /-- `LDFLAGS`. -/
  ldflags : String
deriving DecidableEq, Repr

/-- The metadata of a tree, `.apatchy_build.json`. -/
structure BuildMeta where
  /-- Which tree it is. -/
  tree : String
  /-- The compiler. -/
  cc : String := "clang"
  /-- The compiler flags. -/
  cflags : String := ""
  /-- The linker flags. -/
  ldflags : String := ""
  /-- AddressSanitizer. -/
  asan : Bool := false
  /-- UndefinedBehaviorSanitizer. -/
  ubsan : Bool := false
  /-- Its ignorelist. -/
  ubsanIgnorelist : Option String := none
  /-- The unsigned overflow sanitizer. -/
  intsan : Bool := false
  /-- The truncation sanitizer. -/
  truncsan : Bool := false
  /-- The version of httpd. -/
  httpdVersion : String := ""
  /-- The hash of the root's configuration. -/
  configHash : String := ""
deriving DecidableEq, Repr

/-- An httpd tree, as far as the framework looks at it. -/
structure HttpdTree where
  /-- The lines of `config.status`. -/
  configStatus : Option (List String) := none
  /-- The text of `Makefile`. -/
  makefile : Option String := none
  /-- The compiler and flags in its configuration files. -/
  configVars : Flags := ⟨"", "", ""⟩
  /-- Whether `server/libmain.la` is there. -/
  libmain : Bool := false
  /-- Whether `compile_commands.json` is there. -/
  compileCommands : Bool := false
  /-- Its metadata. -/
  buildMeta : Option BuildMeta := none

/-- An alternate tree. -/
structure AltTree extends HttpdTree where
  /-- The text of `.config_hash`. -/
  configHash : Option String := none
  /-- With which flags the last `make` ran, if it ran to completion after the last
  `make clean`. -/
  made : Option Flags := none
  /-- The hash of the root's configuration when the tree was copied. -/
  copiedHash : String

/-- A root and one alternate tree of it. -/
structure Trees where
  /-- The root. -/
  root : HttpdTree
  /-- The alternate tree, if it exists. -/
  alt : Option AltTree := none

/-- The digits of a digest. -/
def isHexDigit (c : Char) : Bool := "0123456789abcdef".toList.contains c

/-- **SHA-256**, of which only this is used: its digests are hexadecimal. -/
structure Sha256 where
  /-- The digest of a line. -/
  hexdigest : String → String
  /-- A digest is made of hexadecimal digits. -/
  hex : ∀ line, (hexdigest line).toList.all isHexDigit = true

/-- `config_hash`: the hash of the configure line. -/
def configHash (sha : Sha256) (tree : HttpdTree) : String :=
  match tree.configStatus with
  | none => ""
  | some lines =>
    match lines.find? (startsWith "ac_cs_config=") with
    | some line => sha.hexdigest line
    | none => ""

/-- A configuration hash is empty or a digest. -/
theorem configHash_cases (sha : Sha256) (tree : HttpdTree) :
    configHash sha tree = "" ∨ ∃ line, configHash sha tree = sha.hexdigest line := by
  rw [configHash]
  split
  · exact Or.inl rfl
  · split
    · exact Or.inr ⟨_, rfl⟩
    · exact Or.inl rfl

theorem isSpace_of_isHexDigit {c : Char} (h : isHexDigit c = true) : isSpace c = false := by
  have hdigits : ("0123456789abcdef".toList.all fun c => !isSpace c) = true := by decide
  have hmem : c ∈ "0123456789abcdef".toList := List.contains_iff_mem.mp h
  simpa using List.all_eq_true.mp hdigits c hmem

/-- **A configuration hash is read back as it was written.** -/
theorem strip_configHash (sha : Sha256) (tree : HttpdTree) :
    strip (readText (configHash sha tree)) = configHash sha tree := by
  refine strip_readText fun c hc => ?_
  rcases configHash_cases sha tree with hempty | ⟨line, hline⟩
  · rw [hempty] at hc
    exact absurd hc (by simp)
  · rw [hline] at hc
    exact isSpace_of_isHexDigit (List.all_eq_true.mp (sha.hex line) c hc)

/-- SHA-256 on one configure line. -/
def sampleSha : Sha256 where
  hexdigest line :=
    if line = "ac_cs_config=\"'CC=clang'\"" then
      "bcc533f2034f5a1d3dee849c9f60837a0865a0b5b45e771bc52619a41ca713a1"
    else "e3b0c44298fc1c149afbf4c8996fb92427ae41e4649b934ca495991b7852b855"
  hex line := by
    split_ifs <;> decide

/-- A root that was configured with that line. -/
def sampleRoot : HttpdTree := { configStatus := some ["ac_cs_config=\"'CC=clang'\""] }

/-! ### External commands -/

/-- What `make clean` did. -/
inductive CleanRun
  /-- It ran to completion. -/
  | ok
  /-- It failed, and `server/libmain.la`, if it was there, is still there or not. -/
  | failed (libmain : Bool)
  /-- It did not start. -/
  | notStarted
deriving DecidableEq, Repr

/-- What `make` did. -/
inductive MakeResult
  /-- It ran to completion. -/
  | completed
  /-- It failed, and `server/libmain.la` is there or not. -/
  | failed (libmain : Bool)
  /-- It did not start. -/
  | notStarted
deriving DecidableEq, Repr

/-- What the external commands of one run did. -/
structure MakeRun where
  /-- `make clean`. -/
  clean : CleanRun := .ok
  /-- `make`, under `bear` or not. -/
  make : MakeResult := .completed
  /-- Whether `bear`, if it ran, wrote `compile_commands.json`. -/
  database : Bool := true
deriving DecidableEq, Repr

namespace AltTree

/-- A tree after `make clean`. -/
def afterClean (run : MakeRun) (tree : AltTree) : AltTree :=
  match run.clean with
  | .ok => { tree with made := none, libmain := false }
  | .failed libmain => { tree with made := none, libmain := tree.libmain && libmain }
  | .notStarted => tree

/-- A tree after `make` with some flags. -/
def afterMake (flags : Flags) (bear : Bool) (run : MakeRun) (tree : AltTree) : AltTree :=
  let compileCommands := tree.compileCommands || (bear && run.database)
  match run.make with
  | .completed => { tree with made := some flags, libmain := true, compileCommands }
  | .failed libmain => { tree with made := none, libmain, compileCommands }
  | .notStarted => tree

/-! The external commands leave the hash alone, and what a tree was copied from stays
what it was. -/

@[simp] theorem configHash_afterClean (run : MakeRun) (tree : AltTree) :
    (tree.afterClean run).configHash = tree.configHash := by
  rw [afterClean]
  split <;> rfl

@[simp] theorem copiedHash_afterClean (run : MakeRun) (tree : AltTree) :
    (tree.afterClean run).copiedHash = tree.copiedHash := by
  rw [afterClean]
  split <;> rfl

@[simp] theorem configHash_afterMake (flags : Flags) (bear : Bool) (run : MakeRun)
    (tree : AltTree) : (tree.afterMake flags bear run).configHash = tree.configHash := by
  rw [afterMake]
  split <;> rfl

@[simp] theorem copiedHash_afterMake (flags : Flags) (bear : Bool) (run : MakeRun)
    (tree : AltTree) : (tree.afterMake flags bear run).copiedHash = tree.copiedHash := by
  rw [afterMake]
  split <;> rfl

end AltTree

/-! ### `AlternateBuildTree` -/

/-- `AlternateBuildTree`: the path of a root and the suffix of its alternate tree. -/
structure AlternateBuildTree where
  /-- The path of the root. -/
  httpdRoot : String
  /-- The suffix of the alternate tree. -/
  suffix : String

namespace AlternateBuildTree

variable (sha : Sha256) (t : AlternateBuildTree)

/-- The path of the alternate tree. -/
def altRoot : String := t.httpdRoot ++ t.suffix

/-- The copy of a root, with the paths in it rewritten. -/
def copy (root : HttpdTree) : AltTree :=
  { root with
    configStatus := root.configStatus.map fun lines =>
      lines.map (replaceText t.httpdRoot t.altRoot)
    makefile := root.makefile.map (replaceText t.httpdRoot t.altRoot)
    copiedHash := Apatchy.configHash sha root }

/-- `_ensure_tree`. -/
def ensureTree : Script Trees Unit :=
  Script.modify fun d =>
    match d.alt with
    | some _ => d
    | none => { d with alt := some (t.copy sha d.root) }

/-- Remove the tree and copy it again. -/
def recreate : Script Trees Unit := do
  Script.modify fun d => { d with alt := none }
  t.ensureTree sha

/-- `_needs_recreate`: whether the tree's `Makefile` is about another path. -/
def needsRecreate (alt : AltTree) : Bool :=
  match alt.makefile with
  | some text => !containsText t.altRoot text
  | none => false

/-- Whether the hash in a tree is that of the root. -/
def hashMatches (root : HttpdTree) (alt : AltTree) : Bool :=
  (alt.configHash.map fun text => strip (readText text)) = some (Apatchy.configHash sha root)

/-- The part of `ensure_build` that leaves a tree to build in: one that is not there,
is about another path, was made for another configuration or was never built is
copied again. -/
def prepare : Script Trees Unit := do
  t.ensureTree sha
  let d ← Script.get
  if d.alt.any t.needsRecreate then t.recreate sha
  let d ← Script.get
  if d.alt.any (hashMatches sha d.root) then pure () else t.recreate sha

/-- Change the alternate tree. -/
def onAlt (f : AltTree → AltTree) : Script Trees Unit :=
  Script.modify fun d => { d with alt := d.alt.map f }

/-- The part of `ensure_build` that builds: the flags are patched into the tree, the
external commands run, and the hash is saved. -/
def rebuild (flags : Flags) (bear : Bool) (run : MakeRun) : Script Trees Unit := do
  let d ← Script.get
  -- the hash is that of the root before anything is run
  let currentHash := Apatchy.configHash sha d.root
  onAlt fun alt => { alt with configVars := flags }
  onAlt (AltTree.afterClean run)
  if run.clean ≠ .ok then Script.fail "make clean"
  else do
    onAlt (AltTree.afterMake flags bear run)
    if run.make ≠ .completed then Script.fail "make"
    else onAlt fun alt => { alt with configHash := some currentHash }

/-- `ensure_build`. -/
def ensureBuild (flags : Flags) (bear : Bool) (run : MakeRun) : Script Trees Unit := do
  t.prepare sha
  let d ← Script.get
  -- the fast path looks at two files only
  if d.alt.any fun alt => alt.libmain && alt.configHash.isSome then pure ()
  else rebuild sha flags bear run

/-! ### The tree that is built in -/

/-- **A tree is kept** if it is about the right path and was built for the root's
configuration. -/
def keeps (root : HttpdTree) (alt : AltTree) : Bool :=
  !t.needsRecreate alt && hashMatches sha root alt

/-- The tree that `ensure_build` builds in: the one that is there if it is kept, and
otherwise a fresh copy. -/
def prepared (d : Trees) : AltTree :=
  match d.alt with
  | some alt => if t.keeps sha d.root alt then alt else t.copy sha d.root
  | none => t.copy sha d.root

theorem recreate_run (d : Trees) :
    (t.recreate sha).run d = (.ok (), { d with alt := some (t.copy sha d.root) }) := rfl

/-- A fresh copy has no hash of its own, so it is never taken for one that was built. -/
theorem hashMatches_copy (root : HttpdTree) :
    hashMatches sha root (t.copy sha root) = false := rfl

theorem prepare_run (d : Trees) :
    (t.prepare sha).run d = (.ok (), { d with alt := some (t.prepared sha d) }) := by
  have hfinish : ∀ alt : AltTree,
      ((do
        let d ← Script.get
        if d.alt.any (hashMatches sha d.root) then pure () else t.recreate sha :
          Script Trees Unit)).run { d with alt := some alt } =
      (.ok (), { d with alt := some (if hashMatches sha d.root alt then alt
        else t.copy sha d.root) }) := by
    intro alt
    rw [Script.run_bind_of_ok (Script.run_get _)]
    rcases hmatch : hashMatches sha d.root alt with _ | _
    · simp [hmatch, recreate_run]
    · simp [hmatch]
  have hensure : (t.ensureTree sha).run d =
      (.ok (), { d with alt := some (d.alt.getD (t.copy sha d.root)) }) := by
    rcases d with ⟨root, _ | alt⟩ <;> rfl
  -- a copy that is about another path is made again, to no effect: it has no hash
  have hprepared : t.prepared sha d =
      if t.keeps sha d.root (d.alt.getD (t.copy sha d.root)) then
        d.alt.getD (t.copy sha d.root) else t.copy sha d.root := by
    rcases d with ⟨root, _ | alt⟩
    · simp [prepared]
    · rfl
  rw [prepare, Script.run_bind_of_ok hensure, Script.run_bind_of_ok (Script.run_get _), hprepared]
  generalize d.alt.getD (t.copy sha d.root) = alt
  rcases hneeds : t.needsRecreate alt with _ | _
  · simp only [Option.any_some, hneeds, Bool.false_eq_true, if_false, keeps, Bool.not_false,
      Bool.true_and]
    exact hfinish alt
  · have hcopy := hfinish (t.copy sha d.root)
    rw [hashMatches_copy, if_neg Bool.false_ne_true] at hcopy
    simp only [Option.any_some, hneeds, if_true, keeps, Bool.not_true, Bool.false_and,
      Bool.false_eq_true, if_false]
    exact hcopy

/-! ### What `ensure_build` does -/

/-- Whether `ensure_build` takes the fast path: the tree it would build in is built. -/
def fastPath (d : Trees) : Bool :=
  (t.prepared sha d).libmain && (t.prepared sha d).configHash.isSome

/-- The tree once the external commands ran, the flags being patched in. -/
def built (flags : Flags) (bear : Bool) (run : MakeRun) (alt : AltTree) : AltTree :=
  let alt := AltTree.afterClean run { alt with configVars := flags }
  if run.clean = .ok then AltTree.afterMake flags bear run alt else alt

@[simp] theorem configHash_built (flags : Flags) (bear : Bool) (run : MakeRun) (alt : AltTree) :
    (built flags bear run alt).configHash = alt.configHash := by
  simp only [built]
  split_ifs <;> simp

@[simp] theorem copiedHash_built (flags : Flags) (bear : Bool) (run : MakeRun) (alt : AltTree) :
    (built flags bear run alt).copiedHash = alt.copiedHash := by
  simp only [built]
  split_ifs <;> simp

/-- A tree that is taken as built is one that was there. -/
theorem exists_of_fastPath {d : Trees} (h : t.fastPath sha d = true) :
    ∃ alt ∈ d.alt, t.prepared sha d = alt ∧ t.keeps sha d.root alt = true ∧
      alt.libmain = true ∧ alt.configHash.isSome = true := by
  have hparts := Bool.and_eq_true_iff.mp h
  rcases d with ⟨root, _ | alt⟩
  · exact absurd hparts.2 Bool.false_ne_true
  · simp only [prepared] at hparts ⊢
    by_cases hkeeps : t.keeps sha root alt
    · rw [if_pos hkeeps] at hparts ⊢
      exact ⟨alt, rfl, rfl, hkeeps, hparts⟩
    · rw [if_neg hkeeps] at hparts
      exact absurd hparts.2 Bool.false_ne_true

/-- **What `ensure_build` can do**: find the tree built, stop in an external command, or
build it and save the hash. -/
theorem ensureBuild_cases (flags : Flags) (bear : Bool) (run : MakeRun) (d : Trees) :
    (t.fastPath sha d = true ∧
        (t.ensureBuild sha flags bear run).run d =
          (.ok (), { d with alt := some (t.prepared sha d) })) ∨
      (t.fastPath sha d = false ∧ (run.clean ≠ .ok ∨ run.make ≠ .completed) ∧
        ∃ e, (t.ensureBuild sha flags bear run).run d =
          (.error e, { d with alt := some (built flags bear run (t.prepared sha d)) })) ∨
      (t.fastPath sha d = false ∧ run.clean = .ok ∧ run.make = .completed ∧
        (t.ensureBuild sha flags bear run).run d =
          (.ok (), { d with
            alt := some { built flags bear run (t.prepared sha d) with
              configHash := some (Apatchy.configHash sha d.root) } })) := by
  rw [ensureBuild, Script.run_bind_of_ok (t.prepare_run sha d),
    Script.run_bind_of_ok (Script.run_get _), Option.any_some]
  rcases hfast : t.fastPath sha d with _ | _
  · refine Or.inr ?_
    rw [if_neg (by rw [fastPath] at hfast; simp [hfast])]
    by_cases hclean : run.clean = .ok
    · by_cases hmake : run.make = .completed
      · exact Or.inr ⟨rfl, hclean, hmake, by simp [rebuild, onAlt, built, hclean, hmake]⟩
      · exact Or.inl ⟨rfl, Or.inr hmake, "make", by simp [rebuild, onAlt, built, hclean, hmake]⟩
    · exact Or.inl ⟨rfl, Or.inl hclean, "make clean", by simp [rebuild, onAlt, built, hclean]⟩
  · exact Or.inl ⟨rfl, by rw [if_pos (by rwa [fastPath] at hfast)]; rfl⟩

end AlternateBuildTree

end Apatchy
