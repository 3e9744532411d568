import Apatchy.Build.BuildTree
import Mathlib.Data.List.Basic

/-!
# Compiler flags

`ConfigManager.generate_build_config` makes `CFLAGS` and `LDFLAGS` from a build mode,
the sanitizers asked for and the version of httpd. What it makes of them depends on the
machine as well: which ignorelists are there, and, for the compiler, which clang is
found (`Apatchy.Toolchain`).

What it looks at is gathered in `Apatchy.BuildInputs`, and
`Apatchy.ConfigManager.generateBuildConfig_eq` says that it looks at nothing else: the
flags are a function of the build mode and these inputs.
-/

namespace Apatchy

/-! ### The machine and the framework -/

/-- What the framework finds on the machine. -/
structure Toolchain where
  /-- `resolve_tool("clang")`. A path that is found is not empty. -/
  clang : Option String
  /-- `Path.resolve`. -/
  resolve : String → String
  /-- `Path.exists`. -/
  pathExists : String → Bool

/-- Where the framework is installed, and the third-party comparison of versions. -/
structure Framework where
  /-- `Config.PROJECT_ROOT`. -/
  projectRoot : String
  /-- `Config.HARNESSES_DIR`. -/
  harnessesDir : String
  /-- `Version(version) in SpecifierSet(versions)`. -/
  inSpecifierSet : (versions version : String) → Bool

/-- `resolve_tool("clang") or "clang"`. -/
def Toolchain.cc (tc : Toolchain) : String := tc.clang.getD "clang"

/-! ### Compatibility flags -/

/-- `CompatEntry`. -/
structure CompatEntry where
  /-- Its name. -/
  id : String
  /-- The versions of httpd it is for. -/
  versions : String
  /-- What it adds to `CFLAGS`. -/
  cflags : List String := []
  /-- What it adds to `LDFLAGS`. -/
  ldflags : List String := []
  /-- What it adds to the arguments of `configure`. -/
  configureArgs : List String := []

/-- `CompatResult`. -/
structure CompatResult where
  /-- What is added to `CFLAGS`. -/
  cflags : List String
  /-- What is added to `LDFLAGS`. -/
  ldflags : List String
  /-- What is added to the arguments of `configure`. -/
  configureArgs : List String
  /-- The entries that apply. -/
  appliedIds : List String

namespace Framework

variable (fw : Framework)

/-- `OPENSSL3_COMPAT_H`. -/
def openssl3CompatH : String := fw.harnessesDir ++ "/openssl3_compat.h"

/-- `COMPAT_REGISTRY`. -/
def compatRegistry : List CompatEntry :=
  [{ id := "openssl3-deprecations"
     versions := "<=2.4.58"
     cflags := ["-Wno-error=deprecated-declarations"] },
   { id := "openssl3-removed-api"
     versions := "<=2.4.51"
     cflags := ["-Wno-error=deprecated-declarations", "-Wno-implicit-function-declaration",
       "-include " ++ fw.openssl3CompatH] },
   { id := "wo-strict-prototype"
     versions := "<=2.4.51"
     cflags := ["-Wno-strict-prototypes", "-Wno-unused-but-set-variable",
       "-Wno-single-bit-bitfield-constant-conversion"] }]

/-- `get_compat_flags`: what the entries that match a version add, in their order. -/
def getCompatFlags (httpdVersion : String) : CompatResult :=
  let applied := fw.compatRegistry.filter fun entry =>
    fw.inSpecifierSet entry.versions httpdVersion
  { cflags := applied.flatMap CompatEntry.cflags
    ldflags := applied.flatMap CompatEntry.ldflags
    configureArgs := applied.flatMap CompatEntry.configureArgs
    appliedIds := applied.map CompatEntry.id }

end Framework

/-! ### `generate_build_config` -/

/-- The build modes. -/
inductive BuildMode
  /-- The root tree: a plain debug build. -/
  | vanilla
  /-- An optimized build for fuzzing. -/
  | fuzz
  /-- The `-cov` tree. -/
  | coverage
  /-- The `-lf` tree. -/
  | libfuzzer
  /-- Any other string: a plain debug build. -/
  | other
deriving DecidableEq, Repr

/-- The flags collected so far. -/
structure FlagLists where
  /-- For `CFLAGS`. -/
  cflags : List String
  /-- For `LDFLAGS`. -/
  ldflags : List String
deriving DecidableEq, Repr

namespace FlagLists

/-- Add flags at the end. -/
def extend (f : FlagLists) (cflags ldflags : List String) : FlagLists :=
  ⟨f.cflags ++ cflags, f.ldflags ++ ldflags⟩

/-- `both`: a flag for the compiler and the linker. -/
def both (f : FlagLists) (flag : String) : FlagLists := f.extend [flag] [flag]

/-- Apply an ignorelist, if it was found. -/
def ignorelist (f : FlagLists) : Option String → FlagLists
  | some path => f.extend ["-fsanitize-ignorelist=" ++ path] []
  | none => f

@[simp] theorem extend_nil (f : FlagLists) : f.extend [] [] = f := by
  simp [extend]

end FlagLists

/-- The sanitizers asked for. -/
structure Sanitizers where
  /-- AddressSanitizer. -/
  asan : Bool := false
  /-- UndefinedBehaviorSanitizer. -/
  ubsan : Bool := false
  /-- Its ignorelist. -/
  ubsanIgnorelist : Option String := none
  /-- The unsigned overflow sanitizer. -/
  intsan : Bool := false
  /-- The truncation sanitizer. -/
  truncsan : Bool := false

/-- `ConfigManager`. -/
structure ConfigManager extends Sanitizers where
  /-- The build mode. -/
  buildMode : BuildMode := .fuzz

/-- What `generate_build_config` returns. -/
structure BuildConfig where
  /-- `CFLAGS`. -/
  cflags : String
  /-- `LDFLAGS`. -/
  ldflags : String
  /-- `CC`, if a compiler was found. -/
  cc : Option String

/-- The flags of a build mode. -/
def BuildMode.flags : BuildMode → FlagLists
  | .vanilla => ⟨["-g", "-O0", "-fno-omit-frame-pointer", "-Wno-error=format"], ["-no-pie"]⟩
  | .fuzz => (⟨["-O2", "-fno-omit-frame-pointer"], []⟩ : FlagLists).extend
      ["-Wno-error=format"] ["-no-pie"]
  | .coverage =>
    (((⟨["-g", "-O0", "-fno-omit-frame-pointer"], []⟩ : FlagLists).extend
      ["-fcoverage-mapping"] []).both "-fprofile-instr-generate").extend [] ["-no-pie"]
  | .libfuzzer =>
    ((⟨["-g", "-O0", "-fno-omit-frame-pointer"], []⟩ : FlagLists).both
      "-fsanitize=fuzzer-no-link").extend ["-Wno-error"] []
  | .other => ⟨["-g", "-O0", "-fno-omit-frame-pointer"], []⟩

/-- `_resolve_ignorelist`: in `configs` of the working directory, or else in that of the
framework. -/
def resolveIgnorelist (fw : Framework) (tc : Toolchain) (filename : String) : Option String :=
  let candidate := "configs/" ++ filename
  if tc.pathExists candidate then some (tc.resolve candidate)
  else
    let candidate := fw.projectRoot ++ "/framework/configs/" ++ filename
    if tc.pathExists candidate then some (tc.resolve candidate) else none

/-- The ignorelist of UBSan, if one was named and is there. -/
def Sanitizers.findUbsanIgnorelist (s : Sanitizers) (tc : Toolchain) : Option String :=
  match s.ubsanIgnorelist with
  | none => none
  | some path =>
    if path = "" then none
    else
      let ignorelist := tc.resolve path
      if tc.pathExists ignorelist then some ignorelist else none

namespace ConfigManager

variable (fw : Framework) (tc : Toolchain) (cm : ConfigManager) (httpdVersion : Option String)

/-- `generate_build_config`. -/
def generateBuildConfig : BuildConfig :=
  let flags := cm.buildMode.flags
  -- the sanitizers go with every mode
  let flags := if cm.asan then flags.both "-fsanitize=address" else flags
  let flags :=
    if cm.ubsan then
      ((flags.both "-fsanitize=undefined").both "-fno-sanitize-trap").ignorelist
        (cm.findUbsanIgnorelist tc)
    else flags
  let flags :=
    if cm.intsan then
      (flags.both "-fsanitize=unsigned-integer-overflow").ignorelist
        (resolveIgnorelist fw tc "intsan.ignorelist")
    else flags
  let flags :=
    if cm.truncsan then flags.both "-fsanitize=implicit-unsigned-integer-truncation" else flags
  let flags :=
    match httpdVersion with
    | none => flags
    | some version =>
      if version = "" then flags
      else
        let compat := fw.getCompatFlags version
        flags.extend compat.cflags compat.ldflags
  { cflags := " ".intercalate flags.cflags
    ldflags := " ".intercalate flags.ldflags
    cc := tc.clang }

end ConfigManager

/-! ### What the flags depend on -/

/-- **What a build depends on**, its mode apart. -/
structure BuildInputs where
  /-- The compiler. -/
  cc : String
  /-- AddressSanitizer. -/
  asan : Bool
  /-- UndefinedBehaviorSanitizer. -/
  ubsan : Bool
  /-- The ignorelist that it finds. -/
  ubsanIgnorelist : Option String
  /-- The unsigned overflow sanitizer. -/
  intsan : Bool
  /-- The ignorelist that it finds. -/
  intsanIgnorelist : Option String
  /-- The truncation sanitizer. -/
  truncsan : Bool
  /-- The compatibility flags. -/
  compat : FlagLists
deriving DecidableEq, Repr

/-- The compatibility flags of a version, if it is known. -/
def Framework.compatFlags (fw : Framework) : Option String → FlagLists
  | none => ⟨[], []⟩
  | some version =>
    if version = "" then ⟨[], []⟩
    else ⟨(fw.getCompatFlags version).cflags, (fw.getCompatFlags version).ldflags⟩

/-- What a build with some sanitizers depends on. An ignorelist matters only to a
sanitizer that is on. -/
def Sanitizers.inputs (fw : Framework) (tc : Toolchain) (s : Sanitizers)
    (httpdVersion : Option String) : BuildInputs where
  cc := tc.cc
  asan := s.asan
  ubsan := s.ubsan
  ubsanIgnorelist := if s.ubsan then s.findUbsanIgnorelist tc else none
  intsan := s.intsan
  intsanIgnorelist := if s.intsan then resolveIgnorelist fw tc "intsan.ignorelist" else none
  truncsan := s.truncsan
  compat := fw.compatFlags httpdVersion

/-- The compiler and flags that some inputs lead to, in a build mode. -/
def BuildInputs.flags (i : BuildInputs) (mode : BuildMode) : Flags :=
  let f := mode.flags
  let f := if i.asan then f.both "-fsanitize=address" else f
  let f :=
    if i.ubsan then
      ((f.both "-fsanitize=undefined").both "-fno-sanitize-trap").ignorelist i.ubsanIgnorelist
    else f
  let f :=
    if i.intsan then
      (f.both "-fsanitize=unsigned-integer-overflow").ignorelist i.intsanIgnorelist
    else f
  let f := if i.truncsan then f.both "-fsanitize=implicit-unsigned-integer-truncation" else f
  let f := f.extend i.compat.cflags i.compat.ldflags
  ⟨i.cc, " ".intercalate f.cflags, " ".intercalate f.ldflags⟩

/-- **The flags are a function of the inputs**: `generate_build_config` makes nothing of
the machine but what is gathered in `Apatchy.BuildInputs`. -/
theorem ConfigManager.generateBuildConfig_eq (fw : Framework) (tc : Toolchain)
    (cm : ConfigManager) (httpdVersion : Option String) :
    (⟨tc.cc, (cm.generateBuildConfig fw tc httpdVersion).cflags,
        (cm.generateBuildConfig fw tc httpdVersion).ldflags⟩ : Flags) =
      (cm.inputs fw tc httpdVersion).flags cm.buildMode := by
  have hcompat : ∀ f : FlagLists,
      (match httpdVersion with
        | none => f
        | some version =>
          if version = "" then f
          else f.extend (fw.getCompatFlags version).cflags (fw.getCompatFlags version).ldflags) =
        f.extend (fw.compatFlags httpdVersion).cflags (fw.compatFlags httpdVersion).ldflags := by
    intro f
    rcases httpdVersion with _ | version
    · exact f.extend_nil.symm
    · by_cases hempty : version = ""
      · simp [Framework.compatFlags, hempty]
      · simp [Framework.compatFlags, hempty]
  -- an ignorelist is looked for only where its sanitizer is on
  rcases cm with ⟨⟨asan, ubsan, list, intsan, truncsan⟩, mode⟩
  cases ubsan <;> cases intsan <;> simp only [generateBuildConfig, hcompat] <;> rfl

end Apatchy
