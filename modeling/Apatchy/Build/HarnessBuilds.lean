import Apatchy.Build.HarnessBuilder
import Apatchy.Build.HarnessTags
import Apatchy.Build.SanitizerFlags
import Apatchy.Foundations.Agreement
import Apatchy.Foundations.Machine
import Apatchy.Introspector.BitcodeCommands
import Mathlib.Data.List.AList
import Mathlib.Data.String.Basic

/-!
# Builds in a used directory

All builds of harnesses share one directory: the objects of every mode and of every tree go to
`.objects` under the same names, and `.proto_gen` keeps what `protoc` has generated. A build
that fails leaves what it has made so far. So a build starts among the leftovers of other
builds, and what it links must not be one of them.

The compilers, `protoc` and the linker are the outside world (`Apatchy.BuildTools`): what they
make depends on the sources, on their command line, and on what the command line names in the
two directories.

In every run of builds, each build returns what it would return in an empty directory, and
links the same harness (`Apatchy.harnessBuilds_clean`), as long as no `.proto` file has been
taken away since the directory was cleaned: its generated sources would still be compiled.
-/

namespace Apatchy

/-! ### What a build finds -/

/-- What is outside of what builds write. -/
structure BuildSite (Src : Type) where
  /-- What the compilers, `protoc` and the linker read. -/
  src : Src
  /-- The harnesses, and what paths exist. -/
  sources : HarnessSources
  /-- The text of a file that can be opened. -/
  fileText : PathName → Option String
  /-- `toolchain_config.resolve_tool`, of a name and a section. -/
  resolveTool : String → Option String → Option String
  /-- `_pkg_config_flags("protobuf", …)`. -/
  pkgConfig : String → String
  /-- `Config.WORK_DIR`. -/
  workDir : PathName
  /-- `Config.PROTOS_DIR`. -/
  protosDir : PathName
  /-- The names of its `.proto` files, as they are listed. -/
  protoNames : List String
  /-- The names of the `.cc` files of a directory, as they are listed, if it is one. -/
  converterNames : PathName → Option (List String)
  /-- The tree of httpd. -/
  httpdRoot : PathName
  /-- The text of its `build/config_vars.mk`, if it is there. -/
  configVars : Option String
  /-- The directories below its `modules`, as they are listed. -/
  moduleDirs : List String
  /-- The `libmod_*.la` below its `modules`, as they are listed. -/
  moduleLibs : List PathName

/-- The arguments of `HarnessBuilder.build`. -/
structure BuildRequest where
  mode : String := "standalone"
  cflags : String := ""
  ldflags : String := ""
  harnessName : Option String := none
  cc : Option String := none
  bear : Bool := false
deriving DecidableEq, Repr

/-- What builds write. -/
structure BuildFiles (Content : Type) where
  /-- `.proto_gen`. -/
  gen : AList fun _ : String => Content := ∅
  /-- `Config.OBJ_DIR`. -/
  obj : Table String Content := fun _ => none
  /-- The harnesses. -/
  harnesses : Table String Content := fun _ => none

/-- **The outside world**: what programs make, or what they leave when they fail. -/
structure BuildTools (Src Content : Type) where
  /-- `protoc`: what it generates under each name. -/
  protoc : Src → List String → Except (String → Option Content) (String → Content)
  /-- A compiler: the object, from the generated sources that it can see. -/
  compile : Src → Table String Content → List String → Except (Option Content) Content
  /-- The linker: the harness, from the objects. -/
  link : Src → List (Option Content) → List String → Except (Option Content) Content

/-! ### Paths and flags -/

namespace PathName

/-- `path / a / b`, for names. -/
def below (path : PathName) (names : List String) : PathName :=
  ⟨path.absolute, path.parts ++ names.map String.toList⟩

/-- `path.parent`. -/
def parent (path : PathName) : PathName := ⟨path.absolute, path.parts.dropLast⟩

/-- `path.name`. -/
def name (path : PathName) : List Char := path.parts.getLastD []

/-- `path.suffix`. -/
def suffix (path : PathName) : List Char := path.name.drop (stemOf path.name).length

end PathName

/-- The stem of a name. -/
def stemText (name : String) : String := String.ofList (stemOf name.toList)

/-- `flags.split()`. -/
def words (flags : String) : List String := (splitBlanks flags.toList).map String.ofList

/-- `sorted`, of names in one directory. -/
def sortedNames (names : List String) : List String := names.mergeSort fun a b => decide (a ≤ b)

/-- `text.removesuffix(back)`. -/
def removeSuffix (back text : String) : String :=
  if back.toList.isSuffixOf text.toList then
    String.ofList (text.toList.take (text.length - back.length))
  else text

/-- Whether a tag asks for a name: without the tag, every name is asked for. -/
def isNeeded (needed : Option (List String)) (name : String) : Bool :=
  needed.getD [] = [] || name ∈ needed.getD []

section Build

variable {Src Content : Type} (kinds : CharKinds) (tools : BuildTools Src Content)
  (site : BuildSite Src)

namespace BuildSite

/-- `Config.OBJ_DIR`. -/
def objDir : PathName := site.workDir.below [".objects"]

/-- `gen_dir`. -/
def genDir : PathName := site.workDir.below [".proto_gen"]

/-- `self.libtool`. -/
def libtool : String := (site.httpdRoot.below ["srclib", "apr", "libtool"]).text

/-- `get_include_paths`. -/
def includePaths : List String :=
  let root := site.httpdRoot.text
  ["-I" ++ root ++ "/include", "-I" ++ root ++ "/srclib/apr/include",
    "-I" ++ root ++ "/srclib/apr-util/include", "-I" ++ root ++ "/os/unix",
    "-I" ++ root ++ "/server"] ++ site.moduleDirs.map fun dir => "-I" ++ dir

/-- `_resolve_lpm_paths`. -/
def lpmPaths : Option (PathName × Option PathName) :=
  let local_root := site.workDir.below ["toolchain", "libprotobuf-mutator"]
  let local_build := local_root.below ["build"]
  match site.resolveTool "lpm-root" (some "fuzzing"), site.resolveTool "lpm-build" (some "fuzzing")
    with
  | some root, some build => some (.parse root, some (.parse build))
  | _, _ =>
    if site.sources.pathExists (local_build.below ["src", "libprotobuf-mutator.a"]).text then
      some (local_root, some local_build)
    else if site.sources.pathExists "/usr/include/libprotobuf-mutator" then
      some (.parse "/usr", none)
    else if site.sources.pathExists "/usr/local/include/libprotobuf-mutator" then
      some (.parse "/usr/local", none)
    else none

/-- The variables of `config_vars.mk`, in the order in which they are assigned first. -/
def configItems : List (String × String) :=
  (firsts id ((configVarsLines site.configVars).filterMap (configVarName kinds))).map fun key =>
    (key, (parseConfigVars kinds site.configVars key).getD "")

/-- `_get_system_libs`. -/
def systemLibs : List String :=
  let ldadd := (site.configItems kinds).filter fun item =>
    startsWith "MOD_" item.1 && "_LDADD".toList.isSuffixOf item.1.toList
  let pcre := (parseConfigVars kinds site.configVars "PCRE_LIBS").getD ""
  firsts id (ldadd.flatMap (fun item => words item.2) ++ words pcre)

/-- The libraries of the modules, one for each name. -/
def uniqueModuleLibs : List PathName :=
  firsts PathName.name (site.moduleLibs.filter fun la => !containsText ".libs" la.text)

end BuildSite

/-! ### Running programs -/

/-- `CalledProcessError`: it names the command. -/
def calledProcessError (cmd : List String) : String :=
  "Command '" ++ " ".intercalate cmd ++ "' failed"

/-- Write what is given for some names. -/
def writeFiles (content : String → Option Content) (gen : AList fun _ : String => Content)
    (names : List String) : AList fun _ : String => Content :=
  names.foldl (fun gen name =>
    match content name with
    | some c => gen.insert name c
    | none => gen) gen

/-- What `protoc` generates from a `.proto` file. -/
def generatedNames (proto : String) : List String :=
  [removeSuffix ".proto" proto ++ ".pb.cc", removeSuffix ".proto" proto ++ ".pb.h"]

/-- The sources that `protoc` generates. -/
def BuildSite.generated : List String := (sortedNames site.protoNames).flatMap generatedNames

/-- The command line of `protoc`. -/
def BuildSite.protocCommand : List String :=
  [(site.resolveTool "protoc" none).getD "protoc", "--cpp_out=" ++ site.genDir.text,
    "--proto_path=" ++ site.protosDir.text] ++
      (sortedNames site.protoNames).map fun name => (site.protosDir.below [name]).text

/-- "Generating protobuf sources". -/
def runProtoc : Script (BuildFiles Content) Unit :=
  match tools.protoc site.src site.protocCommand with
  | .ok content => Script.modify fun files =>
      { files with gen := writeFiles (fun name => some (content name)) files.gen site.generated }
  | .error content => do
    Script.modify fun files =>
      { files with gen := writeFiles content files.gen site.generated }
    Script.fail (calledProcessError site.protocCommand)

/-- Run a compiler. -/
def runCompiler (headers : Table String Content) (dest : String) (cmd : List String) :
    Script (BuildFiles Content) Unit :=
  match tools.compile site.src headers cmd with
  | .ok object => Script.modify fun files => { files with obj := files.obj.set dest object }
  | .error rest => do
    Script.modify fun files =>
      { files with obj := fun name => if name = dest then rest else files.obj name }
    Script.fail (calledProcessError cmd)

/-- `_compile_object`. -/
def compileObject (headers : Table String Content) (src dest cflags cc : String)
    (bearOutput : Option String) : Script (BuildFiles Content) Unit :=
  let cmd := [site.libtool, "--mode=compile", cc] ++ words cflags ++ site.includePaths ++
    ["-c", src, "-o", (site.objDir.below [dest]).text]
  let bear := match bearOutput with
    | some output => ["bear", "--output", output, "--append", "--"]
    | none => []
  runCompiler tools site headers dest (bear ++ cmd)

/-- `muldefs_flags`. -/
def muldefsFlags : List String :=
  ["-Wl,-z,muldefs", "-Wl,-u,ap_cookie_write", "-Wl,-u,ap_cookie_read",
    "-Wl,-u,ap_cookie_check_string", "-Wl,-u,ap_rxplus_compile", "-Wl,-u,ap_rxplus_exec",
    "-Wl,-u,apr_threadkey_private_create", "-Wl,-u,apr_threadkey_private_get",
    "-Wl,-u,apr_threadkey_private_set", "-Wl,-u,apr_bucket_type_eos",
    "-Wl,-u,apr_bucket_type_flush"]

/-- The command line of `_link_harness`. -/
def BuildSite.linkCommand (output : String) (objects : List String) (cflags ldflags cc : String)
    (allowMuldefs : Bool) : List String :=
  let root := site.httpdRoot.text
  let libmain := root ++ "/server/libmain.la"
  let libos := root ++ "/os/unix/libos.la"
  let serverLibs := [libmain, libos, root ++ "/server/mpm/event/libevent.la"] ++
    site.uniqueModuleLibs.map PathName.text ++ [libmain, libos]
  [site.libtool, "--mode=link", cc] ++ (if allowMuldefs then muldefsFlags else []) ++
    words cflags ++ words ldflags ++ ["-o", output] ++
    objects.map (fun name => (site.objDir.below [name]).text) ++ ["-export-dynamic"] ++
    serverLibs ++ [root ++ "/srclib/apr-util/libaprutil-1.la", root ++ "/srclib/apr/libapr-1.la"] ++
    site.systemLibs kinds ++ ["-luuid", "-lcrypt", "-lpthread"]

/-- `_link_harness`, of objects in `Config.OBJ_DIR`. -/
def linkHarness (output : String) (objects : List String) (cflags ldflags cc : String)
    (allowMuldefs : Bool) : Script (BuildFiles Content) Unit := do
  let files ← Script.get
  let cmd := site.linkCommand kinds output objects cflags ldflags cc allowMuldefs
  match tools.link site.src (objects.map files.obj) cmd with
  | .ok harness =>
    Script.modify fun files => { files with harnesses := files.harnesses.set output harness }
  | .error rest => do
    Script.modify fun files =>
      { files with harnesses := fun name => if name = output then rest else files.harnesses name }
    Script.fail (calledProcessError cmd)

/-! ### The builds -/

/-- `extra_src`: a name without a suffix is that of a `.c` file. -/
def extraSource (harnessDir : PathName) (extra : String) : Except String PathName :=
  let src := harnessDir.join (.parse extra)
  if src.suffix ≠ [] then .ok src
  else if src.name = [] then .error s!"PosixPath('{src.text}') has an empty name"
  else .ok ⟨src.absolute, src.parts.dropLast ++ [src.name ++ ".c".toList]⟩

/-- One of the `@extras`: it returns the name of the object. -/
def compileExtra (harnessDir : PathName) (cflags cc extra : String) :
    Script (BuildFiles Content) String :=
  match extraSource harnessDir extra with
  | .error message => Script.fail message
  | .ok src => do
    let dest := "extra_" ++ String.ofList (stemOf src.name) ++ ".lo"
    compileObject tools site (fun _ => none) src.text dest cflags cc none
    return dest

/-- One of the generated sources. -/
def compileGenerated (headers : Table String Content) (cxx pbCflags name : String) :
    Script (BuildFiles Content) String := do
  let dest := stemText name ++ ".o"
  runCompiler tools site headers dest
    ([cxx, "-c", "-O2", "-std=c++17"] ++ words pbCflags ++ ["-I" ++ site.genDir.text,
      (site.genDir.below [name]).text, "-o", (site.objDir.below [dest]).text])
  return dest

/-- One of the converters. -/
def compileConverter (headers : Table String Content) (convertersDir : PathName)
    (cflags cxx name : String) : Script (BuildFiles Content) String := do
  let dest := "proto_" ++ stemText name ++ ".lo"
  compileObject tools site headers (convertersDir.below [name]).text dest cflags cxx none
  return dest

/-- `proto_harness_main.cc`, in profiling mode. -/
def compileMain (headers : Table String Content) (harnessDir : PathName)
    (cflags cxx mode : String) : Script (BuildFiles Content) Unit :=
  if mode = "profile" then
    compileObject tools site headers (harnessDir.below ["proto_harness_main.cc"]).text
      "harness_main.lo" cflags cxx none
  else pure ()

/-- The names that a loop over a directory takes. -/
def takenNames (needed : Option (List String)) (stem : String → String) (names : List String) :
    List String :=
  (sortedNames names).filter fun name => isNeeded needed (stem name)

/-- The generated sources that a harness asks for. -/
def takenGenerated (needed : Option (List String)) (gen : AList fun _ : String => Content) :
    List String :=
  takenNames needed (fun name => removeSuffix ".pb" (stemText name))
    (gen.keys.filter fun name => ".pb.cc".toList.isSuffixOf name.toList)

/-- **`_build_proto_harness`**, without the commands for `clangd`. -/
def buildProtoHarness (outputName : String) (harnessSrc : PathName) (cflags ldflags mode : String) :
    Script (BuildFiles Content) Unit := do
  let harnessDir := harnessSrc.parent
  let cxx := (site.resolveTool "clang++" none).getD "clang++"
  let cCc := (site.resolveTool "clang" none).getD "clang"
  match site.lpmPaths with
  | none => Script.fail "libprotobuf-mutator not found"
  | some (lpmRoot, lpmBuild) => do
    let tags := parseHarnessTags (site.fileText harnessSrc)
    let ldflags := if tags.ldflags.getD "" = "" then ldflags
      else ldflags ++ " " ++ tags.ldflags.getD ""
    runProtoc tools site
    let pbCflags := site.pkgConfig "--cflags"
    let pbLdflags := site.pkgConfig "--libs"
    let lpmLibs := (match lpmBuild with
      | some build => ["-L" ++ (build.below ["src", "libfuzzer"]).text,
          "-L" ++ (build.below ["src"]).text]
      | none => []) ++ ["-lprotobuf-mutator-libfuzzer", "-lprotobuf-mutator"]
    -- the generated sources that the tags ask for, against all generated headers
    let files ← Script.get
    let headers : Table String Content := fun name => files.gen.lookup name
    let pbObjects ← Script.each (compileGenerated tools site headers cxx pbCflags)
      (takenGenerated tags.protos files.gen)
    let harnessCflags := s!"-I{harnessDir.text} -I{site.genDir.text} -I{lpmRoot.text} " ++
      s!"{pbCflags} -std=c++17 {cflags}"
    compileObject tools site headers harnessSrc.text "fuzz_harness.lo" harnessCflags cxx none
    compileMain tools site headers harnessDir harnessCflags cxx mode
    -- the converters that the tags name
    let convertersDir := harnessDir.below ["proto_converters"]
    let converterObjects ← Script.each
      (compileConverter tools site headers convertersDir harnessCflags cxx)
      (takenNames tags.converters stemText ((site.converterNames convertersDir).getD []))
    -- what is in C has the flags of the harness without those for C++
    let cCflags := s!"-I{harnessDir.text} {cflags}"
    compileObject tools site (fun _ => none) (harnessDir.below ["fuzz_common.c"]).text
      "fuzz_common.lo" cCflags cCc none
    let extraObjects ← Script.each (compileExtra tools site harnessDir cCflags cCc)
      (tags.extras.getD [])
    compileObject tools site (fun _ => none) (site.httpdRoot.below ["server", "buildmark.c"]).text
      "buildmark.lo" cCflags cCc none
    compileObject tools site (fun _ => none) (site.httpdRoot.below ["modules.c"]).text "modules.lo"
      cCflags cCc none
    let linkLdflags := ldflags ++ " " ++ " ".intercalate lpmLibs ++ " " ++ pbLdflags ++ " -lcrypto"
    let linkLdflags := if containsText "-no-pie" linkLdflags then linkLdflags
      else linkLdflags ++ " -no-pie"
    linkHarness kinds tools site outputName
      (["fuzz_harness.lo"] ++ converterObjects ++ ["fuzz_common.lo"] ++ extraObjects ++ pbObjects ++
        ["buildmark.lo", "modules.lo"] ++ if mode = "profile" then ["harness_main.lo"] else [])
      cflags linkLdflags cxx true

/-- The rest of `build`, of a harness in C. -/
def buildPlainHarness (outputName : String) (harnessSrc : PathName)
    (cflags ldflags cc mode : String) (bear : Bool) : Script (BuildFiles Content) Unit := do
  let tags := parseHarnessTags (site.fileText harnessSrc)
  let ldflags := if tags.ldflags.getD "" = "" then ldflags
    else ldflags ++ " " ++ tags.ldflags.getD ""
  let harnessDir := harnessSrc.parent
  let cflags := s!"-I{harnessDir.text} {cflags}"
  let bearOutput := if bear then some (harnessDir.below ["compile_commands.json"]).text else none
  let compile := compileObject tools site fun _ => none
  compile harnessSrc.text "fuzz_harness.lo" cflags cc bearOutput
  compile (harnessDir.below ["fuzz_common.c"]).text "fuzz_common.lo" cflags cc bearOutput
  -- the sources of httpd are not recorded under `bear`
  compile (site.httpdRoot.below ["server", "buildmark.c"]).text "buildmark.lo" cflags cc none
  compile (site.httpdRoot.below ["modules.c"]).text "modules.lo" cflags cc none
  let allowMuldefs := mode ∈ ["libfuzzer", "standalone"]
  let ldflags := if containsText "-no-pie" ldflags then ldflags else ldflags ++ " -no-pie"
  linkHarness kinds tools site outputName
    ["fuzz_harness.lo", "fuzz_common.lo", "buildmark.lo", "modules.lo"] cflags ldflags cc
    allowMuldefs

/-- `COMPILERS`. -/
def compilers : List (String × String) :=
  [("libfuzzer", "clang"), ("standalone", "clang"), ("coverage", "clang"), ("profile", "clang")]

/-- The flags of `build`: those of httpd, and those of the mode. -/
def buildFlags (request : BuildRequest) : String × String :=
  let flags := propagate kinds site.configVars ⟨request.cflags.toList, request.ldflags.toList⟩
  let cflags := String.ofList flags.cflags
  let ldflags := String.ofList flags.ldflags
  if request.mode = "libfuzzer" then
    ("-DLIBFUZZER -fsanitize=fuzzer " ++ cflags, "-fsanitize=fuzzer " ++ ldflags)
  else if request.mode = "coverage" then
    ("-DLIBFUZZER -fsanitize=fuzzer -fprofile-instr-generate -fcoverage-mapping " ++ cflags,
      "-fsanitize=fuzzer -fprofile-instr-generate " ++ ldflags)
  else (cflags, ldflags)

/-- The harness that a build makes. -/
def BuildRequest.outputName (request : BuildRequest) : String := "fuzz_harness_" ++ request.mode

/-- **`HarnessBuilder.build`.** -/
def build (request : BuildRequest) : Script (BuildFiles Content) Unit :=
  let cc := request.cc.getD ((compilers.lookup request.mode).getD "clang")
  match site.resolveTool cc none with
  | none => Script.fail s!"{cc} not found in PATH"
  | some cc =>
    let (cflags, ldflags) := buildFlags kinds site request
    let name := request.harnessName.getD ""
    match site.sources.source name with
    | none =>
      let name := if name = "" then "mod_fuzzy_proto" else name
      Script.fail s!"Harness '{name}' not found"
    | some source =>
      let harnessSrc := PathName.parse source
      if harnessSrc.suffix = ".cc".toList then
        buildProtoHarness kinds tools site request.outputName harnessSrc cflags ldflags request.mode
      else
        buildPlainHarness kinds tools site request.outputName harnessSrc cflags ldflags cc
          request.mode request.bear

end Build

/-! ### Runs -/

/-- A step of the framework in the directory. -/
inductive BuildEvent (Src : Type)
  /-- A build of a harness, and what it finds. -/
  | build (site : BuildSite Src) (request : BuildRequest)
  /-- `apatchy clean`. -/
  | clean

section Runs

variable {Src Content : Type} (kinds : CharKinds) (tools : BuildTools Src Content)

/-- What a step runs. -/
def BuildEvent.script : BuildEvent Src → Script (BuildFiles Content) Unit
  | .build site request => Apatchy.build kinds tools site request
  | .clean => Script.modify fun _ => {}

/-- **The builds of harnesses** in one directory, one after another. -/
def harnessBuilds : Machine (BuildFiles Content) (BuildEvent Src) (Except String Unit) where
  step files event := (event.script kinds tools).run files

end Runs

/-! ### Generated sources -/

section Generated

variable {Content : Type}

theorem lookup_writeFiles (content : String → Option Content)
    (gen : AList fun _ : String => Content) (names : List String) (name : String) :
    (writeFiles content gen names).lookup name =
      if name ∈ names then (content name).or (gen.lookup name) else gen.lookup name := by
  induction names generalizing gen with
  | nil => rfl
  | cons n names ih =>
    rw [writeFiles, List.foldl_cons]
    rcases hn : content n with _ | c
    · rw [← writeFiles, ih gen]
      by_cases hname : name = n
      · simp [hname, hn]
      · simp [hname]
    · rw [← writeFiles, ih (gen.insert n c)]
      by_cases hname : name = n
      · rw [hname, AList.lookup_insert]
        simp [hn]
      · simp [hname]

/-- What is there after writing was there before, or was written. -/
theorem mem_of_mem_writeFiles {content : String → Option Content}
    {gen : AList fun _ : String => Content} {names : List String} {name : String}
    (h : name ∈ writeFiles content gen names) : name ∈ names ∨ name ∈ gen := by
  rw [← AList.lookup_isSome, lookup_writeFiles] at h
  split_ifs at h with hname
  · exact Or.inl hname
  · exact Or.inr (AList.lookup_isSome.mp h)

/-- What is sorted does not depend on the order of listing. -/
theorem sortedNames_eq_of_perm {names names' : List String} (h : names.Perm names') :
    sortedNames names = sortedNames names' := by
  have hsorted : ∀ l : List String, (sortedNames l).Pairwise fun a b => decide (a ≤ b) = true :=
    List.pairwise_mergeSort
      (fun a b c hab hbc => decide_eq_true
        ((of_decide_eq_true hab).trans (of_decide_eq_true hbc)))
      fun a b => by simpa using le_total a b
  refine List.Perm.eq_of_pairwise (fun a b _ _ hab hba => ?_) (hsorted names) (hsorted names') ?_
  · exact le_antisymm (of_decide_eq_true hab) (of_decide_eq_true hba)
  · exact (List.mergeSort_perm ..).trans (h.trans (List.mergeSort_perm ..).symm)

/-- **The same files, the same names**: what a harness takes depends on what is found under
each name. -/
theorem takenGenerated_congr {gen gen' : AList fun _ : String => Content}
    (h : ∀ name, gen.lookup name = gen'.lookup name) (needed : Option (List String)) :
    takenGenerated needed gen = takenGenerated needed gen' := by
  have hkeys : gen.keys.Perm gen'.keys := by
    refine (List.perm_ext_iff_of_nodup gen.keys_nodup gen'.keys_nodup).mpr fun name => ?_
    rw [← AList.mem_keys, ← AList.mem_keys, ← AList.lookup_isSome, ← AList.lookup_isSome, h name]
  rw [takenGenerated, takenGenerated, takenNames, takenNames,
    sortedNames_eq_of_perm (hkeys.filter _)]

end Generated

/-! ### What two runs of a build have in common -/

section SameObjects

variable {Src Content : Type} {kinds : CharKinds} {tools : BuildTools Src Content}
  {site : BuildSite Src}

/-- **The leftovers belong to the build**: what was generated is generated again. -/
def BuildSite.Covers (site : BuildSite Src) (files : BuildFiles Content) : Prop :=
  ∀ name ∈ files.gen, name ∈ site.generated

/-- No harness but one was touched. -/
def KeepsOthers (old : Table String Content) (output : String) (files : BuildFiles Content) :
    Prop :=
  ∀ name, name ≠ output → files.harnesses name = old name

/-- **What holds of two runs at any time**: the leftovers belong to the build, and the first run
has touched one harness only. -/
structure Started (site : BuildSite Src) (old : Table String Content) (output : String)
    (files files' : BuildFiles Content) : Prop where
  /-- The leftovers of the first. -/
  covers : site.Covers files
  /-- The leftovers of the second. -/
  covers' : site.Covers files'
  /-- The harnesses. -/
  others : KeepsOthers old output files

/-- **What two runs have in common** while they compile: the objects that were made so far, and
the generated sources if they are made. -/
structure SameObjects (site : BuildSite Src) (old : Table String Content) (output : String)
    (generated : Bool) (objects : List String) (files files' : BuildFiles Content) : Prop
    extends Started site old output files files' where
  /-- The generated sources. -/
  lookup : generated = true → ∀ name, files.gen.lookup name = files'.gen.lookup name
  /-- The objects. -/
  object : ∀ name ∈ objects, files.obj name = files'.obj name

/-- **Both have linked the same harness.** -/
def Linked (output : String) (files files' : BuildFiles Content) : Prop :=
  ∃ harness, files.harnesses output = some harness ∧ files'.harnesses output = some harness

variable {old : Table String Content} {output : String}

/-- **After `protoc` the generated sources are the same.** -/
theorem agree_runProtoc :
    Script.Agree (Started site old output) (runProtoc tools site) (runProtoc tools site)
      (Started site old output) fun _ => SameObjects site old output true [] := by
  have hcovers : ∀ (content : String → Option Content) (files : BuildFiles Content),
      site.Covers files →
      site.Covers { files with gen := writeFiles content files.gen site.generated } :=
    fun content files hfiles name hname =>
      (mem_of_mem_writeFiles hname).elim id fun h => hfiles name h
  rw [runProtoc]
  rcases tools.protoc site.src site.protocCommand with content | content
  · refine (Script.agree_modify fun files files' h => ?_).bind fun _ =>
      Script.agree_fail fun _ _ h => h
    exact ⟨hcovers content files h.covers, hcovers content files' h.covers', h.others⟩
  · refine Script.agree_modify fun files files' h => ?_
    refine ⟨⟨hcovers _ files h.covers, hcovers _ files' h.covers', h.others⟩, ?_, by simp⟩
    intro _ name
    rw [lookup_writeFiles, lookup_writeFiles]
    split_ifs with hname
    · rfl
    · -- what is not generated is in neither directory
      have hnone : ∀ files : BuildFiles Content, site.Covers files →
          files.gen.lookup name = none := fun files hfiles =>
        AList.lookup_eq_none.mpr fun hmem => hname (hfiles name hmem)
      rw [hnone files h.covers, hnone files' h.covers']

/-- **An object that is compiled is the same.** -/
theorem agree_runCompiler {generated : Bool} {objects : List String}
    (headers : Table String Content) (dest : String) (cmd : List String) :
    Script.Agree (SameObjects site old output generated objects)
      (runCompiler tools site headers dest cmd) (runCompiler tools site headers dest cmd)
      (Started site old output) fun _ =>
        SameObjects site old output generated (objects ++ [dest]) := by
  rw [runCompiler]
  rcases tools.compile site.src headers cmd with rest | object
  · refine (Script.agree_modify fun files files' h => ?_).bind fun _ =>
      Script.agree_fail fun _ _ h => h
    exact ⟨h.covers, h.covers', h.others⟩
  · refine Script.agree_modify fun files files' h => ⟨⟨h.covers, h.covers', h.others⟩, h.lookup, ?_⟩
    intro name hname
    show files.obj.set dest object name = files'.obj.set dest object name
    rw [Table.set, Table.set]
    split_ifs with hdest
    · rfl
    · have hold : name ∈ objects := by simpa [hdest] using hname
      exact h.object name hold

/-- **A harness that is linked from the same objects is the same.** -/
theorem agree_linkHarness {generated : Bool} {objects linked : List String}
    (hlinked : linked ⊆ objects) (cflags ldflags cc : String) (allowMuldefs : Bool) :
    Script.Agree (SameObjects site old output generated objects)
      (linkHarness kinds tools site output linked cflags ldflags cc allowMuldefs)
      (linkHarness kinds tools site output linked cflags ldflags cc allowMuldefs)
      (Started site old output) fun _ files files' =>
        Started site old output files files' ∧ Linked output files files' := by
  rw [linkHarness]
  refine Script.agree_get_bind fun files files' h => ?_
  have hobjects : linked.map files.obj = linked.map files'.obj :=
    List.map_congr_left fun name hname => h.object name (hlinked hname)
  rw [← hobjects]
  dsimp only
  rcases tools.link site.src (linked.map files.obj)
    (site.linkCommand kinds output linked cflags ldflags cc allowMuldefs) with rest | harness
  · refine (Script.agree_modify ?_).bind fun _ => Script.agree_fail fun _ _ h => h
    rintro u u' ⟨rfl, rfl⟩
    refine ⟨h.covers, h.covers', fun name hname => ?_⟩
    show (if name = output then rest else u.harnesses name) = old name
    rw [if_neg hname, h.others name hname]
  · refine Script.agree_modify ?_
    rintro u u' ⟨rfl, rfl⟩
    refine ⟨⟨h.covers, h.covers', fun name hname => ?_⟩, harness, if_pos rfl, if_pos rfl⟩
    show u.harnesses.set output harness name = old name
    rw [Table.set, if_neg hname, h.others name hname]

/-! ### The parts of a build -/

variable {generated : Bool} {objects : List String}

theorem agree_compileObject (headers : Table String Content) (src dest cflags cc : String)
    (bearOutput : Option String) :
    Script.Agree (SameObjects site old output generated objects)
      (compileObject tools site headers src dest cflags cc bearOutput)
      (compileObject tools site headers src dest cflags cc bearOutput)
      (Started site old output) fun _ =>
        SameObjects site old output generated (objects ++ [dest]) := by
  unfold compileObject
  exact agree_runCompiler headers dest _

/-- A loop that makes objects makes the same. -/
theorem agree_compileEach {f : String → Script (BuildFiles Content) String} {names : List String}
    (hf : ∀ objects, ∀ name ∈ names, Script.Agree (SameObjects site old output generated objects)
      (f name) (f name) (Started site old output) fun dest =>
        SameObjects site old output generated (objects ++ [dest])) :
    Script.Agree (SameObjects site old output generated objects) (Script.each f names)
      (Script.each f names) (Started site old output) fun dests =>
        SameObjects site old output generated (objects ++ dests) := by
  have hone : ∀ dests, ∀ name ∈ names, Script.Agree
      (SameObjects site old output generated (objects ++ dests)) (f name) (f name)
      (Started site old output) fun dest =>
        SameObjects site old output generated (objects ++ (dests ++ [dest])) := by
    intro dests name hname
    refine (hf (objects ++ dests) name hname).weaken (fun _ _ h => h) fun dest u u' h => ?_
    rwa [List.append_assoc] at h
  have hloop := Script.agree_each
    (fun dests => SameObjects site old output generated (objects ++ dests)) hone
  rwa [List.append_nil] at hloop

theorem agree_compileGenerated (headers : Table String Content) (cxx pbCflags name : String) :
    Script.Agree (SameObjects site old output generated objects)
      (compileGenerated tools site headers cxx pbCflags name)
      (compileGenerated tools site headers cxx pbCflags name)
      (Started site old output) fun dest =>
        SameObjects site old output generated (objects ++ [dest]) := by
  rw [compileGenerated]
  exact (agree_runCompiler headers _ _).bind fun _ => Script.agree_pure fun _ _ h => h

theorem agree_compileConverter (headers : Table String Content) (convertersDir : PathName)
    (cflags cxx name : String) :
    Script.Agree (SameObjects site old output generated objects)
      (compileConverter tools site headers convertersDir cflags cxx name)
      (compileConverter tools site headers convertersDir cflags cxx name)
      (Started site old output) fun dest =>
        SameObjects site old output generated (objects ++ [dest]) := by
  rw [compileConverter]
  exact (agree_compileObject headers _ _ _ _ _).bind fun _ => Script.agree_pure fun _ _ h => h

theorem agree_compileExtra (harnessDir : PathName) (cflags cc extra : String) :
    Script.Agree (SameObjects site old output generated objects)
      (compileExtra tools site harnessDir cflags cc extra)
      (compileExtra tools site harnessDir cflags cc extra)
      (Started site old output) fun dest =>
        SameObjects site old output generated (objects ++ [dest]) := by
  rw [compileExtra]
  rcases extraSource harnessDir extra with message | src
  · exact Script.agree_fail fun _ _ h => h.toStarted
  · exact (agree_compileObject _ _ _ _ _ _).bind fun _ => Script.agree_pure fun _ _ h => h

theorem agree_compileMain (headers : Table String Content) (harnessDir : PathName)
    (cflags cxx mode : String) :
    Script.Agree (SameObjects site old output generated objects)
      (compileMain tools site headers harnessDir cflags cxx mode)
      (compileMain tools site headers harnessDir cflags cxx mode)
      (Started site old output) fun _ => SameObjects site old output generated
        (objects ++ if mode = "profile" then ["harness_main.lo"] else []) := by
  rw [compileMain]
  split_ifs
  · exact agree_compileObject _ _ _ _ _ _
  · exact Script.agree_pure fun _ _ h => by rwa [List.append_nil]

/-- **Two builds of a harness in C** link the same. -/
theorem agree_buildPlainHarness (harnessSrc : PathName) (cflags ldflags cc mode : String)
    (bear : Bool) :
    Script.Agree (Started site old output)
      (buildPlainHarness kinds tools site output harnessSrc cflags ldflags cc mode bear)
      (buildPlainHarness kinds tools site output harnessSrc cflags ldflags cc mode bear)
      (Started site old output) fun _ files files' =>
        Started site old output files files' ∧ Linked output files files' := by
  have hstart : ∀ files files', Started site old output files files' →
      SameObjects site old output false [] files files' :=
    fun files files' h => ⟨h, fun hgen => absurd hgen Bool.false_ne_true, by simp⟩
  rw [buildPlainHarness]
  exact ((agree_compileObject _ _ _ _ _ _).weaken hstart fun _ _ _ h => h).bind fun _ =>
    (agree_compileObject _ _ _ _ _ _).bind fun _ => (agree_compileObject _ _ _ _ _ _).bind fun _ =>
      (agree_compileObject _ _ _ _ _ _).bind fun _ => agree_linkHarness (by simp) _ _ _ _

/-- **Two builds of a harness for protos** link the same. -/
theorem agree_buildProtoHarness (harnessSrc : PathName) (cflags ldflags mode : String) :
    Script.Agree (Started site old output)
      (buildProtoHarness kinds tools site output harnessSrc cflags ldflags mode)
      (buildProtoHarness kinds tools site output harnessSrc cflags ldflags mode)
      (Started site old output) fun _ files files' =>
        Started site old output files files' ∧ Linked output files files' := by
  rw [buildProtoHarness]
  rcases site.lpmPaths with _ | ⟨lpmRoot, lpmBuild⟩
  · exact Script.agree_fail fun _ _ h => h
  dsimp only
  refine agree_runProtoc.bind fun _ => Script.agree_get_bind fun files files' h => ?_
  -- from here on both runs see the same generated sources
  have hheaders : (fun name => files'.gen.lookup name) = fun name => files.gen.lookup name :=
    funext fun name => (h.lookup rfl name).symm
  rw [hheaders, ← takenGenerated_congr (h.lookup rfl)]
  have hstart : ∀ u u', u = files ∧ u' = files' → SameObjects site old output true [] u u' := by
    rintro _ _ ⟨rfl, rfl⟩
    exact h
  refine ((agree_compileEach fun _ _ _ => agree_compileGenerated _ _ _ _).weaken hstart
    fun _ _ _ h => h).bind fun pbObjects => ?_
  refine (agree_compileObject _ _ _ _ _ _).bind fun _ => ?_
  exact (agree_compileMain _ _ _ _ _).bind fun _ =>
    (agree_compileEach fun _ _ _ => agree_compileConverter _ _ _ _ _).bind fun converterObjects =>
      (agree_compileObject _ _ _ _ _ _).bind fun _ =>
        (agree_compileEach fun _ _ _ => agree_compileExtra _ _ _ _).bind fun extraObjects =>
          (agree_compileObject _ _ _ _ _ _).bind fun _ =>
            (agree_compileObject _ _ _ _ _ _).bind fun _ =>
              agree_linkHarness (by intro name; simp; tauto) _ _ _ _

/-- **Two builds of a harness** return the same, and link the same. -/
theorem agree_build (request : BuildRequest) :
    Script.Agree (Started site old request.outputName) (build kinds tools site request)
      (build kinds tools site request) (Started site old request.outputName) fun _ files files' =>
        Started site old request.outputName files files' ∧
          Linked request.outputName files files' := by
  unfold build
  dsimp only
  rcases site.resolveTool (request.cc.getD ((compilers.lookup request.mode).getD "clang")) none
    with _ | cc
  · exact Script.agree_fail fun _ _ h => h
  dsimp only
  rcases site.sources.source (request.harnessName.getD "") with _ | source
  · exact Script.agree_fail fun _ _ h => h
  dsimp only
  split_ifs
  · exact agree_buildProtoHarness _ _ _ _
  · exact agree_buildPlainHarness _ _ _ _ _ _

end SameObjects

/-! ### Runs of builds -/

section Runs

variable {Src Content : Type}

/-- **No `.proto` file is taken away** while what was generated from it is there. -/
def ProtosKept (protos : List String) : List (BuildEvent Src) → Prop
  | [] => True
  | .clean :: events => ProtosKept [] events
  | .build site _ :: events => protos ⊆ site.protoNames ∧ ProtosKept site.protoNames events

instance decidableProtosKept (protos : List String) :
    (events : List (BuildEvent Src)) → Decidable (ProtosKept protos events)
  | [] => inferInstanceAs (Decidable True)
  | .clean :: events => decidableProtosKept [] events
  | .build site _ :: events =>
    have := decidableProtosKept site.protoNames events
    inferInstanceAs (Decidable (_ ∧ _))

/-- **What is generated was generated from these.** -/
def GeneratedFrom (protos : List String) (files : BuildFiles Content) : Prop :=
  ∀ name ∈ files.gen, ∃ proto ∈ protos, name ∈ generatedNames proto

theorem mem_generated {site : BuildSite Src} {name : String} :
    name ∈ site.generated ↔ ∃ proto ∈ site.protoNames, name ∈ generatedNames proto := by
  simp [BuildSite.generated, sortedNames, List.mem_flatMap, List.mem_mergeSort]

theorem GeneratedFrom.covers {protos : List String} {files : BuildFiles Content}
    (h : GeneratedFrom protos files) {site : BuildSite Src} (hsub : protos ⊆ site.protoNames) :
    site.Covers files := by
  intro name hname
  obtain ⟨proto, hproto, hmem⟩ := h name hname
  exact mem_generated.mpr ⟨proto, hsub hproto, hmem⟩

variable (kinds : CharKinds) (tools : BuildTools Src Content)

/-- **A build does what it would do in an empty directory**: it returns the same, links the same
harness, and touches no other one. -/
def BuildsClean (e : Machine.Entry (BuildFiles Content) (BuildEvent Src) (Except String Unit)) :
    Prop :=
  match e.input with
  | .clean => True
  | .build site request =>
    e.answer = ((build kinds tools site request).run {}).1 ∧
      (e.answer = .ok () →
        Linked request.outputName e.post ((build kinds tools site request).run {}).2) ∧
      KeepsOthers e.pre.harnesses request.outputName e.post

/-- One build among the leftovers of others. -/
theorem buildsClean_step {site : BuildSite Src} (request : BuildRequest)
    {files : BuildFiles Content} (h : site.Covers files) :
    BuildsClean kinds tools ⟨files, .build site request,
      ((harnessBuilds kinds tools).step files (.build site request)).1,
      ((harnessBuilds kinds tools).step files (.build site request)).2⟩ ∧
      site.Covers ((harnessBuilds kinds tools).step files (.build site request)).2 := by
  have hstart : Started site files.harnesses request.outputName files ({} : BuildFiles Content) :=
    ⟨h, fun name hname => absurd hname (AList.notMem_empty name), fun _ _ => rfl⟩
  have hagree : Script.Agree (Started site files.harnesses request.outputName)
      (build kinds tools site request) (build kinds tools site request) _ _ := agree_build request
  have hleaves := (hagree.weaken (fun _ _ h => h) fun _ _ _ h => h.1).leaves hstart
  exact ⟨⟨hagree.run_eq hstart, fun hok => (hagree.post hstart hok).2, hleaves.others⟩,
    hleaves.covers⟩

/-- **Every build of a run does what it would do in an empty directory**, whatever builds came
before it, and whatever they left. -/
theorem harnessBuilds_clean (events : List (BuildEvent Src)) (hkept : ProtosKept [] events) :
    ∀ e ∈ (harnessBuilds kinds tools).trace {} events, BuildsClean kinds tools e := by
  have hrun : ∀ events : List (BuildEvent Src), ∀ protos (files : BuildFiles Content),
      GeneratedFrom protos files → ProtosKept protos events →
        ∀ e ∈ (harnessBuilds kinds tools).trace files events, BuildsClean kinds tools e := by
    intro events
    induction events with
    | nil => exact fun _ _ _ _ e he => absurd he List.not_mem_nil
    | cons event events ih =>
      intro protos files hfiles hkept e he
      cases event with
      | clean =>
        rcases List.mem_cons.mp he with rfl | he
        · trivial
        · refine ih [] {} (fun name hname => absurd hname (AList.notMem_empty name)) hkept e he
      | build site request =>
        obtain ⟨hsub, hkept⟩ := hkept
        obtain ⟨hclean, hcovers⟩ := buildsClean_step kinds tools request (hfiles.covers hsub)
        rcases List.mem_cons.mp he with rfl | he
        · exact hclean
        · exact ih site.protoNames _ (fun name hname => mem_generated.mp (hcovers name hname))
            hkept e he
  exact hrun events [] {} (fun name hname => absurd hname (AList.notMem_empty name)) hkept

end Runs

/-- Programs that make what their command line says, or fail. -/
def sampleTools : BuildTools Bool (List String) where
  protoc _ _ := .ok fun name => [name]
  compile fine _ cmd := if fine then .ok cmd else .error (some ["in part"])
  link _ objects cmd := .ok (cmd ++ objects.flatMap fun object => object.getD [])

/-- A harness for protos and one in C, with some `.proto` files. -/
def sampleSite (fine : Bool) (protoNames : List String) : BuildSite Bool where
  src := fine
  sources :=
    { harnessesDir := "/h", pathExists := fun path => path = "/h/a.cc" ∨ path = "/h/b.c"
      realpath := id }
  fileText _ := none
  resolveTool name _ := some ("/bin/" ++ name)
  pkgConfig flag := flag
  workDir := .parse "/w"
  protosDir := .parse "/p"
  protoNames
  converterNames _ := none
  httpdRoot := .parse "/w/httpd-lf"
  configVars := none
  moduleDirs := []
  moduleLibs := []

/-- A build that fails among others: it is built with one `.proto` file more afterwards. -/
def sampleEvents : List (BuildEvent Bool) :=
  [.build (sampleSite true ["x.proto"]) { harnessName := some "a" },
    .build (sampleSite false ["x.proto"]) { harnessName := some "b" },
    .build (sampleSite true ["x.proto", "y.proto"]) { harnessName := some "a" }]

/-- The last of three builds starts among what the others left. -/
theorem harnessBuilds_clean_three :
    ProtosKept [] sampleEvents ∧
      ∀ e ∈ (harnessBuilds .ascii sampleTools).trace {} sampleEvents,
        BuildsClean .ascii sampleTools e :=
  ⟨by decide, harnessBuilds_clean .ascii sampleTools sampleEvents (by decide)⟩

end Apatchy
