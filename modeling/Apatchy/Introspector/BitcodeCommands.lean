import Apatchy.Foundations.CommandLines
import Apatchy.Foundations.PathNames
import Apatchy.Foundations.Search
import Apatchy.Foundations.Text

/-!
# The commands that make bitcode

The call graph is read from bitcode. To make it, `build_bitcode` takes the commands by which the
sources were compiled from the compilation databases, and changes them (`Apatchy.bitcodeCommand`):
another output, no sanitizers, no plugins of the old pass manager, and the flags that turn
warnings off and ask for bitcode.

The changes are made argument by argument, without knowing which argument is the value of the
one before. They come to what they should exactly on the level of options
(`Apatchy.bitcodeCommand_eq`), as long as no value that stands apart looks like an argument
that is changed, and what loads a plugin is followed by the plugin.

Which entries are taken, where the bitcode goes and how it is made is said in
`Apatchy.bitcodeJobs_read`. Which options take their values apart is a matter of the compiler,
and a parameter.
-/

namespace Apatchy

/-! ### The loop over the arguments -/

/-- The loop over the arguments. `skip` arguments are still to be left out. -/
def rewriteArgs (output : String) : ℕ → List String → List String
  | _, [] => []
  | skip + 1, _ :: args => rewriteArgs output skip args
  | 0, arg :: args =>
    if arg = "-o" ∧ args ≠ [] then "-o" :: output :: rewriteArgs output 1 args
    -- a plugin: `-Xclang -load -Xclang` and its path
    else if arg = "-Xclang" ∧ 3 ≤ args.length ∧ args.head? = some "-load" then
      rewriteArgs output 3 args
    else if startsWith "-fsanitize=" arg then rewriteArgs output 0 args
    else if arg = "-fno-experimental-new-pass-manager" then rewriteArgs output 0 args
    else arg :: rewriteArgs output 0 args

/-- **The command that makes bitcode**, of the arguments of a command. -/
def bitcodeCommand (cc output : String) (args : List String) : List String :=
  let newArgs := rewriteArgs output 0 (cc :: args.tail)
  let newArgs := if "-o" ∉ newArgs then newArgs ++ ["-o", output] else newArgs
  let newArgs := if "-emit-llvm" ∉ newArgs then newArgs.insertIdx 1 "-emit-llvm" else newArgs
  if "-w" ∉ newArgs then newArgs.insertIdx 1 "-w" else newArgs

/-! ### The entries of the compilation databases -/

/-- An entry of a compilation database. -/
structure CompileEntry where
  /-- `file`. -/
  file : String
  /-- `arguments`. -/
  arguments : List String := []
  /-- `command`. -/
  command : String := ""
  /-- `directory`. -/
  directory : Option String := none

/-- The arguments of an entry. -/
def CompileEntry.args (entry : CompileEntry) : List String :=
  if entry.arguments ≠ [] then entry.arguments
  else (splitBlanks entry.command.toList).map String.ofList

/-- `path.relative_to(root)`, as parts. -/
def PathName.relativeTo (path root : PathName) : Option (List (List Char)) :=
  if path.absolute = root.absolute ∧ root.parts <+: path.parts then
    some (path.parts.drop root.parts.length)
  else none

/-- `_resolve_src_rel`. -/
def resolveSrcRel (src : PathName) (roots : List PathName) : Option (List (List Char)) :=
  roots.findSome? src.relativeTo

/-- A name without its suffix. -/
def stemOf (name : List Char) : List Char :=
  match rfind ['.'] name with
  | some i => if 0 < i ∧ i < name.length - 1 then name.take i else name
  | none => name

/-- `path.with_suffix(".bc")`, of the parts of a path. -/
def bitcodeParts (parts : List (List Char)) : List (List Char) :=
  parts.dropLast ++ parts.getLast?.toList.map fun name => stemOf name ++ ".bc".toList

/-- `str(path)`. -/
def PathName.text (path : PathName) : String :=
  String.ofList ((if path.absolute then ['/'] else []) ++ List.intercalate ['/'] path.parts)

/-- `exclude_dirs`. -/
def excludeDirs : List String :=
  ["test", "tests", "support", "tools", "build", "examples", "benchmark", "win32", "os2",
    "netware", "beos"]

/-- Whether an entry is taken: a C source below one of the roots, and not in a directory that is
left out. -/
def takesEntry (roots : List PathName) (entry : CompileEntry) : Bool :=
  ".c".toList.isSuffixOf entry.file.toList &&
    match resolveSrcRel (.parse entry.file) roots with
    | none => false
    | some rel => rel.all fun part => String.ofList part ∉ excludeDirs

/-- A command that is run. -/
structure BitcodeJob where
  /-- The source. -/
  src : String
  /-- `output`. -/
  output : PathName
  /-- `new_args`. -/
  command : List String
  /-- Where it is run. -/
  directory : String

/-- What is run for an entry. -/
def bitcodeJob (cc covRoot : String) (bcPath : PathName) (roots : List PathName)
    (entry : CompileEntry) : Option BitcodeJob :=
  match resolveSrcRel (.parse entry.file) roots with
  | none => none
  | some dst =>
    let output : PathName := bcPath.join ⟨false, bitcodeParts dst⟩
    -- an entry without arguments and without words in its command
    if entry.args = [] then none
    else some
      { src := entry.file
        output := output
        command := bitcodeCommand cc output.text entry.args
        directory := entry.directory.getD covRoot }

/-- **What `build_bitcode` runs**, for the entries of the compilation databases. -/
def bitcodeJobs (cc covRoot : String) (bcPath : PathName) (roots : List PathName)
    (entries : List CompileEntry) : List BitcodeJob :=
  (entries.filter (takesEntry roots)).filterMap (bitcodeJob cc covRoot bcPath roots)

/-! ### Options -/

/-- The flag that chooses the old pass manager. -/
abbrev legacyPassManager : String := "-fno-experimental-new-pass-manager"

/-- **How clang reads its arguments**: which options take their values apart. -/
structure ClangOptions where
  /-- The options that take their values apart. -/
  separate : String → Bool
  /-- The output stands apart. -/
  separate_output : separate "-o" = true
  /-- So does what is passed on to the front end. -/
  separate_frontEnd : separate "-Xclang" = true
  /-- The sanitizers are named in one argument. -/
  separate_sanitize : ∀ arg, startsWith "-fsanitize=" arg = true → separate arg = false
  /-- The choice of the pass manager is a flag. -/
  separate_passManager : separate legacyPassManager = false
  /-- Asking for bitcode is a flag. -/
  separate_bitcode : separate "-emit-llvm" = false
  /-- Turning warnings off is a flag. -/
  separate_noWarnings : separate "-w" = false

/-- An argument that the loop looks for. -/
def LookedFor (arg : String) : Prop :=
  arg ∈ ["-o", "-Xclang", legacyPassManager, "-emit-llvm", "-w"] ∨
    startsWith "-fsanitize=" arg = true

/-- The option that loads a plugin; the next one names it. -/
def loadOption : CommandOption := .valued "-Xclang" "-load"

/-- **Options whose values do not look like what the loop looks for.** -/
structure PlainOptions (clang : ClangOptions) (options : List CommandOption) : Prop where
  /-- They are options of clang. -/
  fits : ∀ option ∈ options, option.Fits clang.separate
  /-- No value is looked for. -/
  values : ∀ name value, .valued name value ∈ options → ¬ LookedFor value
  /-- A plugin that is loaded is named in one option more. -/
  plugins : ∀ before after, options = before ++ loadOption :: after →
    ∃ plugin rest, after = .valued "-Xclang" plugin :: rest

/-- The options without the plugins. -/
def dropPlugins : List CommandOption → List CommandOption
  | [] => []
  | [option] => [option]
  | option :: next :: options =>
    if option = loadOption then dropPlugins options else option :: dropPlugins (next :: options)

/-- Neither a sanitizer nor the choice of the pass manager. -/
def isRetained : CommandOption → Bool
  | .alone arg => !startsWith "-fsanitize=" arg && arg ≠ legacyPassManager
  | .valued _ _ => true

/-- An option, with this output. -/
def setOutput (output : String) : CommandOption → CommandOption
  | .alone arg => .alone arg
  | .valued name value => if name = "-o" then .valued "-o" output else .valued name value

/-- The options that are left by the loop. -/
def rewrittenOptions (output : String) (options : List CommandOption) : List CommandOption :=
  ((dropPlugins options).filter isRetained).map (setOutput output)

section Loop

variable {clang : ClangOptions} {output : String}

theorem rewriteArgs_alone {arg : String} (h : clang.separate arg = false) (args : List String) :
    rewriteArgs output 0 (arg :: args) =
      if isRetained (.alone arg) then arg :: rewriteArgs output 0 args
      else rewriteArgs output 0 args := by
  have houtput : arg ≠ "-o" := by
    rintro rfl
    exact absurd (h.symm.trans clang.separate_output) (by decide)
  have hfrontEnd : arg ≠ "-Xclang" := by
    rintro rfl
    exact absurd (h.symm.trans clang.separate_frontEnd) (by decide)
  rw [rewriteArgs, if_neg fun h => houtput h.1, if_neg fun h => hfrontEnd h.1]
  rcases hsanitize : startsWith "-fsanitize=" arg with _ | _
  · by_cases hpass : arg = legacyPassManager
    · simp [isRetained, hpass]
    · simp [isRetained, hsanitize, hpass]
  · simp [isRetained, hsanitize]

/-- A value is passed over. -/
theorem rewriteArgs_value {value : String} (h : ¬ LookedFor value) (args : List String) :
    rewriteArgs output 0 (value :: args) = value :: rewriteArgs output 0 args := by
  simp only [LookedFor, List.mem_cons, List.not_mem_nil, or_false, not_or] at h
  rw [rewriteArgs, if_neg fun h' => h.1.1 h'.1, if_neg fun h' => h.1.2.1 h'.1, if_neg h.2,
    if_neg h.1.2.2.1]

/-- An option that is not looked for is passed over with its value. -/
theorem rewriteArgs_valued {name value : String} (hname : clang.separate name = true)
    (hvalue : ¬ LookedFor value) (houtput : name ≠ "-o") {args : List String}
    (hload : .valued name value = loadOption → args = []) :
    rewriteArgs output 0 (name :: value :: args) =
      name :: value :: rewriteArgs output 0 args := by
  have hsanitize : ¬ startsWith "-fsanitize=" name = true := fun h => by
    rw [clang.separate_sanitize name h] at hname
    exact absurd hname (by decide)
  have hpass : name ≠ legacyPassManager := by
    rintro rfl
    rw [clang.separate_passManager] at hname
    exact absurd hname (by decide)
  rw [rewriteArgs, if_neg fun h => houtput h.1, if_neg, if_neg hsanitize, if_neg hpass,
    rewriteArgs_value hvalue]
  rintro ⟨rfl, hlength, hhead⟩
  obtain rfl : value = "-load" := by simpa using hhead
  rw [hload rfl] at hlength
  exact absurd hlength (by simp)

/-- **One option is rewritten**, unless it loads a plugin. -/
theorem rewriteArgs_option {option : CommandOption} (hfits : option.Fits clang.separate)
    (hvalue : ∀ name value, option = .valued name value → ¬ LookedFor value) {args : List String}
    (hload : option = loadOption → args = []) :
    rewriteArgs output 0 (option.args ++ args) =
      (if isRetained option then (setOutput output option).args else []) ++
        rewriteArgs output 0 args := by
  rcases option with arg | ⟨name, value⟩
  · show rewriteArgs output 0 (arg :: args) = _
    rw [rewriteArgs_alone hfits]
    split_ifs
    · rfl
    · rfl
  · by_cases houtput : name = "-o"
    · subst houtput
      show rewriteArgs output 0 ("-o" :: value :: args) = _
      rw [rewriteArgs, if_pos ⟨rfl, List.cons_ne_nil _ _⟩]
      rfl
    · show rewriteArgs output 0 (name :: value :: args) = _
      rw [rewriteArgs_valued hfits (hvalue name value rfl) houtput hload, isRetained, if_pos rfl,
        setOutput, if_neg houtput]
      rfl

/-- **The loop rewrites options**, one by one. -/
theorem rewriteArgs_printOptions {options : List CommandOption} (h : PlainOptions clang options) :
    rewriteArgs output 0 (printOptions options) =
      printOptions (rewrittenOptions output options) := by
  have hcons : ∀ (option : CommandOption) (rest : List CommandOption),
      printOptions (((option :: rest).filter isRetained).map (setOutput output)) =
        (if isRetained option then (setOutput output option).args else []) ++
          printOptions ((rest.filter isRetained).map (setOutput output)) := by
    intro option rest
    rw [List.filter_cons]
    split_ifs
    · rfl
    · rfl
  induction options using dropPlugins.induct with
  | case1 => rfl
  | case2 option =>
    have hone : rewriteArgs output 0 (option.args ++ []) = _ :=
      rewriteArgs_option (h.fits option List.mem_cons_self)
        (fun name value hoption => h.values name value (by simp [hoption])) fun _ => rfl
    rw [rewrittenOptions, dropPlugins, hcons]
    exact hone
  | case3 next options ih =>
    -- four arguments are left out
    obtain ⟨plugin, rest, hnext⟩ := h.plugins [] (next :: options) rfl
    obtain ⟨rfl, rfl⟩ := List.cons_eq_cons.mp hnext
    have hrest : PlainOptions clang options :=
      { fits := fun option hoption => h.fits option (by simp [hoption])
        values := fun name value hoption => h.values name value (by simp [hoption])
        plugins := fun before after heq =>
          h.plugins (loadOption :: .valued "-Xclang" plugin :: before) after (by rw [heq]; rfl) }
    rw [rewrittenOptions, dropPlugins, if_pos rfl, ← rewrittenOptions, ← ih hrest]
    rfl
  | case4 option next options hload ih =>
    have hrest : PlainOptions clang (next :: options) :=
      { fits := fun option' hoption' => h.fits option' (List.mem_cons_of_mem _ hoption')
        values := fun name value hoption' => h.values name value (List.mem_cons_of_mem _ hoption')
        plugins := fun before after heq =>
          h.plugins (option :: before) after (by rw [heq]; rfl) }
    have hone : rewriteArgs output 0 (option.args ++ printOptions (next :: options)) = _ :=
      rewriteArgs_option (h.fits option List.mem_cons_self)
        (fun name value hoption => h.values name value (by simp [hoption]))
        fun hload' => absurd hload' hload
    rw [rewrittenOptions, dropPlugins, if_neg hload, hcons, ← rewrittenOptions, ← ih hrest]
    exact hone

end Loop

/-! ### The whole command -/

/-- An option for the output. -/
def isOutput : CommandOption → Bool
  | .alone _ => false
  | .valued name _ => name = "-o"

/-- The options with an output. -/
def withOutput (output : String) (options : List CommandOption) : List CommandOption :=
  if options.any isOutput then options else options ++ [.valued "-o" output]

/-- The options with a flag. -/
def withFlag (flag : String) (options : List CommandOption) : List CommandOption :=
  if .alone flag ∈ options then options else .alone flag :: options

/-- **The options of the command that makes bitcode.** -/
def bitcodeOptions (output : String) (options : List CommandOption) : List CommandOption :=
  withFlag "-w" (withFlag "-emit-llvm" (withOutput output (rewrittenOptions output options)))

/-- What the loop looks for begins with a dash. -/
theorem not_lookedFor {arg : String} (h : startsWith "-" arg = false) : ¬ LookedFor arg := by
  rintro (hmem | hsanitize)
  · have hdash : ∀ arg ∈ ["-o", "-Xclang", legacyPassManager, "-emit-llvm", "-w"],
        startsWith "-" arg = true := by decide +kernel
    rw [hdash arg hmem] at h
    exact absurd h (by decide)
  · rw [startsWith, List.isPrefixOf_iff_prefix] at hsanitize
    have hprefix : "-".toList <+: arg.toList :=
      List.IsPrefix.trans (by decide +kernel : "-".toList <+: "-fsanitize=".toList) hsanitize
    rw [startsWith, List.isPrefixOf_iff_prefix.mpr hprefix] at h
    exact absurd h (by decide)

theorem dropPlugins_sublist (options : List CommandOption) :
    (dropPlugins options).Sublist options := by
  induction options using dropPlugins.induct with
  | case1 => exact List.Sublist.refl _
  | case2 option => exact List.Sublist.refl _
  | case3 next options ih =>
    rw [dropPlugins, if_pos rfl]
    exact (ih.cons next).cons loadOption
  | case4 option next options hload ih =>
    rw [dropPlugins, if_neg hload]
    exact ih.cons_cons option

/-- **Options that the last steps can add to**: they are options of clang, and no value is looked
for. -/
structure Addable (clang : ClangOptions) (options : List CommandOption) : Prop where
  /-- They are options of clang. -/
  fits : ∀ option ∈ options, option.Fits clang.separate
  /-- No value is looked for. -/
  values : ∀ name value, .valued name value ∈ options → ¬ LookedFor value

section Adding

variable {clang : ClangOptions} {cc output : String} {options : List CommandOption}

theorem addable_rewrittenOptions (h : PlainOptions clang options)
    (houtput : startsWith "-" output = false) :
    Addable clang (rewrittenOptions output options) := by
  -- what is left is options of the entry, but for the output
  have hmem : ∀ option ∈ (dropPlugins options).filter isRetained, option ∈ options :=
    fun option hoption => (dropPlugins_sublist options).subset (List.mem_of_mem_filter hoption)
  constructor
  · intro option hoption
    obtain ⟨before, hbefore, rfl⟩ := List.mem_map.mp hoption
    have hfits := h.fits before (hmem before hbefore)
    rcases before with arg | ⟨name, value⟩
    · exact hfits
    · rw [setOutput]
      split_ifs
      · exact clang.separate_output
      · exact hfits
  · intro name value hoption
    obtain ⟨before, hbefore, heq⟩ := List.mem_map.mp hoption
    rcases before with arg | ⟨name', value'⟩
    · exact absurd heq (by simp [setOutput])
    · rw [setOutput] at heq
      split_ifs at heq with hname
      · obtain ⟨-, rfl⟩ := CommandOption.valued.inj heq
        exact not_lookedFor houtput
      · obtain ⟨rfl, rfl⟩ := CommandOption.valued.inj heq
        exact h.values _ _ (hmem _ hbefore)

theorem Addable.withOutput (h : Addable clang options) (houtput : startsWith "-" output = false) :
    Addable clang (withOutput output options) := by
  rw [Apatchy.withOutput]
  split_ifs
  · exact h
  · refine ⟨List.forall_mem_append.mpr ⟨h.fits, ?_⟩, fun name value hoption => ?_⟩
    · exact List.forall_mem_singleton.mpr clang.separate_output
    · rcases List.mem_append.mp hoption with hoption | hoption
      · exact h.values name value hoption
      · obtain ⟨-, rfl⟩ := CommandOption.valued.inj (List.mem_singleton.mp hoption)
        exact not_lookedFor houtput

theorem Addable.withFlag (h : Addable clang options) {flag : String}
    (hflag : clang.separate flag = false) : Addable clang (withFlag flag options) := by
  rw [Apatchy.withFlag]
  split_ifs
  · exact h
  · refine ⟨List.forall_mem_cons.mpr ⟨hflag, h.fits⟩, fun name value hoption => ?_⟩
    rcases List.mem_cons.mp hoption with hoption | hoption
    · exact absurd hoption (by simp)
    · exact h.values name value hoption

/-- An output is among the arguments exactly if it is among the options. -/
theorem mem_output (h : Addable clang options) (hcc : startsWith "-" cc = false) :
    "-o" ∈ cc :: printOptions options ↔ options.any isOutput = true := by
  have hlooked : LookedFor "-o" := Or.inl (by simp)
  have hne : "-o" ≠ cc := fun heq => not_lookedFor hcc (heq ▸ hlooked)
  rw [List.mem_cons, or_iff_right hne, mem_printOptions, List.any_eq_true]
  constructor
  · rintro (halone | ⟨name, value, hoption, rfl | rfl⟩)
    · have hfits : clang.separate "-o" = false := h.fits _ halone
      exact absurd (hfits.symm.trans clang.separate_output) (by decide)
    · exact ⟨_, hoption, by simp [isOutput]⟩
    · exact absurd hlooked (h.values _ _ hoption)
  · rintro ⟨arg | ⟨name, value⟩, hoption, hisOutput⟩
    · exact absurd hisOutput (by simp [isOutput])
    · obtain rfl : name = "-o" := by simpa [isOutput] using hisOutput
      exact Or.inr ⟨_, value, hoption, Or.inl rfl⟩

/-- A flag is among the arguments exactly if it is among the options. -/
theorem mem_flag (h : Addable clang options) (hcc : startsWith "-" cc = false) {flag : String}
    (hlooked : LookedFor flag) (hflag : clang.separate flag = false) :
    flag ∈ cc :: printOptions options ↔ .alone flag ∈ options := by
  have hne : flag ≠ cc := fun heq => not_lookedFor hcc (heq ▸ hlooked)
  rw [List.mem_cons, or_iff_right hne, mem_printOptions, or_iff_left]
  rintro ⟨name, value, hoption, rfl | rfl⟩
  · have hfits : clang.separate flag = true := h.fits _ hoption
    exact absurd (hflag.symm.trans hfits) (by decide)
  · exact h.values _ _ hoption hlooked

/-- **The command is that of the options.** -/
theorem bitcodeCommand_eq (compiler : String) (h : PlainOptions clang options)
    (hcc : startsWith "-" cc = false) (houtput : startsWith "-" output = false) :
    bitcodeCommand cc output (compiler :: printOptions options) =
        cc :: printOptions (bitcodeOptions output options) ∧
      Addable clang (bitcodeOptions output options) := by
  have hfirst : rewriteArgs output 0 (cc :: printOptions options) =
      cc :: printOptions (rewrittenOptions output options) := by
    rw [rewriteArgs_value (not_lookedFor hcc), rewriteArgs_printOptions h]
  have hrewritten := addable_rewrittenOptions h houtput
  have hwithOutput := hrewritten.withOutput houtput
  have hbitcode := hwithOutput.withFlag clang.separate_bitcode
  have hw : LookedFor "-w" := Or.inl (by simp)
  have hemit : LookedFor "-emit-llvm" := Or.inl (by simp)
  -- adding to the arguments is adding to the options
  have hflag : ∀ {flag : String} {options : List CommandOption}, Addable clang options →
      LookedFor flag → clang.separate flag = false →
      (if flag ∉ cc :: printOptions options then
        (cc :: printOptions options).insertIdx 1 flag else cc :: printOptions options) =
        cc :: printOptions (withFlag flag options) := by
    intro flag options hoptions hlooked hseparate
    rw [withFlag]
    by_cases hmem : .alone flag ∈ options
    · rw [if_pos hmem, if_neg (not_not.mpr ((mem_flag hoptions hcc hlooked hseparate).mpr hmem))]
    · rw [if_neg hmem, if_pos fun h => hmem ((mem_flag hoptions hcc hlooked hseparate).mp h)]
      rfl
  have hout : (if "-o" ∉ cc :: printOptions (rewrittenOptions output options) then
      cc :: printOptions (rewrittenOptions output options) ++ ["-o", output]
      else cc :: printOptions (rewrittenOptions output options)) =
        cc :: printOptions (withOutput output (rewrittenOptions output options)) := by
    rw [withOutput]
    by_cases hmem : (rewrittenOptions output options).any isOutput = true
    · rw [if_pos hmem, if_neg (not_not.mpr ((mem_output hrewritten hcc).mpr hmem))]
    · rw [if_neg hmem, if_pos fun h => hmem ((mem_output hrewritten hcc).mp h),
        printOptions_append]
      rfl
  refine ⟨?_, hbitcode.withFlag clang.separate_noWarnings⟩
  simp only [bitcodeCommand, List.tail_cons, hfirst, hout]
  rw [hflag hwithOutput hemit clang.separate_bitcode, hflag hbitcode hw clang.separate_noWarnings,
    bitcodeOptions]

end Adding

/-! ### What the command says -/

/-- An option that is about neither the output nor warnings nor bitcode. -/
def isOther (option : CommandOption) : Bool :=
  !isOutput option && option ≠ .alone "-w" && option ≠ .alone "-emit-llvm"

/-- **A command makes bitcode as another command compiles**: it has one output, the flags for
bitcode without warnings, and otherwise the same options, but no sanitizers and no plugins. -/
structure MakesBitcode (output : String) (options made : List CommandOption) : Prop where
  /-- It has one output. -/
  output : ∀ value, .valued "-o" value ∈ made ↔ value = output
  /-- It turns warnings off. -/
  noWarnings : .alone "-w" ∈ made
  /-- It asks for bitcode. -/
  bitcode : .alone "-emit-llvm" ∈ made
  /-- It has no sanitizers. -/
  retained : ∀ option ∈ made, isRetained option = true
  /-- The other options are the same, in the same order. -/
  other : made.filter isOther =
    (dropPlugins options).filter fun option => isRetained option && isOther option

section Made

variable {output : String} {options : List CommandOption}

theorem mem_withFlag {flag : String} {option : CommandOption} :
    option ∈ withFlag flag options ↔ option = .alone flag ∨ option ∈ options := by
  rw [withFlag]
  split_ifs with hmem
  · exact ⟨Or.inr, fun h => h.elim (fun heq => heq ▸ hmem) id⟩
  · exact List.mem_cons

theorem mem_withOutput {option : CommandOption} :
    option ∈ withOutput output options ↔
      option ∈ options ∨ (options.any isOutput = false ∧ option = .valued "-o" output) := by
  rw [withOutput]
  split_ifs with hany
  · simp [hany]
  · simp [hany]

theorem setOutput_of_not_isOutput {option : CommandOption} (h : isOutput option = false) :
    setOutput output option = option := by
  rcases option with arg | ⟨name, value⟩
  · rfl
  · rw [setOutput, if_neg (by simpa [isOutput] using h)]

theorem isOutput_setOutput (option : CommandOption) :
    isOutput (setOutput output option) = isOutput option := by
  rcases option with arg | ⟨name, value⟩
  · rfl
  · rw [setOutput]
    split_ifs with hname
    · simp [isOutput, hname]
    · rfl

/-- Setting the output leaves the other options. -/
theorem filter_setOutput (options : List CommandOption) :
    (options.map (setOutput output)).filter isOther = options.filter isOther := by
  induction options with
  | nil => rfl
  | cons option options ih =>
    rw [List.map_cons]
    rcases houtput : isOutput option with _ | _
    · rw [setOutput_of_not_isOutput houtput, List.filter_cons, List.filter_cons, ih]
    · have hset : isOther (setOutput output option) = false := by
        simp [isOther, isOutput_setOutput, houtput]
      have hoption : isOther option = false := by simp [isOther, houtput]
      rw [List.filter_cons_of_neg (by simp [hset]), List.filter_cons_of_neg (by simp [hoption]), ih]

theorem filter_withFlag {flag : String} (h : isOther (.alone flag) = false) :
    (withFlag flag options).filter isOther = options.filter isOther := by
  rw [withFlag]
  split_ifs
  · rfl
  · rw [List.filter_cons_of_neg (by simp [h])]

theorem filter_withOutput :
    (withOutput output options).filter isOther = options.filter isOther := by
  rw [withOutput]
  split_ifs
  · rfl
  · rw [List.filter_append]
    simp [isOther, isOutput]

theorem makesBitcode_bitcodeOptions :
    MakesBitcode output options (bitcodeOptions output options) := by
  -- every output among the options has been replaced
  have hisOutput : ∀ value, CommandOption.valued "-o" value ∈ rewrittenOptions output options →
      value = output := by
    intro value hmem
    obtain ⟨before, -, heq⟩ := List.mem_map.mp hmem
    rcases before with arg | ⟨name', value'⟩
    · exact absurd heq (by simp [setOutput])
    · rw [setOutput] at heq
      split_ifs at heq with hname
      · exact (CommandOption.valued.inj heq).2.symm
      · exact absurd (CommandOption.valued.inj heq).1 hname
  constructor
  · -- the only output
    intro value
    rw [bitcodeOptions, mem_withFlag, or_iff_right (by simp), mem_withFlag, or_iff_right (by simp),
      mem_withOutput]
    constructor
    · rintro (hmem | ⟨-, heq⟩)
      · exact hisOutput value hmem
      · exact (CommandOption.valued.inj heq).2
    · rintro rfl
      rcases hany : (rewrittenOptions value options).any isOutput with _ | _
      · exact Or.inr ⟨rfl, rfl⟩
      · obtain ⟨option, hmem, houtput⟩ := List.any_eq_true.mp hany
        rcases option with arg | ⟨name', value'⟩
        · exact absurd houtput (by simp [isOutput])
        · obtain rfl : name' = "-o" := by simpa [isOutput] using houtput
          exact Or.inl (hisOutput value' hmem ▸ hmem)
  · -- the two flags
    exact mem_withFlag.mpr (Or.inl rfl)
  · exact mem_withFlag.mpr (Or.inr (mem_withFlag.mpr (Or.inl rfl)))
  · -- nothing that does not go with bitcode
    intro option hmem
    rw [bitcodeOptions, mem_withFlag, mem_withFlag, mem_withOutput] at hmem
    rcases hmem with rfl | rfl | hmem | ⟨-, rfl⟩
    · decide +kernel
    · decide +kernel
    · obtain ⟨before, hbefore, rfl⟩ := List.mem_map.mp hmem
      have hretained := List.of_mem_filter hbefore
      rcases before with arg | ⟨name', value'⟩
      · exact hretained
      · rw [setOutput]
        split_ifs
        · rfl
        · rfl
    · rfl
  · -- the other options, in their order
    rw [bitcodeOptions, filter_withFlag (by decide +kernel), filter_withFlag (by decide +kernel),
      filter_withOutput, rewrittenOptions, filter_setOutput, List.filter_filter]
    exact List.filter_congr fun option _ => Bool.and_comm _ _

end Made

/-- The spelling of an absolute path does not begin with a dash. -/
theorem startsWith_dash_absolute (parts : List (List Char)) :
    startsWith "-" (PathName.text ⟨true, parts⟩) = false := by
  have htext : (PathName.text ⟨true, parts⟩).toList = '/' :: List.intercalate ['/'] parts := by
    simp [PathName.text]
  rw [startsWith, htext]
  rfl

/-! ### All commands -/

theorem relativeTo_eq_some_iff {path root : PathName} {rel : List (List Char)} :
    path.relativeTo root = some rel ↔ path = ⟨root.absolute, root.parts ++ rel⟩ := by
  obtain ⟨absolute, parts⟩ := path
  rw [PathName.relativeTo]
  constructor
  · intro h
    split_ifs at h with hbelow
    obtain ⟨rfl, rest, rfl⟩ := hbelow
    have hrest := Option.some.inj h
    rw [List.drop_left] at hrest
    rw [hrest]
  · intro h
    obtain ⟨rfl, rfl⟩ := PathName.mk.inj h
    rw [if_pos ⟨rfl, List.prefix_append _ _⟩, List.drop_left]

/-- **A C source below a root**, and its path from the first root that it is below; no part of
that is a name that is left out. -/
structure IsSource (roots : List PathName) (entry : CompileEntry) (rel : List (List Char)) :
    Prop where
  /-- It is a C source. -/
  suffix : ".c".toList <:+ entry.file.toList
  /-- It is below a root. -/
  below : ∃ before root after, roots = before ++ root :: after ∧
    PathName.parse entry.file = ⟨root.absolute, root.parts ++ rel⟩ ∧
    ∀ other ∈ before, ∀ rel',
      PathName.parse entry.file ≠ ⟨other.absolute, other.parts ++ rel'⟩
  /-- No part is left out. -/
  included : ∀ part ∈ rel, String.ofList part ∉ excludeDirs

theorem isSource_iff {roots : List PathName} {entry : CompileEntry} {rel : List (List Char)} :
    takesEntry roots entry = true ∧ resolveSrcRel (.parse entry.file) roots = some rel ↔
      IsSource roots entry rel := by
  have hbelow : resolveSrcRel (.parse entry.file) roots = some rel ↔
      ∃ before root after, roots = before ++ root :: after ∧
        PathName.parse entry.file = ⟨root.absolute, root.parts ++ rel⟩ ∧
        ∀ other ∈ before, ∀ rel',
          PathName.parse entry.file ≠ ⟨other.absolute, other.parts ++ rel'⟩ := by
    rw [resolveSrcRel, List.findSome?_eq_some_iff]
    simp only [relativeTo_eq_some_iff, Option.eq_none_iff_forall_ne_some, ne_eq]
  constructor
  · rintro ⟨htakes, hrel⟩
    rw [takesEntry, hrel, Bool.and_eq_true, List.isSuffixOf_iff_suffix] at htakes
    exact ⟨htakes.1, hbelow.mp hrel, by simpa using htakes.2⟩
  · intro h
    have hrel := hbelow.mpr h.below
    refine ⟨?_, hrel⟩
    rw [takesEntry, hrel, Bool.and_eq_true, List.isSuffixOf_iff_suffix]
    exact ⟨h.suffix, by simpa using h.included⟩

/-- The last part of the path of a C source. -/
theorem IsSource.exists_stem {roots : List PathName} {entry : CompileEntry}
    {rel : List (List Char)} (h : IsSource roots entry rel) (hrel : rel ≠ []) :
    ∃ dirs stem, rel = dirs ++ [stem ++ ".c".toList] := by
  obtain ⟨front, hfront⟩ := h.suffix
  obtain ⟨-, root, -, -, hpath, -⟩ := h.below
  obtain ⟨dirs, stem, hparts⟩ := @PathName.exists_partsOf_concat front 'c' (by decide) (by decide)
    ['.'] (by decide)
  have hchars : front ++ ['.'] ++ ['c'] = entry.file.toList := by rw [← hfront]; simp
  rw [hchars] at hparts
  have hrel' : root.parts ++ rel = dirs ++ [stem ++ ['.'] ++ ['c']] := by
    rw [← hparts]
    exact (congrArg PathName.parts hpath).symm
  obtain ⟨init, last, rfl⟩ := (List.eq_nil_or_concat rel).resolve_left hrel
  rw [List.concat_eq_append, ← List.append_assoc] at hrel'
  obtain ⟨-, hlast⟩ := List.append_inj' hrel' rfl
  refine ⟨init, stem, ?_⟩
  rw [List.concat_eq_append, hlast, List.append_assoc]
  rfl

/-- **The name of the bitcode of a source**: `.bc` stands for `.c`, unless that is the whole
name. -/
def bitcodeName (stem : List Char) : List Char :=
  if stem = [] then ".c.bc".toList else stem ++ ".bc".toList

theorem bitcodeParts_concat (dirs : List (List Char)) (stem : List Char) :
    bitcodeParts (dirs ++ [stem ++ ".c".toList]) = dirs ++ [bitcodeName stem] := by
  have hstem : stemOf (stem ++ ".c".toList) ++ ".bc".toList = bitcodeName stem := by
    have hdot : rfind ['.'] (".c".toList) = some 0 := by decide
    have hfind := rfind_append hdot stem
    rw [stemOf, hfind, bitcodeName]
    rcases stem with _ | ⟨c, stem⟩
    · rfl
    · simp
  rw [bitcodeParts, List.dropLast_concat, List.getLast?_concat, Option.toList_some,
    List.map_singleton, hstem]

/-- **A command that makes bitcode of a source.** -/
structure JobFor (clang : ClangOptions) (cc covRoot : String) (bcPath : PathName)
    (entry : CompileEntry) (rel : List (List Char)) (job : BitcodeJob) : Prop where
  /-- It is for the source. -/
  src : job.src = entry.file
  /-- It is run where the source was compiled. -/
  directory : job.directory = entry.directory.getD covRoot
  /-- The bitcode is below its directory where the source is below the root. -/
  output : ∀ dirs stem, rel = dirs ++ [stem ++ ".c".toList] →
    job.output = ⟨true, bcPath.parts ++ dirs ++ [bitcodeName stem]⟩
  /-- The arguments of the entry, or else the words of its command, are changed as options. -/
  command : ∀ compiler options, entry.arguments = compiler :: printOptions options ∨
      entry.arguments = [] ∧ (splitBlanks entry.command.toList).map String.ofList =
        compiler :: printOptions options →
    PlainOptions clang options → ∃ made, job.command = cc :: printOptions made ∧
      readOptions clang.separate (printOptions made) = made ∧
      MakesBitcode job.output.text options made

/-- One entry. -/
theorem jobFor_bitcodeJob {clang : ClangOptions} {cc : String} (hcc : startsWith "-" cc = false)
    (covRoot : String) {bcPath : PathName} (hbcPath : bcPath.absolute = true)
    {roots : List PathName} {entry : CompileEntry} {rel : List (List Char)}
    (hrel : resolveSrcRel (.parse entry.file) roots = some rel) {job : BitcodeJob}
    (hmade : bitcodeJob cc covRoot bcPath roots entry = some job) :
    JobFor clang cc covRoot bcPath entry rel job := by
  rw [bitcodeJob, hrel] at hmade
  dsimp only at hmade
  split_ifs at hmade with hargs
  obtain rfl := Option.some.inj hmade
  have hjoin : bcPath.join ⟨false, bitcodeParts rel⟩ =
      ⟨true, bcPath.parts ++ bitcodeParts rel⟩ := by
    rw [PathName.join, if_neg Bool.false_ne_true, hbcPath]
  refine ⟨rfl, rfl, fun dirs stem hdirs => ?_, fun compiler options hentry hplain => ?_⟩
  · dsimp only
    rw [hjoin, hdirs, bitcodeParts_concat, List.append_assoc]
  · have houtput : startsWith "-" (bcPath.join ⟨false, bitcodeParts rel⟩).text = false := by
      rw [hjoin]
      exact startsWith_dash_absolute _
    -- the arguments as they are, or the words of the command
    have hargs : entry.args = compiler :: printOptions options := by
      rcases hentry with harguments | ⟨hnone, hcommand⟩
      · rw [CompileEntry.args, if_pos (by simp [harguments]), harguments]
      · rw [CompileEntry.args, if_neg (not_not.mpr hnone), hcommand]
    obtain ⟨heq, haddable⟩ := bitcodeCommand_eq compiler hplain hcc houtput
    refine ⟨_, ?_, readOptions_printOptions haddable.fits, makesBitcode_bitcodeOptions⟩
    dsimp only
    rw [hargs, heq]

/-- The options of clang that are needed for one source. -/
def fewOptions : ClangOptions where
  separate arg := arg ∈ ["-o", "-Xclang"]
  separate_output := by decide
  separate_frontEnd := by decide
  separate_sanitize arg h := by
    have hnot : ∀ arg ∈ ["-o", "-Xclang"], startsWith "-fsanitize=" arg = false := by
      decide +kernel
    refine decide_eq_false fun hmem => ?_
    rw [hnot arg hmem] at h
    exact absurd h (by decide)
  separate_passManager := by decide +kernel
  separate_bitcode := by decide
  separate_noWarnings := by decide

/-- The options of a command with a sanitizer and a plugin. -/
def pluginOptions : List CommandOption :=
  [.alone "-fsanitize=address", .valued "-Xclang" "-load", .valued "-Xclang" "pass.so",
    .alone "-c", .valued "-o" "core.o", .alone "core.c"]

theorem plainOptions_pluginOptions : PlainOptions fewOptions pluginOptions where
  fits := by
    simp [pluginOptions, CommandOption.Fits, fewOptions]
  values name value hmem := by
    have hvalue : value ∈ ["-load", "pass.so", "core.o"] := by
      simp only [pluginOptions, List.mem_cons, List.not_mem_nil, reduceCtorEq, false_or, or_false,
        CommandOption.valued.injEq] at hmem ⊢
      tauto
    have hnot : ∀ value ∈ ["-load", "pass.so", "core.o"], ¬ LookedFor value := by
      unfold LookedFor
      decide +kernel
    exact hnot value hvalue
  plugins before after heq := by
    rcases before with _ | ⟨b, _ | ⟨c, _ | ⟨d, _ | ⟨e, _ | ⟨f, _ | ⟨g, rest⟩⟩⟩⟩⟩⟩
    all_goals simp [pluginOptions, loadOption] at heq
    exact ⟨_, _, heq.2.symm⟩

/-- An entry for a source that was compiled with them. -/
def pluginEntry : CompileEntry where
  file := "/httpd-cov/server/core.c"
  arguments := "gcc" :: printOptions pluginOptions

end Apatchy
