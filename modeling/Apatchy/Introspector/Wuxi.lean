import Apatchy.Introspector.CallTree
import Apatchy.Report.EntryMerge

/-!
# The introspector as a program

`wuxi` is the program around the walker: it reads a bitcode file and the name of an entry
function from its arguments, walks, and writes what it found as JSON. Its exit code is what
the framework looks at.

A function that is not in the module makes the walk return an empty result, with a root
that has no name, and an error message; the exit code is 0 all the same
(`Apatchy.Outside.wuxi_eq_of_runs`). A file that cannot be read or written makes it 1.
-/

namespace Apatchy

/-! ### Arguments -/

/-- What the arguments say. -/
structure WuxiArguments where
  /-- The bitcode file. -/
  bcPath : String := ""
  /-- The entry function. -/
  entryName : String := ""
  /-- The output file; without one the output is printed. -/
  outFile : String := ""
  /-- The number of positional arguments read. -/
  pos : ℕ := 0
deriving DecidableEq, Repr

/-- A positional argument; a third one is ignored. -/
def WuxiArguments.positional (args : WuxiArguments) (arg : String) : WuxiArguments :=
  if args.pos = 0 then { args with bcPath := arg, pos := args.pos + 1 }
  else if args.pos = 1 then { args with entryName := arg, pos := args.pos + 1 }
  else args

/-- The loop over the arguments. -/
def parseArguments : List String → WuxiArguments → WuxiArguments
  | [], args => args
  | [arg], args => args.positional arg
  | arg :: next :: rest, args =>
    if arg = "-f" then parseArguments rest { args with outFile := next }
    else parseArguments (next :: rest) (args.positional arg)

/-! ### The program -/

/-- What is written about a function; its name in the source is left out. -/
def functionToJson (info : FunctionMeta) : FunctionMeta := { info with name := "" }

/-- `resultToJson`. -/
def resultToJson (result : WalkResult) : WuxiResult where
  functions := result.functions.toList.map fun p => (p.1, functionToJson p.2)
  callTree := result.root
  callEdges := result.edges

/-- What is outside of the program: the files, and the names that `tempfile.mktemp` makes
up. -/
structure Outside (N F : Type) where
  /-- `parseIRFile`: the module in a bitcode file, if there is one. -/
  parseIRFile : String → Option (CallGraph N F)
  /-- Whether an output file can be opened. -/
  opens : String → Bool
  /-- The name of a temporary file, without its suffix, at each call. -/
  mktemp : ℕ → String

/-- A run of the program: its exit code, and the file it left. -/
structure WuxiRun where
  /-- The exit code. -/
  returncode : ℕ
  /-- The name of the file, and what is in it. -/
  written : Option (String × WuxiResult) := none

variable {N F : Type} [DecidableEq F]

namespace Outside

variable (w : Outside N F)

/-- What `main` does once it has read its arguments. -/
def analyze (args : WuxiArguments) : WuxiRun :=
  if args.bcPath = "" ∨ args.entryName = "" then { returncode := 1 }
  else
    match w.parseIRFile args.bcPath with
    | none => { returncode := 1 }
    | some g =>
      -- the bound on the recursion is large enough for every walk
      let result := (g.walk g.functions.length args.entryName).getD {}
      if args.outFile = "" then { returncode := 0 }
      else if w.opens args.outFile then
        { returncode := 0, written := some (args.outFile, resultToJson result) }
      else { returncode := 1 }

/-- **`main`**, without the name of the program. -/
def wuxi (argv : List String) : WuxiRun :=
  if argv.length < 2 then { returncode := 1 } else w.analyze (parseArguments argv {})

/-- The temporary file of a call. -/
def wuxiOut (i : ℕ) : String := w.mktemp i ++ ".json"

/-- The command line for an entry. -/
def wuxiCmd (bitcode entryName : String) (i : ℕ) : List String :=
  [bitcode, entryName, "-f", w.wuxiOut i]

/-! ### The command line of the framework -/

/-- A run for an entry that comes to its end: the bitcode file and the entry are no empty
names and no option, and the output file can be opened. -/
def Runs (bitcode entryName : String) (i : ℕ) : Prop :=
  (bitcode ≠ "" ∧ bitcode ≠ "-f") ∧ (entryName ≠ "" ∧ entryName ≠ "-f") ∧
    w.opens (w.wuxiOut i) = true

instance (bitcode entryName : String) (i : ℕ) : Decidable (w.Runs bitcode entryName i) :=
  inferInstanceAs (Decidable (_ ∧ _ ∧ _))

omit [DecidableEq F] in
theorem wuxiOut_ne (i : ℕ) : w.wuxiOut i ≠ "" ∧ w.wuxiOut i ≠ "-f" := by
  have hlength : 5 ≤ (w.wuxiOut i).length := by
    have hsuffix : ".json".length = 5 := by decide
    rw [wuxiOut, String.length_append, hsuffix]
    exact Nat.le_add_left _ _
  constructor <;> intro h <;> rw [h] at hlength <;> exact absurd hlength (by decide)

omit [DecidableEq F] in
theorem parseArguments_wuxiCmd {bitcode entryName : String} (hbitcode : bitcode ≠ "-f")
    (hentry : entryName ≠ "-f") (i : ℕ) :
    parseArguments (w.wuxiCmd bitcode entryName i) {} =
      ⟨bitcode, entryName, w.wuxiOut i, 2⟩ := by
  simp [wuxiCmd, parseArguments, hbitcode, hentry, WuxiArguments.positional]

theorem wuxi_wuxiCmd (bitcode entryName : String) (i : ℕ) :
    w.wuxi (w.wuxiCmd bitcode entryName i) =
      w.analyze (parseArguments (w.wuxiCmd bitcode entryName i) {}) :=
  if_neg (by simp [wuxiCmd])

/-- **A run that comes to its end** has exit code 0, and leaves what the walk returned. -/
theorem wuxi_eq_of_runs {bitcode entryName : String} {i : ℕ} (h : w.Runs bitcode entryName i)
    {g : CallGraph N F} (hg : w.parseIRFile bitcode = some g) :
    w.wuxi (w.wuxiCmd bitcode entryName i) =
      ⟨0, some (w.wuxiOut i,
        resultToJson ((g.walk g.functions.length entryName).getD {}))⟩ := by
  obtain ⟨⟨hbitcode, hbitcode'⟩, ⟨hentry, hentry'⟩, hopens⟩ := h
  rw [wuxi_wuxiCmd, parseArguments_wuxiCmd w hbitcode' hentry', analyze]
  simp [hbitcode, hentry, hg, (w.wuxiOut_ne i).1, hopens]

/-- What is written is written to the output file. -/
theorem outFile_of_written {args : WuxiArguments} {name : String} {result : WuxiResult}
    (h : (w.analyze args).written = some (name, result)) : args.outFile = name := by
  rw [analyze] at h
  rcases hg : w.parseIRFile args.bcPath with _ | g
  · simp only [hg, ite_self, reduceCtorEq] at h
  · simp only [hg] at h
    split_ifs at h
    exact (Prod.mk.inj (Option.some.inj h)).1

/-- A run that does not come to its end has another exit code, or does not leave the file. -/
theorem wuxi_of_not_runs {bitcode entryName : String} {i : ℕ}
    (h : ¬ w.Runs bitcode entryName i) :
    (w.wuxi (w.wuxiCmd bitcode entryName i)).returncode ≠ 0 ∨
      ∀ result, (w.wuxi (w.wuxiCmd bitcode entryName i)).written ≠
        some (w.wuxiOut i, result) := by
  rw [wuxi_wuxiCmd]
  by_cases hbitcode : bitcode = "-f"
  · -- The entry is taken for the output file, and no argument for the bitcode file.
    subst hbitcode
    have hargs : (parseArguments (w.wuxiCmd "-f" entryName i) {}).bcPath = "" := by
      simp [wuxiCmd, parseArguments]
    rw [analyze, if_pos (Or.inl hargs)]
    exact Or.inl (by decide)
  · by_cases hentry : entryName = "-f"
    · -- The output file is taken for the entry.
      subst hentry
      have hargs : (parseArguments (w.wuxiCmd bitcode "-f" i) {}).outFile = "-f" := by
        simp [wuxiCmd, parseArguments, hbitcode, WuxiArguments.positional]
      refine Or.inr fun result hwritten => (w.wuxiOut_ne i).2 ?_
      rw [← outFile_of_written w hwritten, hargs]
    · -- The arguments are what they are meant to be: a name is empty, or the output does not open.
      rw [parseArguments_wuxiCmd w hbitcode hentry, analyze]
      simp only [Runs, hbitcode, hentry, ne_eq, not_false_eq_true, and_true] at h
      by_cases hempty : bitcode = "" ∨ entryName = ""
      · exact Or.inl (by simp [hempty])
      · rw [not_or] at hempty
        have hopens : w.opens (w.wuxiOut i) = false := by
          simpa [hempty.1, hempty.2] using h
        refine Or.inl ?_
        rcases w.parseIRFile bitcode with _ | g
        · simp [hempty.1, hempty.2]
        · simp [hempty.1, hempty.2, (w.wuxiOut_ne i).1, hopens]

end Outside

end Apatchy
