import Apatchy.Foundations.Tables
import Apatchy.Introspector.CallGraph
import Mathlib.Data.Int.Notation

/-!
# The coverage of the functions

The introspection report has an entry for each function of the call graph, and into it
goes what llvm-cov has counted (`Apatchy.mergeCoverage`). The two tools name functions
differently: llvm-cov puts the file and a colon in front of the name of a static
function. So there are two tables, by the name and by what is after the first colon of
the name, and a function that is not in the first is looked up in the second.

The second table has one entry for all static functions of one name, that of the last
record. Which record an entry comes from does not depend on what is counted, so the code
is run with the records in the place of their entries. The entries come from the right
records exactly if the last static function of the name is the one of the same file, or
there is a record for the plain name, or none at all (`Apatchy.mergeCoverage_right_iff`).
-/

namespace Apatchy

/-! ### Records and entries -/

/-- A region of a record of llvm-cov. -/
structure CovRegion where
  /-- The first line. -/
  lineStart : ℤ
  /-- The first column. -/
  columnStart : ℤ
  /-- The last line. -/
  lineEnd : ℤ
  /-- The last column. -/
  columnEnd : ℤ
  /-- How often it was executed. -/
  executionCount : ℤ
deriving DecidableEq, Repr

/-- A record of llvm-cov, for a function. -/
structure CovFunction where
  /-- The name; that of a static function has its file in front. -/
  name : String
  /-- How often it was called. -/
  count : ℤ
  /-- The regions. -/
  regions : List CovRegion := []
deriving DecidableEq, Repr

/-- An entry of the report. -/
structure CovEntry where
  /-- Whether the function was called. -/
  hit : Bool
  /-- How often. -/
  count : ℤ
  /-- The number of regions. -/
  regionsTotal : ℕ
  /-- The number of regions that were executed. -/
  regionsCovered : ℕ
deriving DecidableEq, Repr

/-- The entry of a record. -/
def covEntry (func : CovFunction) : CovEntry where
  hit := func.count > 0
  count := func.count
  regionsTotal := func.regions.length
  regionsCovered := func.regions.countP fun r => r.executionCount > 0

/-- The entry of a function without a record. -/
def zeroEntry : CovEntry where
  hit := false
  count := 0
  regionsTotal := 0
  regionsCovered := 0

/-- `name.split(":", 1)[1]`, if there is a colon in the name. -/
def bareName (name : String) : Option String :=
  match name.toList.dropWhile (· ≠ ':') with
  | _ :: bare => some (String.ofList bare)
  | [] => none

/-! ### The tables -/

variable {E : Type}

/-- `cov_lookup` and `cov_stripped`, with entries of some type. -/
structure CovTables (E : Type) where
  /-- By name. -/
  lookup : Table String E
  /-- By what is after the first colon of the name. -/
  stripped : Table String E

/-- A record is added to the tables. -/
def CovTables.add (entryOf : CovFunction → E) (tables : CovTables E) (func : CovFunction) :
    CovTables E where
  lookup := tables.lookup.set func.name (entryOf func)
  stripped :=
    match bareName func.name with
    | some bare => tables.stripped.set bare (entryOf func)
    | none => tables.stripped

/-- The tables of some records. -/
def covTables (entryOf : CovFunction → E) (funcs : List CovFunction) : CovTables E :=
  funcs.foldl (CovTables.add entryOf) ⟨fun _ => none, fun _ => none⟩

/-- `cov_lookup.get(func_name) or cov_stripped.get(func_name)`; no entry is empty. -/
def CovTables.find (tables : CovTables E) (name : String) : Option E :=
  match tables.lookup name with
  | some cov => some cov
  | none => tables.stripped name

/-- A function of the report. -/
structure ReportFunction (E : Type) where
  /-- The name. -/
  name : String
  /-- What is known about it. -/
  info : FunctionMeta
  /-- Its coverage. -/
  coverage : E

/-- **The coverage is merged into the functions.** -/
def mergeCoverage (entryOf : CovFunction → E) (zero : E) (funcs : List CovFunction)
    (functions : List (String × FunctionMeta)) : List (ReportFunction E) :=
  functions.map fun p => ⟨p.1, p.2, ((covTables entryOf funcs).find p.1).getD zero⟩

/-! ### Where an entry comes from -/

/-- The last record of a name, if there is one. -/
def lastNamed (funcs : List CovFunction) (name : String) : Option CovFunction :=
  funcs.reverse.find? fun func => func.name = name

/-- The last record that has a name after its first colon, if there is one. -/
def lastStripped (funcs : List CovFunction) (name : String) : Option CovFunction :=
  funcs.reverse.find? fun func => bareName func.name = some name

theorem covTables_eq (entryOf : CovFunction → E) (funcs : List CovFunction) :
    covTables entryOf funcs = ⟨fill (fun func => some func.name) entryOf funcs,
      fill (fun func => bareName func.name) entryOf funcs⟩ := by
  induction funcs using List.reverseRecOn with
  | nil => rfl
  | append_singleton funcs func ih =>
    have hconcat : covTables entryOf (funcs ++ [func]) =
        (covTables entryOf funcs).add entryOf func := by simp [covTables]
    rw [hconcat, ih, fill_concat, fill_concat]
    rcases hbare : bareName func.name with _ | bare <;>
      simp [CovTables.add, Table.put, hbare]

/-- **The entry that is found** is that of the last record of the name, or else of the last
one that has the name after its first colon. -/
theorem find_covTables (entryOf : CovFunction → E) (funcs : List CovFunction) (name : String) :
    (covTables entryOf funcs).find name =
      ((lastNamed funcs name).or (lastStripped funcs name)).map entryOf := by
  simp only [CovTables.find, covTables_eq, fill_eq, Option.some.injEq]
  rw [← lastNamed, ← lastStripped]
  rcases lastNamed funcs name with _ | func <;> rfl

/-- **The entries are those of the records** that the code finds when it is run with the
records in the place of their entries. -/
theorem mergeCoverage_eq (funcs : List CovFunction) (functions : List (String × FunctionMeta)) :
    mergeCoverage covEntry zeroEntry funcs functions =
      (mergeCoverage some none funcs functions).map fun f =>
        ⟨f.name, f.info, f.coverage.elim zeroEntry covEntry⟩ := by
  simp only [mergeCoverage, List.map_map, find_covTables]
  refine List.map_congr_left fun p _ => ?_
  rw [Function.comp_apply]
  rcases (lastNamed funcs p.1).or (lastStripped funcs p.1) with _ | func <;> rfl

/-! ### The right record -/

/-- The name of the record of a static function. -/
def staticName (file name : String) : String := file ++ ":" ++ name

/-- **An entry comes from the right record**: one with the name of the function, or else one
with its file and its name; and from none only if there is neither. -/
def FromRightRecord (funcs : List CovFunction) (f : ReportFunction (Option CovFunction)) : Prop :=
  match f.coverage with
  | some func =>
    func ∈ funcs ∧ (func.name = f.name ∨
      (∀ func' ∈ funcs, func'.name ≠ f.name) ∧ func.name = staticName f.info.sourceFile f.name)
  | none =>
    ∀ func ∈ funcs, func.name ≠ f.name ∧ func.name ≠ staticName f.info.sourceFile f.name

/-- **When the right record is found**: there is one with the name of the function; or the
last one that has the name after its first colon is that of its file; or none has, and
none is that of its file. -/
def RightRecordFound (funcs : List CovFunction) (name file : String) : Prop :=
  (∃ func ∈ funcs, func.name = name) ∨
  (∃ func, lastStripped funcs name = some func ∧ func.name = staticName file name) ∨
  (lastStripped funcs name = none ∧ ∀ func ∈ funcs, func.name ≠ staticName file name)

theorem fromRightRecord_iff (funcs : List CovFunction) (p : String × FunctionMeta) :
    FromRightRecord funcs ⟨p.1, p.2, ((covTables some funcs).find p.1).getD none⟩ ↔
      RightRecordFound funcs p.1 p.2.sourceFile := by
  rw [find_covTables]
  rcases hnamed : lastNamed funcs p.1 with _ | func
  · have hno : ∀ func ∈ funcs, func.name ≠ p.1 := by
      intro func hfunc
      have hnone := List.find?_eq_none.mp hnamed func (List.mem_reverse.mpr hfunc)
      simpa using hnone
    have hnone : ¬ ∃ func ∈ funcs, func.name = p.1 := by
      rintro ⟨func, hfunc, hname⟩
      exact hno func hfunc hname
    rcases hstripped : lastStripped funcs p.1 with _ | func
    · -- neither table has the name
      constructor
      · intro h
        exact Or.inr (Or.inr ⟨hstripped, fun func hfunc => (h func hfunc).2⟩)
      · rintro (h | ⟨func, h, -⟩ | ⟨-, h⟩)
        · exact absurd h hnone
        · exact absurd (hstripped.symm.trans h) (by simp)
        · exact fun func hfunc => ⟨hno func hfunc, h func hfunc⟩
    · -- only the table of the stripped names has it
      have hmem : func ∈ funcs := List.mem_reverse.mp (List.mem_of_find?_eq_some hstripped)
      constructor
      · rintro ⟨-, h | ⟨-, h⟩⟩
        · exact absurd h (hno func hmem)
        · exact Or.inr (Or.inl ⟨func, hstripped, h⟩)
      · rintro (h | ⟨func', h, hname⟩ | ⟨h, -⟩)
        · exact absurd h hnone
        · obtain rfl : func = func' := Option.some.inj (hstripped.symm.trans h)
          exact ⟨hmem, Or.inr ⟨hno, hname⟩⟩
        · exact absurd (hstripped.symm.trans h) (by simp)
  · -- a record of the very name
    have hmem : func ∈ funcs := List.mem_reverse.mp (List.mem_of_find?_eq_some hnamed)
    have hname : func.name = p.1 := by simpa using List.find?_some hnamed
    exact ⟨fun _ => Or.inl ⟨func, hmem, hname⟩, fun _ => ⟨hmem, Or.inl hname⟩⟩

/-- **The coverage is attributed to the right functions exactly if the right record is found
for each**: the entries are those of the records that are found, and these are the right
ones under that condition. -/
theorem mergeCoverage_right_iff (funcs : List CovFunction)
    (functions : List (String × FunctionMeta)) :
    mergeCoverage covEntry zeroEntry funcs functions =
      (mergeCoverage some none funcs functions).map (fun f =>
        ⟨f.name, f.info, f.coverage.elim zeroEntry covEntry⟩) ∧
    ((∀ f ∈ mergeCoverage some none funcs functions, FromRightRecord funcs f) ↔
      ∀ p ∈ functions, RightRecordFound funcs p.1 p.2.sourceFile) := by
  refine ⟨mergeCoverage_eq funcs functions, ?_⟩
  simp only [mergeCoverage, List.forall_mem_map, fromRightRecord_iff]

/-! ### Two static functions of one name -/

/-- Two static functions, of which one was called. -/
def twoHelpers : List CovFunction := [⟨"a.c:helper", 5, []⟩, ⟨"b.c:helper", 0, []⟩]

/-- The function of the first file. -/
def helperOfA : String × FunctionMeta := ("helper", { name := "helper", sourceFile := "a.c" })

/-- **The counts of another file**: a function that was called five times is reported as
not called. -/
theorem mergeCoverage_twoHelpers :
    (mergeCoverage covEntry zeroEntry twoHelpers [helperOfA]).map ReportFunction.coverage =
      [⟨false, 0, 0, 0⟩] ∧
    ¬ ∀ f ∈ mergeCoverage some none twoHelpers [helperOfA], FromRightRecord twoHelpers f := by
  have hfind : (covTables some twoHelpers).find "helper" =
      some (some ⟨"b.c:helper", 0, []⟩) := by decide +kernel
  have hmerge : mergeCoverage some none twoHelpers [helperOfA] =
      [⟨"helper", helperOfA.2, some ⟨"b.c:helper", 0, []⟩⟩] := by
    simp [mergeCoverage, helperOfA, hfind]
  refine ⟨by decide +kernel, fun h => ?_⟩
  -- The record has neither the name of the function nor that of its file.
  have hright := h ⟨"helper", helperOfA.2, some ⟨"b.c:helper", 0, []⟩⟩ (by simp [hmerge])
  rcases hright.2 with hname | ⟨-, hname⟩
  · exact absurd hname (by decide)
  · exact absurd hname (by decide)

end Apatchy
