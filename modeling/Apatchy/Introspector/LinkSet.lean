import Apatchy.Foundations.Greedy
import Apatchy.Foundations.Text
import Mathlib.Data.Finset.Basic
import Mathlib.Data.List.Induction

/-!
# The bitcode that is linked

The bitcode files are linked into one module, which fails if two of them define a symbol.
So `build_bitcode` asks `llvm-nm` what each file defines, and leaves out a file if one that
it took before defines a symbol of it (`Apatchy.linkSet`). Files are taken in the order of
the candidates, first come, first served (`Apatchy.linkSet_firstServed`).

What a file defines is said of the text that `llvm-nm` prints for it
(`Apatchy.BitcodeFile.defined`): a line with a value, a kind and a symbol.

If there is no `llvm-nm`, or it cannot be run for a file, the file is taken without its
symbols being known.
-/

namespace Apatchy

/-! ### What llvm-nm prints -/

/-- A bitcode file, and what `llvm-nm` prints for it, if it can be run. -/
structure BitcodeFile where
  /-- The path. -/
  path : String
  /-- `result.stdout`. -/
  stdout : Option String
deriving DecidableEq, Repr

/-- The symbol that a line says is defined: a function, or initialized or other data. -/
def definedSymbol (line : List Char) : Option String :=
  match splitBlanks line with
  | _ :: kind :: name :: _ =>
    if kind ∈ [['T'], ['D'], ['B']] then some (String.ofList name) else none
  | _ => none

/-- The symbols in an output of `llvm-nm`. -/
def symbolsOf (stdout : String) : Finset String :=
  ((splitLines stdout.toList).filterMap definedSymbol).toFinset

/-! ### The loop over the candidates -/

/-- The state of the loop. -/
structure LinkState where
  /-- `link_targets`. -/
  linkTargets : List BitcodeFile := []
  /-- `skipped`. -/
  skipped : List BitcodeFile := []
  /-- The keys of `seen_globals`. -/
  seenGlobals : Finset String := ∅

/-- One candidate. -/
def linkStep (llvmNm : Option String) (st : LinkState) (bcFile : BitcodeFile) : LinkState :=
  match llvmNm with
  -- without `llvm-nm` everything is linked
  | none => { st with linkTargets := st.linkTargets ++ [bcFile] }
  | some _ =>
    match bcFile.stdout with
    -- so is a file on which it fails
    | none => { st with linkTargets := st.linkTargets ++ [bcFile] }
    | some stdout =>
      let symbols := symbolsOf stdout
      let conflict := decide (∃ sym ∈ symbols, sym ∈ st.seenGlobals)
      if conflict then { st with skipped := st.skipped ++ [bcFile] }
      else
        { st with
          seenGlobals := st.seenGlobals ∪ symbols
          linkTargets := st.linkTargets ++ [bcFile] }

/-- **The link set**, of some candidates. -/
def linkSet (llvmNm : Option String) (candidates : List BitcodeFile) : LinkState :=
  candidates.foldl (linkStep llvmNm) {}

/-! ### What a file defines -/

/-- **A line defines a symbol**: it has a value, one of the kinds T, D and B, and the symbol,
with blanks between them. -/
def LineDefines (line symbol : List Char) : Prop :=
  ∃ front value gap kind gap' back,
    line = front ++ value ++ gap ++ [kind] ++ gap' ++ symbol ++ back ∧
    (∀ c ∈ front ++ gap ++ gap', isSpace c = true) ∧ gap ≠ [] ∧ gap' ≠ [] ∧
    (∀ c ∈ value ++ symbol, isSpace c = false) ∧ value ≠ [] ∧ symbol ≠ [] ∧
    (kind = 'T' ∨ kind = 'D' ∨ kind = 'B') ∧ ∀ c ∈ back.head?, isSpace c = true

/-- **The symbols that a file defines**: those of the lines that `llvm-nm` prints for it. -/
def BitcodeFile.defined (bcFile : BitcodeFile) : Set String :=
  {symbol | ∃ stdout before line after, bcFile.stdout = some stdout ∧
    stdout.toList = before ++ line ++ after ∧ (∀ c ∈ line, isLineBreak c = false) ∧
    (∀ c ∈ before.getLast?, isLineBreak c = true) ∧ (∀ c ∈ after.head?, isLineBreak c = true) ∧
    LineDefines line symbol.toList}

theorem LineDefines.ne_nil {line symbol : List Char} (h : LineDefines line symbol) :
    line ≠ [] := by
  obtain ⟨front, value, gap, kind, gap', back, rfl, -⟩ := h
  simp

/-- The kinds are not blanks. -/
theorem kind_not_space {kind : Char} (h : kind = 'T' ∨ kind = 'D' ∨ kind = 'B') :
    isSpace kind = false := by
  rcases h with rfl | rfl | rfl <;> decide

/-- **The second and the third word** of a line that defines a symbol. -/
theorem lineDefines_iff {line symbol : List Char} :
    LineDefines line symbol ↔ ∃ value kind words,
      splitBlanks line = value :: [kind] :: symbol :: words ∧
        (kind = 'T' ∨ kind = 'D' ∨ kind = 'B') := by
  constructor
  · rintro ⟨front, value, gap, kind, gap', back, rfl, hblanks, hgap, hgap', hwords, hvalue, hsymbol,
      hkind, hback⟩
    simp only [List.mem_append, or_imp, forall_and] at hblanks hwords
    obtain ⟨c, gap, rfl⟩ := List.exists_cons_of_ne_nil hgap
    obtain ⟨c', gap', rfl⟩ := List.exists_cons_of_ne_nil hgap'
    -- one word after another is split off
    refine ⟨value, kind, splitBlanks back, ?_, hkind⟩
    refine splitBlanks_eq_cons_iff.mpr
      ⟨front, c :: gap ++ [kind] ++ c' :: gap' ++ symbol ++ back, by simp, hblanks.1.1, hvalue,
        hwords.1, by simpa using hblanks.1.2 c (by simp), ?_⟩
    refine splitBlanks_eq_cons_iff.mpr
      ⟨c :: gap, c' :: gap' ++ symbol ++ back, by simp, hblanks.1.2, by simp,
        by simpa using kind_not_space hkind, by simpa using hblanks.2 c' (by simp), ?_⟩
    exact splitBlanks_eq_cons_iff.mpr
      ⟨c' :: gap', back, by simp, hblanks.2, hsymbol, hwords.2, hback, rfl⟩
  · rintro ⟨value, kind, words, hsplit, hkind⟩
    obtain ⟨front, rest, rfl, hfront, hvalue, hnotSpace, hrest, hsplit⟩ :=
      splitBlanks_eq_cons_iff.mp hsplit
    obtain ⟨gap, rest, rfl, hgap, -, -, hrest', hsplit⟩ := splitBlanks_eq_cons_iff.mp hsplit
    obtain ⟨gap', back, rfl, hgap', hsymbol, hnotSpace', hback, -⟩ :=
      splitBlanks_eq_cons_iff.mp hsplit
    refine ⟨front, value, gap, kind, gap', back, by simp, ?_, ?_, ?_, ?_, hvalue, hsymbol, hkind,
      hback⟩
    · simp only [List.mem_append, or_imp, forall_and]
      exact ⟨⟨hfront, hgap⟩, hgap'⟩
    · -- Without a blank the kind would go on with the value.
      rintro rfl
      simp [kind_not_space hkind] at hrest
    · rintro rfl
      obtain ⟨c, symbol, rfl⟩ := List.exists_cons_of_ne_nil hsymbol
      simp [hnotSpace' c (by simp)] at hrest'
    · simp only [List.mem_append, or_imp, forall_and]
      exact ⟨hnotSpace, hnotSpace'⟩

theorem definedSymbol_iff {line : List Char} {symbol : String} :
    definedSymbol line = some symbol ↔ LineDefines line symbol.toList := by
  rw [lineDefines_iff, definedSymbol]
  rcases splitBlanks line with _ | ⟨value, _ | ⟨kind, _ | ⟨name, words⟩⟩⟩
  · simp
  · simp
  · simp
  · simp only [List.mem_cons, List.not_mem_nil, or_false]
    constructor
    · intro hname
      split_ifs at hname with hkind
      rw [← Option.some.inj hname, String.toList_ofList]
      rcases hkind with rfl | rfl | rfl <;> exact ⟨value, _, words, rfl, by simp⟩
    · rintro ⟨_, letter, _, hwords, hkind⟩
      simp only [List.cons.injEq] at hwords
      obtain ⟨-, rfl, rfl, -⟩ := hwords
      rw [if_pos (by simpa using hkind), String.ofList_toList]

/-- **The symbols that the loop sees are those that the file defines.** -/
theorem mem_symbolsOf_iff {bcFile : BitcodeFile} {stdout : String}
    (hstdout : bcFile.stdout = some stdout) {symbol : String} :
    symbol ∈ symbolsOf stdout ↔ symbol ∈ bcFile.defined := by
  simp only [symbolsOf, List.mem_toFinset, List.mem_filterMap, definedSymbol_iff]
  constructor
  · rintro ⟨line, hline, hdefines⟩
    have hne : line ≠ [] := hdefines.ne_nil
    rw [mem_splitLines_iff hne, mem_splitOnP_iff] at hline
    obtain ⟨hbreaks, before, after, hlines, hbefore, hafter⟩ := hline
    exact ⟨stdout, before, line, after, hstdout, hlines, hbreaks, hbefore, hafter, hdefines⟩
  · rintro ⟨_, before, line, after, hsame, hlines, hbreaks, hbefore, hafter, hdefines⟩
    obtain rfl : stdout = _ := Option.some.inj (hstdout.symm.trans hsame)
    have hne : line ≠ [] := hdefines.ne_nil
    refine ⟨line, ?_, hdefines⟩
    rw [mem_splitLines_iff hne, mem_splitOnP_iff]
    exact ⟨hbreaks, before, after, hlines, hbefore, hafter⟩

/-! ### First come, first served -/

/-- **What the loop did** up to some point: whom it served, and what they define. -/
structure LinkState.Follows (st : LinkState) (turns : List (BitcodeFile × Bool)) : Prop where
  /-- The link targets were served. -/
  linkTargets : st.linkTargets = served turns
  /-- The others were refused. -/
  skipped : st.skipped = refused turns
  /-- The symbols that were seen are those of the link targets. -/
  seen : ∀ sym, sym ∈ st.seenGlobals ↔ ∃ bcFile ∈ served turns, sym ∈ bcFile.defined
  /-- First come, first served. -/
  firstServed : FirstServed BitcodeFile.defined turns

/-- **One candidate is served or refused.** -/
theorem LinkState.Follows.step {st : LinkState} {turns : List (BitcodeFile × Bool)}
    (h : st.Follows turns) (llvmNm : String) {bcFile : BitcodeFile}
    (hrun : bcFile.stdout.isSome) :
    ∃ took, (linkStep (some llvmNm) st bcFile).Follows (turns ++ [(bcFile, took)]) := by
  obtain ⟨stdout, hstdout⟩ := Option.isSome_iff_exists.mp hrun
  by_cases hconflict : ∃ sym ∈ symbolsOf stdout, sym ∈ st.seenGlobals
  · -- a symbol seen before is defined by a candidate that was served
    refine ⟨false, ?_⟩
    have hstep : linkStep (some llvmNm) st bcFile =
        { st with skipped := st.skipped ++ [bcFile] } := by
      simp only [linkStep, hstdout, decide_eq_true hconflict, if_true]
    rw [hstep]
    refine ⟨by simp [h.linkTargets], by simp [h.skipped], by simpa using h.seen, ?_⟩
    obtain ⟨sym, hsym, hseen⟩ := hconflict
    obtain ⟨other, hother, hsym'⟩ := (h.seen sym).mp hseen
    exact h.firstServed.refuse
      ⟨other, hother, sym, (mem_symbolsOf_iff hstdout).mp hsym, hsym'⟩
  · -- no symbol was seen, so that none is defined twice among the served ones
    refine ⟨true, ?_⟩
    have hstep : linkStep (some llvmNm) st bcFile =
        { st with
          seenGlobals := st.seenGlobals ∪ symbolsOf stdout
          linkTargets := st.linkTargets ++ [bcFile] } := by
      simp only [linkStep, hstdout, decide_eq_false hconflict, Bool.false_eq_true, if_false]
    rw [hstep]
    refine ⟨by simp [h.linkTargets], by simp [h.skipped], ?_, ?_⟩
    · intro sym
      simp only [Finset.mem_union, h.seen, served_concat_true, List.mem_append,
        List.mem_singleton]
      constructor
      · rintro (⟨other, hother, hsym⟩ | hsym)
        · exact ⟨other, Or.inl hother, hsym⟩
        · exact ⟨bcFile, Or.inr rfl, (mem_symbolsOf_iff hstdout).mp hsym⟩
      · rintro ⟨other, hother | rfl, hsym⟩
        · exact Or.inl ⟨other, hother, hsym⟩
        · exact Or.inr ((mem_symbolsOf_iff hstdout).mpr hsym)
    · refine h.firstServed.serve fun other hother sym hsym hsym' => ?_
      exact hconflict ⟨sym, (mem_symbolsOf_iff hstdout).mpr hsym',
        (h.seen sym).mpr ⟨other, hother, hsym⟩⟩

/-- **First come, first served**: each candidate in turn is taken or skipped; the files that
are taken define different symbols, and one is skipped because of a file that was taken
before it and defines a symbol of it. -/
theorem linkSet_firstServed (llvmNm : String) {candidates : List BitcodeFile}
    (hruns : ∀ bcFile ∈ candidates, bcFile.stdout.isSome) :
    ∃ turns : List (BitcodeFile × Bool), turns.map Prod.fst = candidates ∧
      (linkSet (some llvmNm) candidates).linkTargets = served turns ∧
      (linkSet (some llvmNm) candidates).skipped = refused turns ∧
      FirstServed BitcodeFile.defined turns := by
  suffices hfollows : ∃ turns, turns.map Prod.fst = candidates ∧
      (linkSet (some llvmNm) candidates).Follows turns by
    obtain ⟨turns, hturns, h⟩ := hfollows
    exact ⟨turns, hturns, h.linkTargets, h.skipped, h.firstServed⟩
  induction candidates using List.reverseRecOn with
  | nil => exact ⟨[], rfl, rfl, rfl, by simp [linkSet, served], firstServed_nil⟩
  | append_singleton candidates bcFile ih =>
    obtain ⟨turns, hturns, h⟩ := ih fun other hother =>
      hruns other (List.mem_append_left _ hother)
    obtain ⟨took, hnext⟩ := h.step llvmNm (hruns bcFile (by simp))
    refine ⟨turns ++ [(bcFile, took)], by simp [hturns], ?_⟩
    rw [linkSet, List.foldl_append]
    exact hnext

/-- Three files, of which the second defines a symbol of each of the others. -/
def threeFiles : List BitcodeFile :=
  [⟨"a.bc", some "0 T main\n1 t local"⟩, ⟨"b.bc", some "0 T main\n0 D table"⟩,
    ⟨"c.bc", some "0 B table\n0 t local"⟩]

/-- The first and the last of them are linked, and define different symbols; the second defines
a symbol of the first. -/
theorem linkSet_firstServed_threeFiles :
    (linkSet (some "llvm-nm") threeFiles).linkTargets.map BitcodeFile.path = ["a.bc", "c.bc"] ∧
    (linkSet (some "llvm-nm") threeFiles).skipped.map BitcodeFile.path = ["b.bc"] ∧
    ∃ turns : List (BitcodeFile × Bool), turns.map Prod.fst = threeFiles ∧
      (linkSet (some "llvm-nm") threeFiles).linkTargets = served turns ∧
      (linkSet (some "llvm-nm") threeFiles).skipped = refused turns ∧
      FirstServed BitcodeFile.defined turns :=
  ⟨by decide +kernel, by decide +kernel, linkSet_firstServed "llvm-nm" (by decide)⟩

end Apatchy
