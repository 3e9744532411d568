import Apatchy.Build.RightLines

/-!
# What becomes of a patched file

The six replacements of `Apatchy.patchMk`, one after another, are the six passes in a row
over the lines of the text (`Apatchy.patchMk_eq`). So what is known of the passes says exactly
which files are patched as they should be, for each choice of flags
(`Apatchy.patchMk_touchesOwnLines_iff`).

Flags that begin with a digit are mostly taken for the number of a group that does not exist,
and nothing is patched at all (`Apatchy.not_misread_of_patchMk`). If they begin with two octal
digits, they are taken for a character: that does no harm if the variable is not assigned
(`Apatchy.foldlM_usable`).
-/

namespace Apatchy

/-! ### The lines of a pass -/

@[simp] theorem map_fst_markLast (ls : List (List Char)) : (markLast ls).map Prod.fst = ls := by
  induction ls with
  | nil => rfl
  | cons l ls ih => rw [markLast, List.map_cons, ih]

/-- A pass leaves the last line the last. -/
theorem run_lineMachine (setting : Setting) (mode : LineMode) (ls : List (List Char)) :
    ((lineMachine setting).run mode (markLast ls)).1 = markLast (runLines setting mode ls) := by
  induction ls generalizing mode with
  | nil => rfl
  | cons l ls ih =>
    rw [markLast, Machine.run_cons, ih, runLines_cons, markLast]
    have hlast : (runLines setting (lineStep setting.1 setting.2 mode l ls.isEmpty).2 ls).isEmpty =
        ls.isEmpty := by
      rw [Bool.eq_iff_iff, List.isEmpty_iff, List.isEmpty_iff, runLines_eq_nil_iff]
    rw [hlast]
    rfl

@[simp] theorem linesAfter_no_pass (ls : List (List Char)) : linesAfter [] ls = ls := by
  rw [linesAfter, Machine.run_cascade_nil, map_fst_markLast]

/-- The passes in a row are one pass, and then the others. -/
theorem linesAfter_pass (m : PassState) (row : List PassState) (ls : List (List Char)) :
    linesAfter (m :: row) ls = linesAfter row (runLines m.1 m.2 ls) := by
  rw [linesAfter, Machine.run_cascade_cons, run_lineMachine, linesAfter]

theorem linesAfter_append (row row' : List PassState) (ls : List (List Char)) :
    linesAfter (row ++ row') ls = linesAfter row' (linesAfter row ls) := by
  induction row generalizing ls with
  | nil => rw [List.nil_append, linesAfter_no_pass]
  | cons m row ih => rw [List.cons_append, linesAfter_pass, ih, linesAfter_pass]

/-- No line is broken by a value that is one line. -/
theorem not_mem_lineStep {v : MkVariable} {value l : List Char} (hvalue : '\n' ∉ value)
    (hl : '\n' ∉ l) (mode : LineMode) (isLast : Bool) :
    '\n' ∉ (lineStep v value mode l isLast).1 := by
  -- a line that is filled is a part of itself with the value behind
  have hfill : ∀ front rest, '\n' ∉ front ++ rest →
      '\n' ∉ (fillIn v value front rest isLast).1 := by
    intro front rest hnot hmem
    have hlead := v.lead_append_drop rest
    rw [fillIn] at hmem
    split_ifs at hmem
    · exact hnot hmem
    · rw [← hlead, ← List.append_assoc] at hnot
      rcases List.mem_append.mp hmem with hmem | hmem
      · exact hnot (List.mem_append_left _ hmem)
      · exact hvalue hmem
  rw [lineStep]
  by_cases hfilling : mode = .filling
  · rw [if_pos hfilling]
    exact hfill [] l hl
  · rw [if_neg hfilling]
    rcases hsplit : v.split l with _ | ⟨front, rest⟩
    · rcases hfound : if mode = .named then eqSplit l else none with _ | ⟨front, rest⟩
      · exact hl
      · split_ifs at hfound
        obtain ⟨-, -, -, hparts⟩ := eqSplit_eq_some_iff.mp hfound
        exact hfill front rest (hparts ▸ hl)
    · obtain ⟨-, -, -, hparts⟩ := (v.split_eq_some_iff).mp hsplit
      exact hfill front rest (hparts ▸ hl)

theorem not_mem_runLines {setting : Setting} (hvalue : '\n' ∉ setting.2)
    (mode : LineMode) {ls : List (List Char)} (hls : ∀ l ∈ ls, '\n' ∉ l) :
    ∀ l ∈ runLines setting mode ls, '\n' ∉ l := by
  induction ls generalizing mode with
  | nil => simp [runLines, markLast]
  | cons l ls ih =>
    obtain ⟨hl, hrest⟩ := List.forall_mem_cons.mp hls
    rw [runLines_cons, List.forall_mem_cons]
    exact ⟨not_mem_lineStep hvalue hl mode _, ih _ hrest⟩

/-- The passes, one after another, give lines. -/
theorem linesAfter_isLines {settings : List Setting} (hvalues : ∀ s ∈ settings, '\n' ∉ s.2)
    {ls : List (List Char)} (hne : ls ≠ []) (hls : ∀ l ∈ ls, '\n' ∉ l) :
    linesAfter (rowOf settings .idle) ls ≠ [] ∧
      ∀ l ∈ linesAfter (rowOf settings .idle) ls, '\n' ∉ l := by
  induction settings generalizing ls with
  | nil => rw [rowOf_nil, linesAfter_no_pass]; exact ⟨hne, hls⟩
  | cons s settings ih =>
    obtain ⟨hs, hvalues⟩ := List.forall_mem_cons.mp hvalues
    rw [rowOf_cons, modeOf_idle, linesAfter_pass]
    exact ih hvalues (runLines_eq_nil_iff.not.mpr hne) (not_mem_runLines hs .idle hls)

/-! ### The passes one after another -/

theorem groupTemplate_of_plainValue {value : List Char} (h : PlainValue value) :
    groupTemplate value = .ok fun group => group ++ value := by
  rcases value with _ | ⟨d, _ | ⟨e, rest⟩⟩
  · rfl
  · exact if_pos (h.digit d rfl)
  · exact if_pos (h.digit d rfl)

/-- A replacement is a pass over the lines. -/
theorem patchVariable_of_plainValue {s : Setting} (hs : PlainValue s.2) {ls : List (List Char)}
    (hne : ls ≠ []) (hls : ∀ l ∈ ls, '\n' ∉ l) :
    patchVariable (List.intercalate ['\n'] ls) s =
      .ok (List.intercalate ['\n'] (runLines s .idle ls)) := by
  have hlines : linesOf (List.intercalate ['\n'] ls) = ls :=
    List.splitOn_intercalate '\n' hls hne
  rw [patchVariable, groupTemplate_of_plainValue hs]
  show Except.ok _ = _
  rw [sub_eq_runLines, hlines]

/-- **To replace one pattern after another is to go through the lines with all the passes in
a row.** -/
theorem foldlM_patchVariable {settings : List Setting} (hplain : ∀ s ∈ settings, PlainValue s.2)
    {ls : List (List Char)} (hne : ls ≠ []) (hls : ∀ l ∈ ls, '\n' ∉ l) :
    settings.foldlM patchVariable (List.intercalate ['\n'] ls) =
      .ok (List.intercalate ['\n'] (linesAfter (rowOf settings .idle) ls)) := by
  induction settings generalizing ls with
  | nil => rw [rowOf_nil, linesAfter_no_pass]; rfl
  | cons s settings ih =>
    obtain ⟨hs, hplain⟩ := List.forall_mem_cons.mp hplain
    rw [List.foldlM_cons, patchVariable_of_plainValue hs hne hls, rowOf_cons, modeOf_idle,
      linesAfter_pass]
    exact ih hplain (runLines_eq_nil_iff.not.mpr hne) (not_mem_runLines hs.newline .idle hls)

/-! ### A value that is taken for a character -/

theorem groupTemplate_of_readAsCharacter {value : List Char} (h : readAsCharacter value = true) :
    ∃ expand, groupTemplate value = .ok expand := by
  rcases value with _ | ⟨d, _ | ⟨e, rest⟩⟩
  · cases h
  · cases h
  · by_cases hd : d.isDigit = false
    · exact ⟨_, if_pos hd⟩
    · exact ⟨_, (if_neg hd).trans (if_pos h)⟩

/-- Whether a variable is assigned depends on the kinds of the lines only. -/
theorem assignedIn_iff {v : MkVariable} {named : Bool} {ls ys : List (List Char)}
    (h : List.Forall₂ SameKind ls ys) : AssignedIn v named ls ↔ AssignedIn v named ys := by
  induction h generalizing named with
  | nil => exact Iff.rfl
  | cons hl hls ih => rw [AssignedIn, AssignedIn, hl.split, hl.equals, hl.alone, hl.blank, ih]

theorem AssignedIn.of_named {v : MkVariable} {ls : List (List Char)} (h : AssignedIn v false ls) :
    AssignedIn v true ls := by
  induction ls with
  | nil => exact h
  | cons l ls ih =>
    rw [AssignedIn] at h ⊢
    obtain h | ⟨h, -⟩ | h := h
    · exact Or.inl h
    · cases h
    · refine Or.inr (Or.inr ?_)
      rcases halone : v.alone l with _ | _
      · rcases isBlank l with _ | _
        · rwa [halone] at h
        · rw [halone] at h
          exact ih h
      · rwa [halone] at h

/-- Behind a name, there is no equals sign in the lines. -/
theorem eqSplit_of_not_assignedIn {v : MkVariable} {ls : List (List Char)}
    (h : ¬ AssignedIn v true ls) : eqSplit (lineTail ls) = none := by
  induction ls with
  | nil => rfl
  | cons l ls ih =>
    rw [AssignedIn, not_or, not_or] at h
    obtain ⟨-, hequals, hrest⟩ := h
    have hl : eqSplit l = none := by simpa using hequals
    have htail := eqSplit_append_of_isBlank (l := ['\n']) (by decide) (l ++ lineTail ls)
    rw [List.singleton_append] at htail
    rw [lineTail, if_neg (List.cons_ne_nil l ls), intercalate_cons, htail, Option.map_eq_none_iff]
    rcases hblank : isBlank l with _ | _
    · rw [eqSplit_append_of_not_isBlank hblank, hl, Option.map_none]
    · have halone : v.alone l = false := v.alone_of_not_begins (not_begins_of_isBlank hblank v)
      rw [halone, hblank] at hrest
      rw [eqSplit_append_of_isBlank hblank, ih hrest, Option.map_none]

/-- **If a variable is not assigned**, nothing is replaced. -/
theorem sub_of_not_assignedIn {v : MkVariable} (expand : List Char → List Char)
    {ls : List (List Char)} (hls : ∀ l ∈ ls, '\n' ∉ l) (h : ¬ AssignedIn v false ls) :
    v.pattern.sub expand 0 true (List.intercalate ['\n'] ls) = List.intercalate ['\n'] ls := by
  induction ls with
  | nil => rfl
  | cons l ls ih =>
    obtain ⟨hl, hls⟩ := List.forall_mem_cons.mp hls
    rw [AssignedIn, not_or, not_or, Bool.false_and, Bool.or_false] at h
    obtain ⟨hsplit, -, hrest⟩ := h
    have hend := atEnd_lineTail ls
    -- neither the line nor, behind a name alone, the lines after it have the equals sign
    have hnone : v.split (l ++ lineTail ls) = none := by
      rcases halone : v.alone l with _ | _
      · rw [v.split_append_of_not_alone (isSpace_of_atEnd hend) halone,
          Option.not_isSome_iff_eq_none.mp hsplit, Option.map_none]
      · rw [halone] at hrest
        rw [v.split_append_of_alone (isSpace_of_atEnd hend) halone,
          eqSplit_of_not_assignedIn hrest, Option.map_none]
    have hmatch : v.pattern.matchAt (l ++ lineTail ls) = none := by
      rw [v.matchAt_pattern, hnone]
      rfl
    rw [intercalate_cons, LinePattern.sub_of_matchAt_eq_none hl hend v.matchAt_newline hmatch]
    -- behind a name alone, less is there that could be an assignment
    have hlines : ¬ AssignedIn v false ls := by
      rcases halone : v.alone l with _ | _
      · rwa [halone] at hrest
      · rw [halone] at hrest
        exact fun h => hrest h.of_named
    by_cases hnil : ls = []
    · subst hnil
      rfl
    · rw [lineTail, if_neg hnil]
      show l ++ '\n' :: v.pattern.sub expand 0 true (List.intercalate ['\n'] ls) = _
      rw [ih hls hlines]

/-- **A value that is not used can be any.** The variable is not assigned in any of the texts
between the passes either, since their lines are of the kinds they were. -/
theorem foldlM_usable {ls : List (List Char)} (hne : ls ≠ []) (hls : ∀ l ∈ ls, '\n' ∉ l)
    {passes later : List Setting}
    (hkinds : ∀ row rest, passes ++ later.map usable = row ++ rest →
      List.Forall₂ SameKind ls (linesAfter (rowOf row .idle) ls))
    (hvalues : ∀ s ∈ passes, '\n' ∉ s.2)
    (hplain : ∀ s ∈ later, PlainValue (usable s).2)
    (hunused : ∀ s ∈ later, readAsCharacter s.2 = true → ¬ AssignedIn s.1 false ls) :
    later.foldlM patchVariable (List.intercalate ['\n'] (linesAfter (rowOf passes .idle) ls)) =
      (later.map usable).foldlM patchVariable
        (List.intercalate ['\n'] (linesAfter (rowOf passes .idle) ls)) := by
  induction later generalizing passes with
  | nil => rfl
  | cons s later ih =>
    obtain ⟨husable, hplain⟩ := List.forall_mem_cons.mp hplain
    obtain ⟨hs, hunused⟩ := List.forall_mem_cons.mp hunused
    obtain ⟨hne', hlines⟩ := linesAfter_isLines hvalues hne hls
    have hpass := patchVariable_of_plainValue husable hne' hlines
    have hsame : patchVariable (List.intercalate ['\n'] (linesAfter (rowOf passes .idle) ls)) s =
        patchVariable (List.intercalate ['\n'] (linesAfter (rowOf passes .idle) ls))
          (usable s) := by
      rw [usable]
      split_ifs with hcharacter
      · obtain ⟨expand, hexpand⟩ := groupTemplate_of_readAsCharacter hcharacter
        have hnot : ¬ AssignedIn s.1 false (linesAfter (rowOf passes .idle) ls) := by
          rw [← assignedIn_iff (hkinds passes _ rfl)]
          exact hs hcharacter
        rw [patchVariable, hexpand, patchVariable]
        show Except.ok _ = Except.ok _
        rw [sub_of_not_assignedIn expand hlines hnot, sub_of_not_assignedIn _ hlines hnot]
      · rfl
    -- The texts after this pass are those of one pass more.
    have hnext : linesAfter (rowOf (passes ++ [usable s]) .idle) ls =
        runLines (usable s) .idle (linesAfter (rowOf passes .idle) ls) := by
      rw [rowOf_append, linesAfter_append, rowOf_cons, rowOf_nil, linesAfter_pass,
        linesAfter_no_pass, modeOf_idle]
    rw [List.foldlM_cons, List.map_cons, List.foldlM_cons, hsame, hpass, ← hnext]
    refine ih (fun row rest hrow => hkinds row rest ?_) ?_ hplain hunused
    · rw [← hrow]
      simp
    · intro s' hs'
      rcases List.mem_append.mp hs' with hs' | hs'
      · exact hvalues s' hs'
      · exact List.mem_singleton.mp hs' ▸ husable.newline

/-! ### The lines of a file and of its text -/

theorem linesOf_cons (c : Char) (cs : List Char) :
    linesOf (c :: cs) =
      if c = '\n' then [] :: linesOf cs else (linesOf cs).modifyHead (List.cons c) := by
  rw [linesOf, linesOf, List.splitOn_eq_splitOnP, List.splitOn_eq_splitOnP,
    List.splitOnP_cons_eq_if_modifyHead]
  simp

/-- A character that is no end of a line. -/
theorem forall₂_crLine_cons {c : Char} (hc : c ≠ '\n') {cs cs' : List Char}
    (h : (linesOf cs).length ≤ (linesOf cs').length ∧
      ((linesOf cs).length = (linesOf cs').length →
        List.Forall₂ CrLine (linesOf cs) (linesOf cs'))) :
    (linesOf (c :: cs)).length ≤ (linesOf (c :: cs')).length ∧
      ((linesOf (c :: cs)).length = (linesOf (c :: cs')).length →
        List.Forall₂ CrLine (linesOf (c :: cs)) (linesOf (c :: cs'))) := by
  obtain ⟨r, rs, hr⟩ := List.exists_cons_of_ne_nil (linesOf_ne_nil cs)
  obtain ⟨l, ls, hl⟩ := List.exists_cons_of_ne_nil (linesOf_ne_nil cs')
  rw [hr, hl] at h
  rw [linesOf_cons, if_neg hc, linesOf_cons, if_neg hc, hr, hl, List.modifyHead_cons,
    List.modifyHead_cons]
  refine ⟨h.1, fun hlength => ?_⟩
  obtain ⟨hline, hlines⟩ := List.forall₂_cons.mp (h.2 hlength)
  refine List.forall₂_cons.mpr ⟨?_, hlines⟩
  obtain rfl | rfl := hline
  · exact Or.inl rfl
  · exact Or.inr rfl

/-- **The text of a file has the lines of the file**, without the carriage returns at their ends,
unless there are carriage returns elsewhere: then it has more. -/
theorem linesOf_universalNewlines (cs : List Char) :
    (linesOf cs).length ≤ (linesOf (universalNewlines cs)).length ∧
      ((linesOf cs).length = (linesOf (universalNewlines cs)).length →
        List.Forall₂ CrLine (linesOf cs) (linesOf (universalNewlines cs))) := by
  fun_induction universalNewlines cs with
  | case1 => exact ⟨le_rfl, fun _ => List.forall₂_same.mpr fun l _ => Or.inl rfl⟩
  | case2 cs ih =>
    -- a carriage return and a line feed
    rw [linesOf_cons, if_neg (by decide), linesOf_cons, if_pos rfl, linesOf_cons, if_pos rfl,
      List.modifyHead_cons, List.length_cons, List.length_cons, Nat.add_le_add_iff_right,
      Nat.add_right_cancel_iff]
    exact ⟨ih.1, fun hlength => List.forall₂_cons.mpr ⟨Or.inr rfl, ih.2 hlength⟩⟩
  | case3 cs _ ih =>
    -- a carriage return alone: a line more
    have hlength : (linesOf ('\r' :: cs)).length = (linesOf cs).length := by
      rw [linesOf_cons, if_neg (by decide), List.length_modifyHead]
    rw [hlength, linesOf_cons '\n', if_pos rfl, List.length_cons]
    exact ⟨Nat.le_succ_of_le ih.1, fun h => absurd ih.1 (by omega)⟩
  | case4 c cs _ _ ih =>
    by_cases hc : c = '\n'
    · subst hc
      rw [linesOf_cons, if_pos rfl, linesOf_cons, if_pos rfl, List.length_cons, List.length_cons,
        Nat.add_le_add_iff_right, Nat.add_right_cancel_iff]
      exact ⟨ih.1, fun hlength => List.forall₂_cons.mpr ⟨Or.inl rfl, ih.2 hlength⟩⟩
    · exact forall₂_crLine_cons hc ih

theorem forall₂_crLine {file : String}
    (hlength : (linesOf file.toList).length = (linesOf (readText file).toList).length) :
    List.Forall₂ CrLine (linesOf file.toList) (linesOf (readText file).toList) := by
  rw [readText, String.toList_ofList] at hlength ⊢
  exact (linesOf_universalNewlines file.toList).2 hlength

/-! ### What is requested -/

/-- An assignment has an equals sign more than its value. -/
theorem MkVariable.Assigns.count_lt {v : MkVariable} {value l : List Char}
    (h : v.Assigns value l) : value.count '=' < l.count '=' := by
  obtain ⟨front, blanks, hsplit, -⟩ := h
  obtain ⟨blanks', -, rfl, rfl⟩ := (v.split_eq_some_iff).mp hsplit
  simp only [List.count_append, List.count_cons_self, List.count_nil]
  omega

section Requested

variable (cc cflags ldflags notestCflags extraCflags : List Char)

/-- Values for the six variables. -/
def valuesFor : List Setting :=
  [(.cc, cc), (.cpp, cc ++ [' ', '-', 'E']), (.cflags, cflags), (.ldflags, ldflags),
    (.notestCflags, notestCflags), (.extraCflags, extraCflags)]

/-- The blanks are kept behind `CC` and `CPP` only. -/
theorem eq_of_keepsBlanks {s : Setting}
    (hs : s ∈ valuesFor cc cflags ldflags notestCflags extraCflags)
    (hkeeps : s.1.keepsBlanks = true) : s = (.cc, cc) ∨ s = (.cpp, cc ++ [' ', '-', 'E']) := by
  simp only [valuesFor, List.mem_cons, List.not_mem_nil, or_false] at hs
  obtain rfl | rfl | rfl | rfl | rfl | rfl := hs
  · exact Or.inl rfl
  · exact Or.inr rfl
  all_goals cases hkeeps

/-- **The values do not get into each other's way**, whatever the compiler and the flags are: the
value of `CPP` has a hyphen, and no equals sign that the compiler has not. -/
theorem separate_valuesFor : Separate (valuesFor cc cflags ldflags notestCflags extraCflags) := by
  have hcount : (cc ++ [' ', '-', 'E']).count '=' = cc.count '=' := by simp
  refine ⟨?_, fun s hs hkeeps w hw => ?_, fun s hs hkeeps w hw hassigns => ?_,
    fun s hs hkeeps w hw hkeeps' => ?_⟩
  · simp [Distinct, valuesFor, MkVariable.cc, MkVariable.cpp, MkVariable.cflags,
      MkVariable.ldflags, MkVariable.notestCflags, MkVariable.extraCflags]
  · obtain rfl | rfl := eq_of_keepsBlanks cc cflags ldflags notestCflags extraCflags hs hkeeps
    · exact absurd hw List.not_mem_nil
    · obtain rfl : w = (.cc, cc) := List.mem_singleton.mp hw
      exact ⟨'-', by simp, by decide, by decide, show '-' ∉ MkVariable.cc.name by decide⟩
  · -- an assignment in a value has one equals sign more than what it assigns
    have hlt := hassigns.count_lt
    simp only [valuesFor, List.mem_cons, List.not_mem_nil, or_false] at hw
    obtain rfl | rfl := eq_of_keepsBlanks cc cflags ldflags notestCflags extraCflags hs hkeeps
    · obtain rfl | rfl | hw := hw
      · exact absurd hlt (lt_irrefl _)
      · exact absurd (hcount.symm.trans_lt hlt) (lt_irrefl _)
      · show w ∈ _ :: _
        simp [hw]
    · obtain rfl | rfl | hw := hw
      · exact absurd (hlt.trans_eq hcount) (lt_irrefl _)
      · exact absurd hlt (lt_irrefl _)
      · show w ∈ _ :: _
        simp [hw]
  · have hmem := mem_of_mem_behind hw
    obtain rfl | rfl := eq_of_keepsBlanks cc cflags ldflags notestCflags extraCflags hmem hkeeps'
    · -- `CC` is set before
      have hname := List.mem_map_of_mem (f := fun s : Setting => s.1.name) hw
      obtain rfl | rfl := eq_of_keepsBlanks cc cflags ldflags notestCflags extraCflags hs hkeeps
      · exact absurd hname (show MkVariable.cc.name ∉ [MkVariable.cpp.name, MkVariable.cflags.name,
          MkVariable.ldflags.name, MkVariable.notestCflags.name, MkVariable.extraCflags.name] by
            decide)
      · exact absurd hname (show MkVariable.cc.name ∉ [MkVariable.cflags.name,
          MkVariable.ldflags.name, MkVariable.notestCflags.name, MkVariable.extraCflags.name] by
            decide)
    · simp [isBlank, show isSpace '-' = false by decide]

end Requested

variable {flags : Flags}

theorem lineValue_of_mem_requested (h : OneLineFlags flags) :
    ∀ s ∈ requested flags, LineValue s.2 := by
  have hnothing : LineValue [] := ⟨by simp, by simp⟩
  have hcpp : LineValue (flags.cc.toList ++ [' ', '-', 'E']) :=
    ⟨by simpa using h.cc.backslash, by simpa using h.cc.newline⟩
  simp only [requested, List.forall_mem_cons]
  exact ⟨h.cc.toLineValue, hcpp, h.cflags, h.ldflags, hnothing, hnothing, by simp⟩

/-- An octal digit is a digit. -/
theorem isDigit_of_isOctal {c : Char} (h : isOctal c = true) : c.isDigit = true := by
  simp only [isOctal, Bool.and_eq_true, decide_eq_true_eq] at h
  rw [Char.isDigit, Bool.and_eq_true, decide_eq_true_eq, decide_eq_true_eq]
  exact ⟨h.1, UInt32.le_trans h.2 (by decide)⟩

/-- A value that does not begin with a digit is not taken for a character. -/
theorem readAsCharacter_of_plainValue {value : List Char} (h : PlainValue value) :
    readAsCharacter value = false := by
  rcases value with _ | ⟨d, _ | ⟨e, rest⟩⟩
  · rfl
  · rfl
  · rw [readAsCharacter, Bool.and_eq_false_iff]
    left
    by_contra hd
    rw [Bool.not_eq_false] at hd
    exact Bool.false_ne_true ((h.digit d rfl).symm.trans (isDigit_of_isOctal hd))

/-- **A value that is read, and is not taken for a character**, is put there as it is. -/
theorem plainValue_usable {s : Setting} (h : LineValue s.2) (hread : ¬ Misread s.2) :
    PlainValue (usable s).2 := by
  rw [usable]
  split_ifs with hcharacter
  · exact ⟨⟨by simp, by simp⟩, by simp⟩
  · refine ⟨h, fun c hc => ?_⟩
    by_contra hdigit
    rw [Bool.not_eq_false] at hdigit
    obtain ⟨v, value⟩ := s
    rcases value with _ | ⟨d, rest⟩
    · cases hc
    · obtain rfl : d = c := by simpa using hc
      refine hread ⟨d, rest, rfl, hdigit, fun e he => ?_⟩
      rcases rest with _ | ⟨e', rest⟩
      · cases he
      · obtain rfl : e' = e := by simpa using he
        simpa [readAsCharacter] using hcharacter

theorem plainValue_cpp (h : OneLineFlags flags) :
    PlainValue (flags.cc.toList ++ [' ', '-', 'E']) := by
  refine ⟨⟨by simpa using h.cc.backslash, by simpa using h.cc.newline⟩, fun c hc => ?_⟩
  rw [List.head?_append] at hc
  rcases Option.or_eq_some_iff.mp hc with hc | ⟨-, hc⟩
  · exact h.cc.digit c hc
  · obtain rfl : ' ' = c := by simpa using hc
    decide

/-- What is used does not get into its own way. -/
theorem separate_usable (h : OneLineFlags flags) : Separate ((requested flags).map usable) := by
  have hcc : usable (.cc, flags.cc.toList) = (.cc, flags.cc.toList) := by
    rw [usable, readAsCharacter_of_plainValue h.cc, if_neg Bool.false_ne_true]
  have hcpp : usable (.cpp, flags.cc.toList ++ [' ', '-', 'E']) =
      (.cpp, flags.cc.toList ++ [' ', '-', 'E']) := by
    rw [usable, readAsCharacter_of_plainValue (plainValue_cpp h), if_neg Bool.false_ne_true]
  have hname : ∀ (v : MkVariable) (value : List Char), usable (v, value) =
      (v, (usable (v, value)).2) := by
    intro v value
    rw [usable]
    split_ifs <;> rfl
  rw [requested, List.map_cons, List.map_cons, hcc, hcpp]
  simp only [List.map_cons, List.map_nil]
  rw [hname .cflags, hname .ldflags, hname .notestCflags, hname .extraCflags]
  exact separate_valuesFor ..

/-! ### The exact condition -/

section File

variable {file : String}

/-- The replacements, if all the values can be used. -/
theorem patchMk_eq (h : OneLineFlags flags) (hread : ∀ s ∈ requested flags, ¬ Misread s.2)
    (hsame : (requested flags).foldlM patchVariable (readText file).toList =
      ((requested flags).map usable).foldlM patchVariable (readText file).toList) :
    let ls := linesOf (readText file).toList
    let patched := linesAfter (rowOf ((requested flags).map usable) .idle) ls
    patchMk flags file =
      .ok (if patched = ls then file else String.ofList (List.intercalate ['\n'] patched)) := by
  intro ls patched
  have hne : ls ≠ [] := linesOf_ne_nil _
  have hls : ∀ l ∈ ls, '\n' ∉ l := fun l hl => not_mem_of_mem_linesOf hl
  have hplain : ∀ s ∈ (requested flags).map usable, PlainValue s.2 :=
    List.forall_mem_map.mpr fun s hs => plainValue_usable (lineValue_of_mem_requested h s hs)
      (hread s hs)
  have htext : List.intercalate ['\n'] ls = (readText file).toList := List.intercalate_splitOn _
  have hfold := foldlM_patchVariable hplain hne hls
  rw [htext, ← hsame] at hfold
  obtain ⟨hne', hls'⟩ := linesAfter_isLines (fun s hs => (hplain s hs).newline) hne hls
  have hchanged : String.ofList (List.intercalate ['\n'] patched) = readText file ↔
      patched = ls := by
    have hback : linesOf (List.intercalate ['\n'] patched) = patched :=
      List.splitOn_intercalate '\n' hls' hne'
    constructor
    · intro heq
      rw [← hback]
      show linesOf _ = linesOf _
      rw [← heq, String.toList_ofList]
    · intro heq
      rw [heq, htext, String.ofList_toList]
  rw [patchMk, hfold]
  -- The file is written only if its text has changed.
  show Except.ok (if String.ofList (List.intercalate ['\n'] patched) ≠ readText file then _
    else _) = _
  by_cases heq : patched = ls
  · rw [if_neg (not_not_intro (hchanged.mpr heq)), if_pos heq]
  · rw [if_pos (hchanged.not.mpr heq), if_neg heq]

/-- **What is meant of the file**, said of the lines: of those of the file, if nothing is
changed, and otherwise of those after the passes. -/
theorem touchesOwnLines_iff (h : OneLineFlags flags)
    (hread : ∀ s ∈ requested flags, ¬ Misread s.2)
    (hsame : (requested flags).foldlM patchVariable (readText file).toList =
      ((requested flags).map usable).foldlM patchVariable (readText file).toList) :
    let used := (requested flags).map usable
    let ls := linesOf (readText file).toList
    TouchesOwnLines flags file (patchMk flags file) ↔
      if Settled used .idle ls then
        ∀ r ∈ linesOf file.toList, ∀ s ∈ requested flags, (s.1.split r).isSome → s.1.Assigns s.2 r
      else List.Forall₂ (PatchedLine (requested flags)) (linesOf file.toList)
        (linesAfter (rowOf used .idle) ls) := by
  intro used ls
  have hne : ls ≠ [] := linesOf_ne_nil _
  have hls : ∀ l ∈ ls, '\n' ∉ l := fun l hl => not_mem_of_mem_linesOf hl
  have hvalues : ∀ s ∈ used, '\n' ∉ s.2 := List.forall_mem_map.mpr fun s hs =>
    (plainValue_usable (lineValue_of_mem_requested h s hs) (hread s hs)).newline
  obtain ⟨hne', hls'⟩ := linesAfter_isLines hvalues hne hls
  have hpatch := patchMk_eq h hread hsame
  have habout : Reading.idle.About used := trivial
  have hsettled := linesAfter_eq_iff (separate_usable h) habout ls
  have htouches : TouchesOwnLines flags file (patchMk flags file) ↔
      List.Forall₂ (PatchedLine (requested flags)) (linesOf file.toList)
        (linesOf (if linesAfter (rowOf used .idle) ls = ls then file else
          String.ofList (List.intercalate ['\n'] (linesAfter (rowOf used .idle) ls))).toList) := by
    rw [hpatch, TouchesOwnLines, ownLine_eq]
    constructor
    · rintro ⟨patched, hpatched, hall⟩
      rwa [Except.ok.inj hpatched]
    · exact fun hall => ⟨_, rfl, hall⟩
  rw [htouches]
  -- if the passes change nothing, the file is not written, and keeps its carriage returns
  by_cases hnothing : Settled used .idle ls
  · rw [if_pos (hsettled.mpr hnothing), if_pos hnothing, List.forall₂_same]
    refine forall₂_congr fun r hr => ⟨fun hown => hown.assigned, fun hassigned => ⟨hassigned, ?_⟩⟩
    exact fun _ => rfl
  · have hback : linesOf (List.intercalate ['\n'] (linesAfter (rowOf used .idle) ls)) =
        linesAfter (rowOf used .idle) ls := List.splitOn_intercalate '\n' hls' hne'
    rw [if_neg (hsettled.not.mpr hnothing), if_neg hnothing, String.toList_ofList, hback]

/-- What is not used does not matter for a line. -/
theorem patchedLine_map_usable_iff {settings : List Setting} {r y : List Char}
    (h : ∀ s ∈ settings, (s.1.split r).isSome → usable s = s) :
    PatchedLine (settings.map usable) r y ↔ PatchedLine settings r y := by
  have hfst : ∀ s : Setting, (usable s).1 = s.1 := by
    intro s
    rw [usable]
    split_ifs <;> rfl
  constructor
  · intro hown
    refine ⟨fun s hs hr => ?_, fun hnone => hown.kept (List.forall_mem_map.mpr ?_)⟩
    · have hassigned := hown.assigned (usable s) (List.mem_map_of_mem hs)
      rw [h s hs hr] at hassigned
      exact hassigned hr
    · intro s hs
      rw [hfst]
      exact hnone s hs
  · intro hown
    refine ⟨List.forall_mem_map.mpr fun s hs hr => ?_, fun hnone => hown.kept fun s hs => ?_⟩
    · rw [hfst] at hr
      rw [h s hs hr]
      exact hown.assigned s hs hr
    · rw [← hfst]
      exact List.forall_mem_map.mp hnone s hs

theorem split_of_not_assignedIn {v : MkVariable} {named : Bool} {ls : List (List Char)}
    (h : ¬ AssignedIn v named ls) : ∀ l ∈ ls, v.split l = none := by
  induction ls generalizing named with
  | nil => simp
  | cons l ls ih =>
    rw [AssignedIn, not_or, not_or] at h
    exact List.forall_mem_cons.mpr ⟨Option.not_isSome_iff_eq_none.mp h.1, ih h.2.2⟩

theorem length_linesAfter (row : List PassState) (ls : List (List Char)) :
    (linesAfter row ls).length = ls.length := by
  induction ls generalizing row with
  | nil => rfl
  | cons l ls ih => rw [linesAfter_cons, List.length_cons, ih, List.length_cons]

theorem RightLines.length_eq {settings : List Setting} {st : Reading} {rs ls : List (List Char)}
    (h : RightLines settings st rs ls) : rs.length = ls.length := by
  induction ls generalizing st rs with
  | nil =>
    rcases rs with _ | ⟨r, rs⟩
    · rfl
    · exact h.elim
  | cons l ls ih =>
    rcases rs with _ | ⟨r, rs⟩
    · exact h.elim
    · rw [List.length_cons, List.length_cons, ih h.2]

/-- **The lines of the file and those after the passes** are what is meant, exactly if what is
put there is right: the values that are not used do not matter. -/
theorem forall₂_patchedLine_requested_iff (h : OneLineFlags flags)
    (hunused : ∀ s ∈ requested flags, readAsCharacter s.2 = true →
      ¬ AssignedIn s.1 false (linesOf (readText file).toList)) :
    let used := (requested flags).map usable
    let ls := linesOf (readText file).toList
    List.Forall₂ (PatchedLine (requested flags)) (linesOf file.toList)
        (linesAfter (rowOf used .idle) ls) ↔
      RightLines used .idle (linesOf file.toList) ls := by
  intro used ls
  -- A carriage return alone makes a line of the text that the file does not have.
  by_cases hlength : (linesOf file.toList).length = ls.length
  · have hlines := forall₂_crLine hlength
    have habout : Reading.idle.About used := trivial
    rw [← forall₂_patchedLine_iff (separate_usable h) hlines habout]
    have hkinds : List.Forall₂ SameKind ls (linesOf file.toList) :=
      (hlines.imp fun r l hr => hr.sameKind).flip
    have hused : ∀ r ∈ linesOf file.toList, ∀ s ∈ requested flags, (s.1.split r).isSome →
        usable s = s := by
      intro r hr s hs hsplit
      refine if_neg fun hcharacter => ?_
      have hnot := hunused s hs hcharacter
      rw [assignedIn_iff hkinds] at hnot
      rw [split_of_not_assignedIn hnot r hr] at hsplit
      cases hsplit
    have hline : ∀ {r y : List Char}, (∀ s ∈ requested flags, (s.1.split r).isSome →
        usable s = s) → (PatchedLine used r y ↔ PatchedLine (requested flags) r y) :=
      patchedLine_map_usable_iff
    constructor
    · intro hown
      have hall := (List.forall₂_and_left _ _).mpr ⟨hused, hown⟩
      exact hall.imp fun r y hry => (hline hry.1).mpr hry.2
    · intro hown
      have hall := (List.forall₂_and_left _ _).mpr ⟨hused, hown⟩
      exact hall.imp fun r y hry => (hline hry.1).mp hry.2
  · refine iff_of_false (fun hall => ?_) (fun hright => hlength hright.length_eq)
    rw [hall.length_eq, length_linesAfter] at hlength
    exact hlength rfl

theorem forall₂_sameOrSet {settings : List Setting} {rs ls ys : List (List Char)}
    (hcr : List.Forall₂ CrLine rs ls) (hown : List.Forall₂ (PatchedLine settings) rs ys) :
    List.Forall₂ (SameOrSet settings) ls ys := by
  induction hcr generalizing ys with
  | nil =>
    cases hown
    exact List.Forall₂.nil
  | cons hr _ ih =>
    obtain ⟨y, ys, hline, hlines, rfl⟩ := List.forall₂_cons_left_iff.mp hown
    exact List.Forall₂.cons (hline.sameOrSet hr) (ih hlines)

theorem groupTemplate_of_foldlM {settings : List Setting} {cs patched : List Char}
    (h : settings.foldlM patchVariable cs = .ok patched) :
    ∀ s ∈ settings, ∃ expand, groupTemplate s.2 = .ok expand := by
  induction settings generalizing cs with
  | nil => simp
  | cons s settings ih =>
    rw [List.foldlM_cons, patchVariable] at h
    rcases htemplate : groupTemplate s.2 with error | expand
    · rw [htemplate] at h
      cases h
    · rw [htemplate] at h
      rw [List.forall_mem_cons]
      exact ⟨⟨expand, htemplate⟩, ih h⟩

/-- **Between the passes**, the lines are of the kinds they were, if the patching is right. -/
theorem forall₂_sameKind_of_patchesRight (h : OneLineFlags flags) (hright : PatchesRight flags file)
    (row rest : List Setting) (hrow : (requested flags).map usable = row ++ rest) :
    let ls := linesOf (readText file).toList
    List.Forall₂ SameKind ls (linesAfter (rowOf row .idle) ls) := by
  intro ls
  have hseparate := separate_usable h
  rw [hrow] at hseparate
  have habout : Reading.idle.About (row ++ rest) := trivial
  refine forall₂_sameKind_linesAfter hseparate habout ?_
  have hset := hright.right
  simp only [hrow] at hset
  split_ifs at hset with hsettled
  · rw [(linesRead_eq_iff _ _ _).mpr hsettled]
    exact List.forall₂_same.mpr fun l _ => Or.inl (Or.inl rfl)
  · have hlines := forall₂_crLine hset.length_eq
    exact forall₂_sameOrSet hlines ((forall₂_linesRead_iff hseparate hlines habout).mpr hset)

/-- **The replacements are those of the values that are used**, if the patching is right. -/
theorem foldlM_of_patchesRight (h : OneLineFlags flags) (hright : PatchesRight flags file) :
    (requested flags).foldlM patchVariable (readText file).toList =
      ((requested flags).map usable).foldlM patchVariable (readText file).toList := by
  have hplain : ∀ s ∈ requested flags, PlainValue (usable s).2 := fun s hs =>
    plainValue_usable (lineValue_of_mem_requested h s hs) (hright.readable s hs)
  have hlines : ∀ l ∈ linesOf (readText file).toList, '\n' ∉ l := fun l hl =>
    not_mem_of_mem_linesOf hl
  have hkinds : ∀ row rest, [] ++ (requested flags).map usable = row ++ rest →
      List.Forall₂ SameKind (linesOf (readText file).toList)
        (linesAfter (rowOf row .idle) (linesOf (readText file).toList)) := fun row rest hrow =>
    forall₂_sameKind_of_patchesRight h hright row rest hrow
  have hfold := foldlM_usable (linesOf_ne_nil _) hlines hkinds (by simp) hplain hright.unused
  have htext : List.intercalate ['\n'] (linesOf (readText file).toList) = (readText file).toList :=
    List.intercalate_splitOn _
  rwa [rowOf_nil, linesAfter_no_pass, htext] at hfold

/-- **If a value cannot be read, nothing is patched.** -/
theorem not_misread_of_patchMk {patched : String} (hok : patchMk flags file = .ok patched) :
    ∀ s ∈ requested flags, ¬ Misread s.2 := by
  rintro s hs ⟨d, rest, hvalue, hdigit, hoctal⟩
  have herror : groupTemplate s.2 = .error "invalid group reference" := by
    rw [hvalue]
    rcases rest with _ | ⟨e, rest⟩
    · rw [groupTemplate, hdigit, if_neg (by decide)]
    · rw [groupTemplate, hdigit, if_neg (by decide), hoctal e rfl, if_neg Bool.false_ne_true]
  rw [patchMk] at hok
  rcases hfold : (requested flags).foldlM patchVariable (readText file).toList with error | cs
  · rw [hfold] at hok
    cases hok
  · obtain ⟨expand, hexpand⟩ := groupTemplate_of_foldlM hfold s hs
    rw [herror] at hexpand
    cases hexpand

/-- **A file is patched as it should be** exactly under this condition, for all flags that are
not taken for a character; and under this condition also for those that are. -/
theorem patchMk_touchesOwnLines_iff (flags : Flags) (h : OneLineFlags flags) (file : String) :
    (PatchesRight flags file → TouchesOwnLines flags file (patchMk flags file)) ∧
      ((∀ s ∈ requested flags, readAsCharacter s.2 = false) →
        (TouchesOwnLines flags file (patchMk flags file) ↔ PatchesRight flags file)) := by
  -- said of the values that are put in, and then of those that are meant
  have henough : PatchesRight flags file → TouchesOwnLines flags file (patchMk flags file) := by
    intro hright
    refine (touchesOwnLines_iff h hright.readable (foldlM_of_patchesRight h hright)).mpr ?_
    have hset := hright.right
    simp only at hset
    split_ifs at hset ⊢ with hsettled
    · exact hset
    · exact (forall₂_patchedLine_requested_iff h hright.unused).mpr hset
  refine ⟨henough, fun hplain => ⟨fun htouches => ?_, henough⟩⟩
  have hread : ∀ s ∈ requested flags, ¬ Misread s.2 := by
    obtain ⟨patched, hok, -⟩ := htouches
    exact not_misread_of_patchMk hok
  have hunused : ∀ s ∈ requested flags, readAsCharacter s.2 = true →
      ¬ AssignedIn s.1 false (linesOf (readText file).toList) := fun s hs hcharacter =>
    absurd ((hplain s hs).symm.trans hcharacter) Bool.false_ne_true
  -- without octal digits these are the same
  have hused : (requested flags).map usable = requested flags := by
    refine (List.map_congr_left fun s hs => ?_).trans (List.map_id _)
    rw [usable, hplain s hs, if_neg Bool.false_ne_true, id]
  refine ⟨hread, hunused, ?_⟩
  replace htouches := (touchesOwnLines_iff h hread (by rw [hused])).mp htouches
  simp only at htouches ⊢
  split_ifs at htouches ⊢ with hsettled
  · exact htouches
  · exact (forall₂_patchedLine_requested_iff h hunused).mp htouches

end File

/-! ### Some files -/

/-- Flags with a compiler, and flags for it. -/
def clangWith (cflags : String) : Flags := ⟨"clang", cflags, ""⟩

theorem oneLineFlags_clangWith {cflags : String} (h : LineValue cflags.toList) :
    OneLineFlags (clangWith cflags) := by
  refine ⟨⟨⟨show '\\' ∉ "clang".toList by decide, show '\n' ∉ "clang".toList by decide⟩, ?_⟩, h,
    ⟨show '\\' ∉ "".toList by decide, show '\n' ∉ "".toList by decide⟩⟩
  intro c hc
  obtain rfl : 'c' = c := by simpa [clangWith] using hc
  decide

theorem lineValue_nil : LineValue "".toList := ⟨by decide, by decide⟩

/-- A value that does not begin with a digit is read. -/
theorem not_misread_of_head {value : List Char}
    (h : ∀ c, value.head? = some c → c.isDigit = false) : ¬ Misread value := by
  rintro ⟨d, rest, rfl, hdigit, -⟩
  exact Bool.false_ne_true ((h d rfl).symm.trans hdigit)

theorem not_misread_clangWith {cflags : String} (h : ¬ Misread cflags.toList) :
    ∀ s ∈ requested (clangWith cflags), ¬ Misread s.2 := by
  have hnothing : ¬ Misread [] := not_misread_of_head fun c hc => by cases hc
  have hcc : ¬ Misread "clang".toList := not_misread_of_head fun c hc => by
    obtain rfl : 'c' = c := by simpa using hc
    decide
  have hcpp : ¬ Misread ("clang".toList ++ [' ', '-', 'E']) := not_misread_of_head fun c hc => by
    obtain rfl : 'c' = c := by simpa using hc
    decide
  simp only [requested, List.forall_mem_cons]
  exact ⟨hcc, hcpp, h, hnothing, hnothing, hnothing, by simp⟩

/-- **Behind an assignment of nothing, a line is lost**, and the assignment is not patched. -/
theorem not_touchesOwnLines_emptyCompiler :
    OneLineFlags (clangWith "") ∧
      ¬ TouchesOwnLines (clangWith "") "CC=\nFOO=bar" (patchMk (clangWith "") "CC=\nFOO=bar") := by
  have hflags := oneLineFlags_clangWith lineValue_nil
  have hread : ∀ s ∈ requested (clangWith ""), ¬ Misread s.2 :=
    not_misread_clangWith (not_misread_of_head fun c hc => by cases hc)
  have hused : (requested (clangWith "")).map usable = requested (clangWith "") := rfl
  have hsettled : ¬ Settled ((requested (clangWith "")).map usable) .idle
      (linesOf (readText "CC=\nFOO=bar").toList) := by decide
  refine ⟨hflags, fun htouches => ?_⟩
  replace htouches := (touchesOwnLines_iff hflags hread (by rw [hused])).mp htouches
  have hlines : linesOf "CC=\nFOO=bar".toList =
      [['C', 'C', '='], ['F', 'O', 'O', '=', 'b', 'a', 'r']] := by decide
  have hpatched : linesAfter (rowOf ((requested (clangWith "")).map usable) .idle)
      (linesOf (readText "CC=\nFOO=bar").toList) =
        [['C', 'C', '='], ['c', 'l', 'a', 'n', 'g']] := by decide
  simp only [if_neg hsettled, hlines, hpatched] at htouches
  obtain ⟨-, htouches⟩ := List.forall₂_cons.mp htouches
  obtain ⟨hown, -⟩ := List.forall₂_cons.mp htouches
  exact absurd (hown.kept (by decide)) (by decide)

/-- **An assignment is patched, and another line stays**, if the file has no carriage returns;
with carriage returns, it does not; and flags that begin with octal digits do no harm where no
flags are set. -/
theorem patchMk_touchesOwnLines_gcc :
    TouchesOwnLines (clangWith "") "CC=gcc\nFOO=bar\n"
        (patchMk (clangWith "") "CC=gcc\nFOO=bar\n") ∧
      ¬ TouchesOwnLines (clangWith "") "CC=gcc\r\nFOO=bar\r\n"
        (patchMk (clangWith "") "CC=gcc\r\nFOO=bar\r\n") ∧
      TouchesOwnLines (clangWith "12x") "FOO=bar\n" (patchMk (clangWith "12x") "FOO=bar\n") := by
  have hread : ∀ s ∈ requested (clangWith ""), ¬ Misread s.2 :=
    not_misread_clangWith (not_misread_of_head fun c hc => by cases hc)
  have hcharacter : ∀ s ∈ requested (clangWith ""), readAsCharacter s.2 = false := by decide
  have htext : linesOf "CC=gcc\nFOO=bar\n".toList =
      [['C', 'C', '=', 'g', 'c', 'c'], ['F', 'O', 'O', '=', 'b', 'a', 'r'], []] := by decide
  have hsettled : ¬ Settled ((requested (clangWith "")).map usable) .idle
      [['C', 'C', '=', 'g', 'c', 'c'], ['F', 'O', 'O', '=', 'b', 'a', 'r'], []] := by decide
  refine ⟨?_, fun htouches => ?_, ?_⟩
  · have hread' : readText "CC=gcc\nFOO=bar\n" = "CC=gcc\nFOO=bar\n" := by decide
    refine (patchMk_touchesOwnLines_iff _ (oneLineFlags_clangWith lineValue_nil) _).1
      ⟨hread, fun s hs h => absurd ((hcharacter s hs).symm.trans h) Bool.false_ne_true, ?_⟩
    rw [hread', htext]
    show ite _ _ _
    rw [if_neg hsettled]
    exact ⟨fun h => absurd h (by decide), rfl, rfl, trivial⟩
  · have hread' : readText "CC=gcc\r\nFOO=bar\r\n" = "CC=gcc\nFOO=bar\n" := by decide
    have hfile : linesOf "CC=gcc\r\nFOO=bar\r\n".toList =
        [['C', 'C', '=', 'g', 'c', 'c', '\r'], ['F', 'O', 'O', '=', 'b', 'a', 'r', '\r'], []] := by
      decide
    -- the line behind the assignment has lost its carriage return
    have hiff := (patchMk_touchesOwnLines_iff (clangWith "") (oneLineFlags_clangWith lineValue_nil)
      "CC=gcc\r\nFOO=bar\r\n").2 hcharacter
    obtain ⟨-, -, hright⟩ := hiff.mp htouches
    rw [hread', htext, hfile] at hright
    change ite _ _ _ at hright
    rw [if_neg hsettled] at hright
    have hline : ['F', 'O', 'O', '=', 'b', 'a', 'r', '\r'] =
        ['F', 'O', 'O', '=', 'b', 'a', 'r'] := hright.2.1
    exact absurd hline (by decide)
  · have hread' : readText "FOO=bar\n" = "FOO=bar\n" := by decide
    have hfile : linesOf "FOO=bar\n".toList = [['F', 'O', 'O', '=', 'b', 'a', 'r'], []] := by decide
    have hsettled' : Settled ((requested (clangWith "12x")).map usable) .idle
        [['F', 'O', 'O', '=', 'b', 'a', 'r'], []] := by decide
    -- no flags are set in the file, so that the octal template is never used
    have hunassigned : ¬ AssignedIn .cflags false [['F', 'O', 'O', '=', 'b', 'a', 'r'], []] := by
      rintro (h | ⟨h, -⟩ | h | ⟨h, -⟩ | h)
      · exact absurd h (by decide)
      · exact absurd h (by decide)
      · exact absurd h (by decide)
      · exact absurd h (by decide)
      · exact h
    refine (patchMk_touchesOwnLines_iff _ (oneLineFlags_clangWith ⟨by decide, by decide⟩) _).1
      ⟨not_misread_clangWith ?_, ?_, ?_⟩
    · rintro ⟨d, rest, heq, -, hoctal⟩
      rw [show "12x".toList = ['1', '2', 'x'] by decide] at heq
      cases heq
      exact absurd (hoctal '2' rfl) (by decide)
    · rw [hread', hfile]
      simp only [requested, List.forall_mem_cons]
      exact ⟨fun h => absurd h (by decide), fun h => absurd h (by decide), fun _ => hunassigned,
        fun h => absurd h (by decide), fun h => absurd h (by decide),
        fun h => absurd h (by decide), by simp⟩
    · rw [hread', hfile]
      show ite _ _ _
      rw [if_pos hsettled']
      have hnone : ∀ r ∈ [['F', 'O', 'O', '=', 'b', 'a', 'r'], []],
          ∀ s ∈ requested (clangWith "12x"), (s.1.split r).isSome = false := by decide
      exact fun r hr s hs h => absurd ((hnone r hr s hs).symm.trans h) Bool.false_ne_true

end Apatchy
