import Apatchy.Build.OneReading

/-!
# Lines that are right

The patching touches its own lines only if what is put into each line is right for it, and
that is a condition on the lines and on the values (`Apatchy.forall₂_patchedLine_iff`).

Line by line the two are the same (`Apatchy.patchedLine_lineRead_iff`). A line that is right is
still the line it was, or has got its value (`Apatchy.SameOrSet`); so no pass before one that waits
has read anything of a line that was filled, and the six passes go on as the one reading says
(`Apatchy.unseen_of_sameOrSet`, `Apatchy.forall₂_linesAfter_iff`).
-/

namespace Apatchy

variable {settings : List Setting} {s : Setting} {st : Reading} {r l y front rest : List Char}
  {isLast : Bool}

/-! ### Kinds of lines -/

/-- **Lines that are alike for every pass.** -/
structure SameKind (l y : List Char) : Prop where
  /-- Both are blank. -/
  blank : isBlank l = isBlank y
  /-- Both start with an equals sign. -/
  equals : (eqSplit l).isSome = (eqSplit y).isSome
  /-- Both are a name alone. -/
  alone : ∀ v : MkVariable, v.alone l = v.alone y
  /-- Both are an assignment. -/
  split : ∀ v : MkVariable, (v.split l).isSome = (v.split y).isSome

namespace SameKind

theorem refl (l : List Char) : SameKind l l := ⟨rfl, rfl, fun _ => rfl, fun _ => rfl⟩

theorem symm (h : SameKind l y) : SameKind y l :=
  ⟨h.blank.symm, h.equals.symm, fun v => (h.alone v).symm, fun v => (h.split v).symm⟩

theorem trans {z : List Char} (h : SameKind l y) (h' : SameKind y z) : SameKind l z :=
  ⟨h.blank.trans h'.blank, h.equals.trans h'.equals, fun v => (h.alone v).trans (h'.alone v),
    fun v => (h.split v).trans (h'.split v)⟩

/-- Two assignments of one variable. -/
theorem of_split {v : MkVariable} (hl : (v.split l).isSome) (hy : (v.split y).isSome) :
    SameKind l y := by
  obtain ⟨⟨front, rest⟩, hl⟩ := Option.isSome_iff_exists.mp hl
  obtain ⟨⟨front', rest'⟩, hy⟩ := Option.isSome_iff_exists.mp hy
  have hname := MkVariable.prefix_of_split_eq_some hl
  have hname' := MkVariable.prefix_of_split_eq_some hy
  -- what a variable makes of a line depends on its name only
  have hof : ∀ {w : MkVariable} {cs front rest : List Char}, w.name = v.name →
      v.split cs = some (front, rest) → w.split cs = some (front, rest) ∧ w.alone cs = false := by
    intro w cs front rest hw hcs
    have hsame : w.split cs = v.split cs := by rw [MkVariable.split, MkVariable.split, hw]
    exact ⟨hsame.trans hcs, w.alone_of_split_eq_some (hsame.trans hcs)⟩
  refine ⟨?_, ?_, fun w => ?_, fun w => ?_⟩
  · rw [v.not_isBlank_of_begins hname, v.not_isBlank_of_begins hname']
  · rw [v.eqSplit_of_begins hname, v.eqSplit_of_begins hname']
  · by_cases hw : w.name = v.name
    · rw [(hof hw hl).2, (hof hw hy).2]
    · rw [(MkVariable.split_eq_none_of_ne hl hw).2, (MkVariable.split_eq_none_of_ne hy hw).2]
  · by_cases hw : w.name = v.name
    · rw [(hof hw hl).1, (hof hw hy).1]
      rfl
    · rw [(MkVariable.split_eq_none_of_ne hl hw).1, (MkVariable.split_eq_none_of_ne hy hw).1]

/-- Two lines that start with an equals sign. -/
theorem of_eqSplit (hl : (eqSplit l).isSome) (hy : (eqSplit y).isSome) : SameKind l y := by
  obtain ⟨⟨front, rest⟩, hl⟩ := Option.isSome_iff_exists.mp hl
  obtain ⟨⟨front', rest'⟩, hy⟩ := Option.isSome_iff_exists.mp hy
  refine ⟨?_, by rw [hl, hy]; rfl, fun w => ?_, fun w => ?_⟩
  · rw [not_isBlank_of_eqSplit hl, not_isBlank_of_eqSplit hy]
  · rw [w.alone_of_not_begins (MkVariable.not_prefix_of_eqSplit hl),
      w.alone_of_not_begins (MkVariable.not_prefix_of_eqSplit hy)]
  · rw [w.split_of_eqSplit hl, w.split_of_eqSplit hy]

/-- A carriage return at the end is a blank. -/
theorem append_cr (l : List Char) : SameKind l (l ++ ['\r']) := by
  have hrest : ∀ c, ['\r'].head? = some c → isSpace c = true := by
    intro c hc
    obtain rfl : '\r' = c := by simpa using hc
    decide
  have hblank : ∀ cs, isBlank (cs ++ ['\r']) = isBlank cs := by
    intro cs
    simp [isBlank, show isSpace '\r' = true by decide]
  refine ⟨(hblank l).symm, ?_, fun v => ?_, fun v => ?_⟩
  · rcases hl : isBlank l with _ | _
    · rw [eqSplit_append_of_not_isBlank hl, Option.isSome_map]
    · rw [eqSplit_of_isBlank hl, eqSplit_of_isBlank ((hblank l).trans hl)]
  · -- the carriage return is behind the name, if that is there
    rw [MkVariable.alone, MkVariable.alone]
    by_cases hname : v.name <+: l
    · have hname' := (v.prefix_append_iff hrest).mpr hname
      rw [List.isPrefixOf_iff_prefix.mpr hname, List.isPrefixOf_iff_prefix.mpr hname',
        List.drop_append_of_le_length hname.length_le, hblank]
    · have hname' := (v.prefix_append_iff hrest).not.mpr hname
      rw [← List.isPrefixOf_iff_prefix, Bool.not_eq_true] at hname hname'
      rw [hname, hname', Bool.false_and, Bool.false_and]
  · -- a name alone has no equals sign behind it, with the carriage return either
    rcases halone : v.alone l with _ | _
    · rw [v.split_append_of_not_alone hrest halone, Option.isSome_map]
    · have hnone : v.split l = none := by
        rcases hsplit : v.split l with _ | ⟨front, rest⟩
        · rfl
        · rw [v.alone_of_split_eq_some hsplit] at halone
          cases halone
      rw [v.split_append_of_alone hrest halone, hnone, eqSplit_of_isBlank (by decide)]
      rfl

end SameKind

/-- A line of a file, and the line of its text. -/
def CrLine (r l : List Char) : Prop := r = l ∨ r = l ++ ['\r']

theorem CrLine.sameKind (h : CrLine r l) : SameKind l r := by
  obtain rfl | rfl := h
  · exact SameKind.refl r
  · exact SameKind.append_cr l

/-- **What a line can become if it is right**: itself, with the carriage return that it had in
the file, or with its value. -/
def SameOrSet (settings : List Setting) (l y : List Char) : Prop :=
  CrLine y l ∨ ∃ s ∈ settings, (s.1.split l).isSome ∧ s.1.Assigns s.2 y

theorem SameOrSet.sameKind (h : SameOrSet settings l y) : SameKind l y := by
  obtain h | ⟨s, -, hl, front, blanks, hy, -⟩ := h
  · exact h.sameKind
  · exact SameKind.of_split hl (by rw [hy]; rfl)

/-- A line that is set right is alike. -/
theorem PatchedLine.sameOrSet (hcr : CrLine r l) (h : PatchedLine settings r y) :
    SameOrSet settings l y := by
  by_cases hassigned : ∃ s ∈ settings, (s.1.split r).isSome
  · obtain ⟨s, hs, hr⟩ := hassigned
    exact Or.inr ⟨s, hs, (hcr.sameKind.split s.1).trans hr, h.assigned s hs hr⟩
  · have hkept := h.kept fun s hs => by
      rw [← Option.not_isSome_iff_eq_none]
      exact fun hr => hassigned ⟨s, hs, hr⟩
    exact Or.inl (hkept ▸ hcr)

/-! ### The values do not get into each other's way -/

/-- **What the values have to be**, for the variables whose blanks are kept: a value that is put
into a later line is not taken for an assignment that is already right, nor for a line of a
variable that is set before. -/
structure Separate (settings : List Setting) : Prop where
  /-- The variables differ. -/
  distinct : Distinct settings
  /-- The value is not made of the name of a variable before, blanks and equals signs. -/
  shows : ∀ s ∈ settings, s.1.keepsBlanks = true → ∀ w ∈ before settings s,
    ∃ c ∈ s.2, isSpace c = false ∧ c ≠ '=' ∧ c ∉ w.1.name
  /-- If it assigns a value, the variable is set later. -/
  not_assigns : ∀ s ∈ settings, s.1.keepsBlanks = true → ∀ w ∈ settings, w.1.Assigns w.2 s.2 →
    w ∈ behind settings s
  /-- A later value that is put into a later line is not blank. -/
  not_isBlank : ∀ s ∈ settings, s.1.keepsBlanks = true → ∀ w ∈ behind settings s,
    w.1.keepsBlanks = true → isBlank w.2 = false

namespace Separate

variable (h : Separate settings)

include h

/-- The settings of one variable are one. -/
theorem eq_of_name_eq {w : Setting} (hs : s ∈ settings) (hw : w ∈ settings)
    (hname : s.1.name = w.1.name) : s = w := by
  obtain ⟨hsettings, hsurrounds⟩ := before_append_behind h.distinct hs
  rw [hsettings, List.mem_append, List.mem_cons] at hw
  obtain hw | rfl | hw := hw
  · exact absurd hname.symm (hsurrounds.ne_before w hw)
  · rfl
  · exact absurd hname.symm (hsurrounds.ne_behind w hw)

end Separate

/-! ### The passes go on as the reading says -/

/-- What passes have read of a line, if anything. -/
theorem exists_of_readIdle_ne (h : (readIdle settings l isLast).2 ≠ .idle) :
    ∃ w ∈ settings, w.1.name <+: l ∧ firstWord l = w.1.name ∧
      ∀ c ∈ l, isSpace c = true ∨ c = '=' ∨ c ∈ w.1.name := by
  rcases hassigned : assigned? settings l with _ | ⟨s, front, rest⟩
  · rcases hfind : settings.find? fun s => s.1.alone l with _ | s
    · refine absurd ?_ h
      simp [readIdle, hassigned, aloneIn, hfind]
    · have halone : s.1.alone l = true := by simpa using List.find?_some hfind
      have hword := MkVariable.firstWord_of_alone halone
      rw [MkVariable.alone, Bool.and_eq_true, List.isPrefixOf_iff_prefix] at halone
      obtain ⟨hname, hblank⟩ := halone
      refine ⟨s, List.mem_of_find?_eq_some hfind, hname, hword, fun c hc => ?_⟩
      rw [← List.prefix_iff_eq_append.mp hname, List.mem_append] at hc
      exact hc.elim (fun hc => Or.inr (Or.inr hc))
        fun hc => Or.inl (List.all_eq_true.mp hblank c hc)
  · obtain ⟨hs, hsplit⟩ := of_assigned?_eq_some hassigned
    -- an assignment leaves something read only if its value is waited for
    have hwaits : waits s rest isLast = true := by
      by_contra hwaits
      rw [Bool.not_eq_true] at hwaits
      refine h ?_
      simp only [readIdle, hassigned, put_of_not_waits hwaits]
    have hrest : isBlank rest = true := by
      rw [waits, Bool.and_eq_true, Bool.and_eq_true] at hwaits
      exact hwaits.1.2
    refine ⟨s, hs, MkVariable.prefix_of_split_eq_some hsplit,
      MkVariable.firstWord_of_split_eq_some hsplit, fun c hc => ?_⟩
    obtain ⟨blanks, hblanks, rfl, rfl⟩ := (s.1.split_eq_some_iff).mp hsplit
    simp only [List.mem_append, List.mem_singleton] at hc
    obtain ((hc | hc) | hc) | hc := hc
    · exact Or.inr (Or.inr hc)
    · exact Or.inl (List.all_eq_true.mp hblanks c hc)
    · exact Or.inr (Or.inl hc)
    · exact Or.inl (List.all_eq_true.mp hrest c hc)

/-- A carriage return is no part of a word. -/
theorem firstWord_of_crLine (h : CrLine r l) : firstWord r = firstWord l := by
  obtain rfl | rfl := h
  · rfl
  · rw [firstWord, firstWord, List.takeWhile_append]
    split_ifs with hlength
    · rw [(List.takeWhile_prefix _).eq_of_length hlength]
      simp [show isSpace '\r' = true by decide]
    · rfl

/-- What is put into a line that is waited for: the value, or an assignment of a variable that
is set later. -/
theorem readIdle_eq_or (settings : List Setting) (l : List Char) (isLast : Bool) :
    (assigned? settings l = none ∧ (readIdle settings l isLast).1 = l) ∨
      ∃ w ∈ settings, ∃ front rest rest', assigned? settings l = some (w, front, rest) ∧
        (readIdle settings l isLast).1 = (put w front rest isLast).1 ∧
        w.1.split (readIdle settings l isLast).1 = some (front, rest') := by
  rcases hassigned : assigned? settings l with _ | ⟨w, front, rest⟩
  · left
    simp [readIdle, hassigned]
  · obtain ⟨hw, hsplit⟩ := of_assigned?_eq_some hassigned
    obtain ⟨rest', hput⟩ := split_put hsplit w isLast
    have hread : (readIdle settings l isLast).1 = (put w front rest isLast).1 := by
      rw [readIdle, hassigned]
    exact Or.inr ⟨w, hw, front, rest, rest', rfl, hread, hread ▸ hput⟩

/-- **If the line is still what it was, or has its value**, no pass before one that waited has
read anything of it. -/
theorem unseen_of_sameOrSet (h : Separate settings) (hst : st.About settings)
    (hset : SameOrSet settings l (lineRead settings st l isLast).1) :
    st.Unseen settings l isLast := by
  rintro s rfl hfilled
  obtain ⟨hs, hkeeps⟩ := hst
  obtain ⟨hsettings, hsurrounds⟩ := before_append_behind h.distinct hs
  by_contra hread
  obtain ⟨w, hw, hname, hword, hchars⟩ := exists_of_readIdle_ne hread
  have hlead : s.1.lead l = [] := by
    rw [MkVariable.lead, takeWhile_of_begins hname, ite_self]
  rw [lineRead_waiting settings s hfilled, hlead, List.nil_append] at hset
  -- The line begins with the name of `w`; what is put there does not look like it.
  obtain ⟨-, hput⟩ | ⟨w', hw', front, -, rest', -, -, hsplit⟩ :=
    readIdle_eq_or (behind settings s) s.2 isLast
  · -- the value itself
    rw [hput] at hset
    obtain hcr | ⟨w', hw', hl, hassigns⟩ := hset
    · obtain ⟨c, hc, hspace, heq, hnot⟩ := h.shows s hs hkeeps w hw
      have hmem : c ∈ l := by
        obtain hcr | hcr := hcr
        · exact hcr ▸ hc
        · rw [hcr, List.mem_append, List.mem_singleton] at hc
          refine hc.resolve_right ?_
          rintro rfl
          exact absurd hspace (by decide)
      rcases hchars c hmem with hc | hc | hc
      · exact Bool.false_ne_true (hspace.symm.trans hc)
      · exact heq hc
      · exact hnot hc
    · obtain ⟨⟨front, rest⟩, hsplit⟩ := Option.isSome_iff_exists.mp hl
      exact hsurrounds.ne_across w hw w' (h.not_assigns s hs hkeeps w' hw' hassigns)
        (hword.symm.trans (MkVariable.firstWord_of_split_eq_some hsplit))
  · -- an assignment of a variable that is set later
    have hword' := MkVariable.firstWord_of_split_eq_some hsplit
    have hne := hsurrounds.ne_across w hw w' hw'
    obtain hcr | ⟨w'', -, hl, front'', blanks'', hy, -⟩ := hset
    · exact hne (hword.symm.trans ((firstWord_of_crLine hcr).symm.trans hword'))
    · obtain ⟨⟨front, rest⟩, hl⟩ := Option.isSome_iff_exists.mp hl
      exact hne (hword.symm.trans ((MkVariable.firstWord_of_split_eq_some hl).trans
        ((MkVariable.firstWord_of_split_eq_some hy).symm.trans hword')))

/-- **What the passes write is right exactly if what the reading says is.** -/
theorem forall₂_linesAfter_iff (h : Separate settings) {R : List Char → List Char → Prop}
    (hR : ∀ {r l y}, CrLine r l → R r y → SameOrSet settings l y) {rs ls : List (List Char)}
    (hcr : List.Forall₂ CrLine rs ls) (hst : st.About settings) :
    List.Forall₂ R rs (linesAfter (rowOf settings st) ls) ↔
      List.Forall₂ R rs (linesRead settings st ls) := by
  induction hcr generalizing st with
  | nil => exact Iff.rfl
  | @cons r l rs ls hr hcr ih =>
    obtain ⟨hline, hrow⟩ := row_of_about h.distinct hst l ls.isEmpty
    rw [linesAfter_cons, linesRead, hline, List.forall₂_cons, List.forall₂_cons]
    -- Only if the first line is right do the passes go on as the reading says.
    refine and_congr_right fun hright => ?_
    rw [hrow (unseen_of_sameOrSet h hst (hR hr hright))]
    exact ih (about_lineRead hst l ls.isEmpty)

/-! ### What is right, line by line -/

/-- A line that is no assignment has to stay. -/
theorem patchedLine_iff_of_not_assigned (hcr : CrLine r l) (hl : assigned? settings l = none) :
    PatchedLine settings r y ↔ y = r := by
  have hnone : ∀ s ∈ settings, s.1.split r = none := by
    intro s hs
    rw [← Option.not_isSome_iff_eq_none, ← hcr.sameKind.split s.1,
      assigned?_eq_none_iff.mp hl s hs]
    exact Bool.false_ne_true
  constructor
  · exact fun h => h.kept hnone
  · rintro rfl
    refine ⟨fun s hs hassigned => ?_, fun _ => rfl⟩
    rw [hnone s hs] at hassigned
    cases hassigned

/-- An assignment has to get its value. -/
theorem patchedLine_iff_of_assigned (h : Separate settings) (hcr : CrLine r l)
    (hl : assigned? settings l = some (s, front, rest)) :
    PatchedLine settings r y ↔ s.1.Assigns s.2 y := by
  obtain ⟨hs, hsplit⟩ := of_assigned?_eq_some hl
  have hr : (s.1.split r).isSome := by
    rw [← hcr.sameKind.split s.1, hsplit]
    rfl
  constructor
  · exact fun hown => hown.assigned s hs hr
  · refine fun hassigns => ⟨fun w hw hwr => ?_, fun hnone => ?_⟩
    · obtain ⟨⟨front', rest'⟩, hwl⟩ := Option.isSome_iff_exists.mp
        ((hcr.sameKind.split w.1).trans hwr)
      obtain rfl : s = w := h.eq_of_name_eq hs hw ((MkVariable.firstWord_of_split_eq_some
        hsplit).symm.trans (MkVariable.firstWord_of_split_eq_some hwl))
      exact hassigns
    · rw [hnone s hs] at hr
      cases hr

/-- **A line by itself** gets its value, unless it waits for it. -/
theorem assigns_put_iff (hsplit : s.1.split l = some (front, rest)) (isLast : Bool) :
    s.1.Assigns s.2 (put s front rest isLast).1 ↔ (waits s rest isLast = true → s.2 <:+ rest) := by
  have hfront : ∀ rest', s.1.split (front ++ rest') = some (front, rest') :=
    MkVariable.split_front_append hsplit
  rcases hwaits : waits s rest isLast with _ | _
  · rw [put_of_not_waits hwaits, List.append_assoc]
    exact iff_of_true ⟨front, s.1.lead rest, hfront _, s.1.isBlank_lead rest⟩ (by simp)
  · have hrest : isBlank rest = true := by
      rw [waits, Bool.and_eq_true, Bool.and_eq_true] at hwaits
      exact hwaits.1.2
    rw [put, if_pos hwaits]
    constructor
    · rintro ⟨front', blanks, hassigns, -⟩ -
      rw [hfront] at hassigns
      cases hassigns
      exact List.suffix_append blanks s.2
    · intro hsuffix
      obtain ⟨blanks, rfl⟩ := hsuffix rfl
      refine ⟨front, blanks, hfront _, ?_⟩
      rw [isBlank, List.all_append, Bool.and_eq_true] at hrest
      exact hrest.1

/-- **An assignment that was waited for** gets its value only from the value that is put there. -/
theorem assigns_behind_iff {w : Setting} (h : Separate settings) (hs : s ∈ settings)
    (hkeeps : s.1.keepsBlanks = true) (hw : w ∈ settings) :
    w.1.Assigns w.2 (readIdle (behind settings s) s.2 isLast).1 ↔
      ∃ front rest, assigned? (behind settings s) s.2 = some (w, front, rest) ∧
        waits w rest isLast = false := by
  obtain ⟨hnone, hput⟩ | ⟨w', hw', front, rest, rest', hassigned, hput, hsplit⟩ :=
    readIdle_eq_or (behind settings s) s.2 isLast
  · -- the value assigns nothing of the later passes, and no other value of theirs
    rw [hput, hnone]
    refine iff_of_false (fun hassigns => ?_) (by simp)
    have hmem := h.not_assigns s hs hkeeps w hw hassigns
    obtain ⟨front, blanks, hsplit, -⟩ := hassigns
    rw [assigned?_eq_none_iff.mp hnone w hmem] at hsplit
    cases hsplit
  · obtain ⟨-, hvalue⟩ := of_assigned?_eq_some hassigned
    constructor
    · rintro ⟨front', blanks, hassigns, hblanks⟩
      obtain rfl : w' = w := h.eq_of_name_eq (mem_of_mem_behind hw') hw
        ((MkVariable.firstWord_of_split_eq_some hsplit).symm.trans
          (MkVariable.firstWord_of_split_eq_some hassigns))
      refine ⟨front, rest, hassigned, ?_⟩
      -- were it waited for again, the value would be blank, which none that is waited for is
      by_contra hwaits
      rw [Bool.not_eq_false] at hwaits
      have hsuffix := (assigns_put_iff hvalue isLast).mp
        (hput ▸ ⟨front', blanks, hassigns, hblanks⟩) hwaits
      rw [waits, Bool.and_eq_true, Bool.and_eq_true] at hwaits
      obtain ⟨⟨hkeeps', hrest⟩, -⟩ := hwaits
      obtain ⟨blanks', rfl⟩ := hsuffix
      have hblank := h.not_isBlank s hs hkeeps w' hw' hkeeps'
      rw [isBlank, List.all_append, Bool.and_eq_true] at hrest
      exact Bool.false_ne_true (hblank.symm.trans hrest.2)
    · rintro ⟨front', rest'', hassigned', hwaits⟩
      obtain ⟨-, hvalue'⟩ := of_assigned?_eq_some hassigned'
      have hread : (readIdle (behind settings s) s.2 isLast).1 =
          (put w front' rest'' isLast).1 := by
        rw [readIdle, hassigned']
      rw [hread]
      exact (assigns_put_iff hvalue' isLast).mpr fun hwaits' =>
        absurd (hwaits.symm.trans hwaits') Bool.false_ne_true

/-- A line that is no assignment has to stay. -/
theorem patchedLine_lineRead_iff_of_not_assigned (hst : st.About settings) (hcr : CrLine r l)
    (hassigned : assigned? settings l = none) :
    PatchedLine settings r (lineRead settings st l isLast).1 ↔
      LineRight settings st r l isLast := by
  rw [patchedLine_iff_of_not_assigned hcr hassigned]
  have hidle : (readIdle settings l isLast).1 = l := by rw [readIdle, hassigned]
  cases st with
  | idle => simp [lineRead, LineRight, hassigned, hidle, eq_comm]
  | named s =>
    rcases heq : eqSplit l with _ | ⟨front, rest⟩
    · have hread : (lineRead settings (.named s) l isLast).1 = l := by
        simp only [lineRead, heq]
        split_ifs <;> simp [hidle]
      simp [LineRight, hassigned, heq, hread, eq_comm]
    · obtain ⟨-, -, -, hl⟩ := eqSplit_eq_some_iff.mp heq
      have hread : (lineRead settings (.named s) l isLast).1 = (put s front rest isLast).1 := by
        simp only [lineRead, heq]
      have hput : (put s front rest isLast).1 =
          if waits s rest isLast then l else front ++ s.1.lead rest ++ s.2 := by
        rw [put, hl]
        split_ifs <;> rfl
      have hright : LineRight settings (.named s) r l isLast ↔
          r = if waits s rest isLast then l else front ++ s.1.lead rest ++ s.2 := by
        simp only [LineRight, hassigned, heq]
      rw [hread, hput, hright, eq_comm]
  | waiting s =>
    rcases hfilled : isBlank l && !isLast with _ | _
    · have hright : LineRight settings (.waiting s) r l isLast ↔ r = s.1.lead l ++ s.2 := by
        simp [LineRight, hassigned, hfilled]
      rw [lineRead_waiting settings s hfilled, hright]
      obtain ⟨-, hput⟩ | ⟨w, hw, front, rest, rest', hvalue, -, hsplit⟩ :=
        readIdle_eq_or (behind settings s) (s.1.lead l ++ s.2) isLast
      · rw [hput, eq_comm]
      · -- an assignment is put there, and the line was none
        have hnone : w.1.split r = none := by
          rw [← Option.not_isSome_iff_eq_none, ← hcr.sameKind.split w.1,
            assigned?_eq_none_iff.mp hassigned w (mem_of_mem_behind hw)]
          exact Bool.false_ne_true
        refine iff_of_false (fun hy => ?_) (fun hr => ?_)
        · rw [hy, hnone] at hsplit
          cases hsplit
        · have hvalue' := (of_assigned?_eq_some hvalue).2
          rw [← hr, hnone] at hvalue'
          cases hvalue'
    · simp [lineRead, LineRight, hassigned, hfilled, eq_comm]

/-- An assignment has to get its value. -/
theorem patchedLine_lineRead_iff_of_assigned {w : Setting} {front rest : List Char}
    (h : Separate settings) (hst : st.About settings) (hcr : CrLine r l)
    (hassigned : assigned? settings l = some (w, front, rest)) :
    PatchedLine settings r (lineRead settings st l isLast).1 ↔
      LineRight settings st r l isLast := by
  rw [patchedLine_iff_of_assigned h hcr hassigned]
  obtain ⟨hw, hsplit⟩ := of_assigned?_eq_some hassigned
  have hname := MkVariable.prefix_of_split_eq_some hsplit
  have hidle : (readIdle settings l isLast).1 = (put w front rest isLast).1 := by
    rw [readIdle, hassigned]
  have halone := assigns_put_iff hsplit isLast
  cases st with
  | idle => simpa [lineRead, LineRight, hassigned, hidle] using halone
  | named s =>
    simpa [lineRead, LineRight, hassigned, hidle, w.1.eqSplit_of_begins hname,
      w.1.not_isBlank_of_begins hname] using halone
  | waiting s =>
    have hfilled : (isBlank l && !isLast) = false := by
      rw [w.1.not_isBlank_of_begins hname, Bool.false_and]
    -- no blanks are before a name, so only the value is put there
    have hlead : s.1.lead l = [] := by
      rw [MkVariable.lead, takeWhile_of_begins hname, ite_self]
    have hright : LineRight settings (.waiting s) r l isLast ↔
        ∃ front rest, assigned? (behind settings s) s.2 = some (w, front, rest) ∧
          waits w rest isLast = false := by
      simp [LineRight, hassigned]
    rw [lineRead_waiting settings s hfilled, hlead, List.nil_append, hright]
    exact assigns_behind_iff h hst.1 hst.2 hw

/-- **What the reading puts into a line is what is meant**, exactly if it is right for it. -/
theorem patchedLine_lineRead_iff (h : Separate settings) (hst : st.About settings)
    (hcr : CrLine r l) :
    PatchedLine settings r (lineRead settings st l isLast).1 ↔
      LineRight settings st r l isLast := by
  rcases hassigned : assigned? settings l with _ | ⟨w, front, rest⟩
  · exact patchedLine_lineRead_iff_of_not_assigned hst hcr hassigned
  · exact patchedLine_lineRead_iff_of_assigned h hst hcr hassigned

/-- **What the reading says is what is meant**, exactly if it is right for every line. -/
theorem forall₂_linesRead_iff (h : Separate settings) {rs ls : List (List Char)}
    (hcr : List.Forall₂ CrLine rs ls) (hst : st.About settings) :
    List.Forall₂ (PatchedLine settings) rs (linesRead settings st ls) ↔
      RightLines settings st rs ls := by
  induction hcr generalizing st with
  | nil => simp [linesRead, RightLines]
  | @cons r l rs ls hr hcr ih =>
    rw [linesRead, RightLines, List.forall₂_cons, patchedLine_lineRead_iff h hst hr,
      ih (about_lineRead hst l ls.isEmpty)]

/-- **What the passes write is what is meant**, exactly if it is right for every line. -/
theorem forall₂_patchedLine_iff (h : Separate settings) {rs ls : List (List Char)}
    (hcr : List.Forall₂ CrLine rs ls) (hst : st.About settings) :
    List.Forall₂ (PatchedLine settings) rs (linesAfter (rowOf settings st) ls) ↔
      RightLines settings st rs ls :=
  (forall₂_linesAfter_iff h (fun hr hown => hown.sameOrSet hr) hcr hst).trans
    (forall₂_linesRead_iff h hcr hst)

theorem linesRead_eq_iff (settings : List Setting) (st : Reading) (ls : List (List Char)) :
    linesRead settings st ls = ls ↔ Settled settings st ls := by
  induction ls generalizing st with
  | nil => simp [linesRead, Settled]
  | cons l ls ih => rw [linesRead, Settled, List.cons_eq_cons, ih]

/-- **The passes change nothing** exactly if what is put into the lines is there already. -/
theorem linesAfter_eq_iff (h : Separate settings) (hst : st.About settings)
    (ls : List (List Char)) :
    linesAfter (rowOf settings st) ls = ls ↔ Settled settings st ls := by
  have hcr : List.Forall₂ CrLine ls ls := List.forall₂_same.mpr fun l _ => Or.inl rfl
  have hiff := forall₂_linesAfter_iff h (R := Eq)
    (fun {r l y} hr (hy : r = y) => Or.inl (hy ▸ hr)) hcr hst
  rw [List.forall₂_eq_eq_eq] at hiff
  rw [← linesRead_eq_iff, eq_comm, hiff, eq_comm]

/-! ### The lines between the passes -/

/-- A pass that does not wait leaves a line of the kind it was. -/
theorem sameKind_passLine {m : PassState} (hm : m.2 ≠ .filling) (l : List Char) (isLast : Bool) :
    SameKind l (passLine m l isLast).1 := by
  obtain ⟨s, mode⟩ := m
  have hfill : ∀ {front rest : List Char}, s.1.split l = some (front, rest) →
      SameKind l (fillIn s.1 s.2 front rest isLast).1 := by
    intro front rest hsplit
    obtain ⟨rest', hput⟩ := split_put hsplit s isLast
    rw [fillIn_eq_put]
    exact SameKind.of_split (by rw [hsplit]; rfl) (by rw [hput]; rfl)
  rw [passLine, lineStep, if_neg hm]
  rcases hsplit : s.1.split l with _ | ⟨front, rest⟩
  · rcases hfound : if mode = .named then eqSplit l else none with _ | ⟨front, rest⟩
    · exact SameKind.refl l
    · split_ifs at hfound
      obtain ⟨rest', hput⟩ := eqSplit_put hfound s isLast
      simp only [fillIn_eq_put]
      exact SameKind.of_eqSplit (by rw [hfound]; rfl) (by rw [hput]; rfl)
  · exact hfill hsplit

theorem sameKind_lineAfter {row : List PassState} (h : ∀ m ∈ row, m.2 ≠ .filling)
    (l : List Char) (isLast : Bool) : SameKind l (lineAfter row l isLast) := by
  induction row generalizing l with
  | nil => exact SameKind.refl l
  | cons m row ih =>
    obtain ⟨hm, hrow⟩ := List.forall_mem_cons.mp h
    rw [lineAfter_cons]
    exact (sameKind_passLine hm l isLast).trans (ih hrow _)

/-- **Between the passes**, a line is of the kind it was, if it is so in the end: only one pass
waits, and those before it and those behind it do not change the kind. -/
theorem sameKind_lineAfter_rowOf {passes later : List Setting}
    (hdistinct : Distinct (passes ++ later))
    (h : SameKind l (lineAfter (rowOf (passes ++ later) st) l isLast)) :
    SameKind l (lineAfter (rowOf passes st) l isLast) := by
  by_cases hpasses : ∀ m ∈ rowOf passes st, m.2 ≠ .filling
  · exact sameKind_lineAfter hpasses l isLast
  · -- the pass that waits is among these, so none of the later ones does
    have hlater : ∀ m ∈ rowOf later st, m.2 ≠ .filling := by
      push Not at hpasses
      obtain ⟨m, hm, hfilling⟩ := hpasses
      obtain ⟨s, hs, rfl⟩ := List.mem_map.mp hm
      intro m' hm' hfilling'
      obtain ⟨s', hs', rfl⟩ := List.mem_map.mp hm'
      have hnames : ∀ {s : Setting}, modeOf st s = .filling →
          ∃ w, st = .waiting w ∧ s.1.name = w.1.name := by
        intro s hs
        cases st with
        | idle => cases hs
        | named w => exact absurd hs (not_filling_of_named s w)
        | waiting w =>
          rw [modeOf] at hs
          split_ifs at hs with hname
          exact ⟨w, rfl, hname⟩
      obtain ⟨w, rfl, hname⟩ := hnames hfilling
      obtain ⟨w', heq, hname'⟩ := hnames hfilling'
      cases heq
      exact (List.pairwise_append.mp hdistinct).2.2 s hs s' hs' (hname.trans hname'.symm)
    rw [rowOf_append, lineAfter_append] at h
    exact h.trans (sameKind_lineAfter hlater _ isLast).symm

/-- **The same of all lines.** -/
theorem forall₂_sameKind_linesAfter {passes later : List Setting}
    (h : Separate (passes ++ later)) {ls : List (List Char)} (hst : st.About (passes ++ later))
    (hset : List.Forall₂ (SameOrSet (passes ++ later)) ls (linesRead (passes ++ later) st ls)) :
    List.Forall₂ SameKind ls (linesAfter (rowOf passes st) ls) := by
  induction ls generalizing st with
  | nil => exact List.Forall₂.nil
  | cons l ls ih =>
    rw [linesRead, List.forall₂_cons] at hset
    obtain ⟨hline, hlines⟩ := hset
    obtain ⟨hwrites, hreads⟩ := row_of_about h.distinct hst l ls.isEmpty
    -- What the first passes have read is the beginning of what all have read.
    have hrow : rowAfter (rowOf passes st) l ls.isEmpty =
        rowOf passes (lineRead (passes ++ later) st l ls.isEmpty).2 := by
      have hwhole := hreads (unseen_of_sameOrSet h hst hline)
      rw [rowOf_append, rowOf_append, rowAfter_append] at hwhole
      refine (List.append_inj hwhole ?_).1
      have hlength := congrArg List.length (map_fst_rowAfter (rowOf passes st) l ls.isEmpty)
      rw [List.length_map, List.length_map] at hlength
      rw [hlength, rowOf, rowOf, List.length_map, List.length_map]
    rw [linesAfter_cons, List.forall₂_cons, hrow]
    refine ⟨sameKind_lineAfter_rowOf h.distinct ?_, ih (about_lineRead hst l ls.isEmpty) hlines⟩
    rw [hwrites]
    exact hline.sameKind

end Apatchy
