import Apatchy.Build.BuildFlags
import Mathlib.Tactic.SplitIfs

/-!
# A pass over the lines of a text

Replacing what the pattern of a variable matches is what a pass over the lines does
(`Apatchy.sub_eq_runLines`). A match begins at the name of the variable; it reaches to the
equals sign, over lines that are blank, and for some variables on to the next character
that is not blank. The pass over the lines has read a name, or an equals sign, when it
comes to a blank line, and remembers it.
-/

namespace Apatchy

/-! ### Equals signs -/

theorem eqSplit_eq_some_iff {l front rest : List Char} :
    eqSplit l = some (front, rest) ↔
      ∃ blanks, isBlank blanks = true ∧ front = blanks ++ ['='] ∧ l = front ++ rest := by
  constructor
  · intro h
    rw [eqSplit] at h
    rcases hdrop : l.dropWhile isSpace with _ | ⟨c, cs⟩
    · rw [hdrop] at h
      cases h
    · rw [hdrop] at h
      simp only at h
      split_ifs at h with hc
      obtain ⟨rfl, rfl⟩ := Prod.ext_iff.mp (Option.some.inj h)
      refine ⟨l.takeWhile isSpace, List.all_takeWhile, rfl, ?_⟩
      rw [hc] at hdrop
      rw [List.append_assoc, List.singleton_append, ← hdrop, List.takeWhile_append_dropWhile]
  · rintro ⟨blanks, hblanks, rfl, rfl⟩
    have hall : ∀ c ∈ blanks, isSpace c = true := List.all_eq_true.mp hblanks
    have hsplit : (blanks ++ ['='] ++ rest).dropWhile isSpace = '=' :: rest ∧
        (blanks ++ ['='] ++ rest).takeWhile isSpace = blanks := by
      rw [List.append_assoc, List.dropWhile_append_of_pos hall, List.takeWhile_append_of_pos hall]
      simp [show isSpace '=' = false by decide]
    rw [eqSplit, hsplit.1, hsplit.2]
    rfl

/-- Behind blanks, the equals sign is looked for in what follows. -/
theorem eqSplit_append_of_isBlank {l : List Char} (h : isBlank l = true) (cs : List Char) :
    eqSplit (l ++ cs) = (eqSplit cs).map fun parts => (l ++ parts.1, parts.2) := by
  have hall : ∀ c ∈ l, isSpace c = true := List.all_eq_true.mp h
  rw [eqSplit, eqSplit, List.dropWhile_append_of_pos hall, List.takeWhile_append_of_pos hall]
  rcases cs.dropWhile isSpace with _ | ⟨c, rest⟩
  · rfl
  · by_cases hc : c = '=' <;> simp [hc]

theorem eqSplit_of_isBlank {l : List Char} (h : isBlank l = true) : eqSplit l = none := by
  have hnil : l.dropWhile isSpace = [] := List.dropWhile_eq_nil_iff.mpr (List.all_eq_true.mp h)
  rw [eqSplit, hnil]

theorem takeWhile_append_of_not_isBlank {l : List Char} (h : isBlank l = false)
    (cs : List Char) : (l ++ cs).takeWhile isSpace = l.takeWhile isSpace := by
  rw [List.takeWhile_append, if_neg]
  intro hlength
  have hself := (List.takeWhile_prefix isSpace (l := l)).eq_of_length hlength
  rw [isBlank, ← hself, List.all_takeWhile] at h
  exact Bool.false_ne_true h.symm

/-- In a line that is not blank, it is found or not, whatever follows. -/
theorem eqSplit_append_of_not_isBlank {l : List Char} (h : isBlank l = false) (cs : List Char) :
    eqSplit (l ++ cs) = (eqSplit l).map fun parts => (parts.1, parts.2 ++ cs) := by
  have hdrop : l.dropWhile isSpace ≠ [] := by
    intro hnil
    rw [List.dropWhile_eq_nil_iff] at hnil
    rw [isBlank, List.all_eq_true.mpr hnil] at h
    exact Bool.false_ne_true h.symm
  have hdrop' : (l ++ cs).dropWhile isSpace = l.dropWhile isSpace ++ cs := by
    rw [List.dropWhile_append, if_neg]
    simpa [List.isEmpty_iff] using hdrop
  rw [eqSplit, eqSplit, takeWhile_append_of_not_isBlank h, hdrop']
  rcases hcs : l.dropWhile isSpace with _ | ⟨c, rest⟩
  · exact absurd hcs hdrop
  · by_cases hc : c = '=' <;> simp [hc]

/-! ### What the pattern matches -/

namespace MkVariable

variable (v : MkVariable)

theorem split_eq_some_iff {l front rest : List Char} :
    v.split l = some (front, rest) ↔
      ∃ blanks, isBlank blanks = true ∧ front = v.name ++ blanks ++ ['='] ∧ l = front ++ rest := by
  rw [split]
  constructor
  · intro h
    split_ifs at h with hname
    obtain ⟨parts, hparts, heq⟩ := Option.map_eq_some_iff.mp h
    obtain ⟨rfl, rfl⟩ := Prod.ext_iff.mp heq
    obtain ⟨blanks, hblanks, hfront, hdrop⟩ := eqSplit_eq_some_iff.mp hparts
    refine ⟨blanks, hblanks, by simp [hfront], ?_⟩
    have hbegins := List.prefix_iff_eq_append.mp (List.isPrefixOf_iff_prefix.mp hname)
    rw [List.append_assoc, ← hdrop, hbegins]
  · rintro ⟨blanks, hblanks, rfl, rfl⟩
    have hname : v.name.isPrefixOf (v.name ++ blanks ++ ['='] ++ rest) = true := by
      rw [List.isPrefixOf_iff_prefix, List.append_assoc, List.append_assoc]
      exact List.prefix_append _ _
    have hparts : eqSplit (blanks ++ ['='] ++ rest) = some (blanks ++ ['='], rest) :=
      eqSplit_eq_some_iff.mpr ⟨blanks, hblanks, rfl, rfl⟩
    rw [if_pos hname, List.append_assoc, List.append_assoc, List.drop_left,
      ← List.append_assoc, hparts, Option.map_some, List.append_assoc]

theorem lead_append_drop (rest : List Char) :
    v.lead rest ++ rest.drop (v.lead rest).length = rest := by
  have hbegins : v.lead rest <+: rest := by
    rw [lead]
    split_ifs
    · exact List.takeWhile_prefix _
    · exact List.nil_prefix
  exact List.prefix_iff_eq_append.mp hbegins

/-- What is behind a match, from the characters behind the equals sign. -/
def behind (rest : List Char) : List Char :=
  (rest.drop (v.lead rest).length).dropWhile (· ≠ '\n')

/-- The group ends where the blanks end that are kept. -/
theorem matchItems_tail {α : Type*} {k : List Char → Option α} {a : α} {rest : List Char}
    (h : k (rest.drop (v.lead rest).length) = some a) :
    matchItems (if v.keepsBlanks then [.many isSpace] else []) k rest = some a := by
  rw [lead] at h
  split_ifs at h ⊢ with hkeeps
  · refine star_of_eq_some ?_
    rw [matchItems, ← h]
    congr 1
    nth_rewrite 3 [← List.takeWhile_append_dropWhile (p := isSpace) (l := rest)]
    rw [List.drop_left]
  · exact h

/-- **A match of the pattern** is an assignment of the variable up to the equals sign, the
blanks that are kept, and the rest of the line. -/
theorem matchAt_pattern (cs : List Char) :
    v.pattern.matchAt cs =
      (v.split cs).map fun parts => (parts.1 ++ v.lead parts.2, v.behind parts.2) := by
  -- What is to match behind the group, and what the captured text is.
  let capture : List Char → Option (List Char × List Char) := fun behind =>
    matchItems v.pattern.post (fun rest => some (cs.take (cs.length - behind.length), rest)) behind
  have hcapture : ∀ front behind, cs = front ++ behind →
      capture behind = some (front, behind.dropWhile (· ≠ '\n')) := by
    intro front behind hcs
    refine matchItems_restOfLine ?_
    rw [hcs, List.length_append, Nat.add_sub_cancel, List.take_left]
  have hmatch : v.pattern.matchAt cs =
      if v.name <+: cs then
        star isSpace (matchItems (.char '=' :: if v.keepsBlanks then [.many isSpace] else [])
          capture) (cs.drop v.name.length)
      else none := matchItems_chars ..
  have hstar : ∀ c ds, isSpace c = true →
      matchItems (.char '=' :: if v.keepsBlanks then [.many isSpace] else []) capture (c :: ds) =
        none := by
    intro c ds hc
    refine if_neg ?_
    rintro rfl
    exact absurd hc (by decide)
  rw [hmatch]
  by_cases hname : v.name <+: cs
  · rw [if_pos hname, star_of_disjoint hstar]
    rcases hsplit : v.split cs with _ | ⟨front, rest⟩
    · rw [split, if_pos (List.isPrefixOf_iff_prefix.mpr hname), eqSplit] at hsplit
      rcases hdrop : (cs.drop v.name.length).dropWhile isSpace with _ | ⟨c, rest⟩
      · rfl
      · rw [hdrop] at hsplit
        refine if_neg ?_
        rintro rfl
        simp at hsplit
    · obtain ⟨blanks, hblanks, rfl, hcs⟩ := (v.split_eq_some_iff).mp hsplit
      have hrest : (cs.drop v.name.length).dropWhile isSpace = '=' :: rest := by
        have hall : ∀ c ∈ blanks, isSpace c = true := List.all_eq_true.mp hblanks
        rw [hcs, List.append_assoc, List.append_assoc, List.drop_left,
          List.dropWhile_append_of_pos hall]
        rfl
      rw [hrest]
      refine v.matchItems_tail (hcapture _ _ ?_)
      rw [List.append_assoc, v.lead_append_drop, hcs]
  · rw [if_neg hname, split, if_neg fun h => hname (List.isPrefixOf_iff_prefix.mp h)]
    rfl

/-- The name is in a line, and not in a blank that follows it. -/
theorem prefix_append_iff {l rest : List Char}
    (hrest : ∀ c, rest.head? = some c → isSpace c = true) :
    v.name <+: l ++ rest ↔ v.name <+: l := by
  refine ⟨fun h => ?_, fun h => h.trans (List.prefix_append _ _)⟩
  rcases List.prefix_or_prefix_of_prefix h (List.prefix_append l rest) with hname | ⟨t, ht⟩
  · exact hname
  · rcases t with _ | ⟨c, t⟩
    · rw [← ht, List.append_nil]
    · rw [← ht, List.prefix_append_right_inj] at h
      obtain ⟨_, hcs⟩ := h
      have hc : isSpace c = false := (v.plain c (by simp [← ht])).1
      rw [hrest c (by rw [← hcs]; rfl)] at hc
      exact absurd hc.symm Bool.false_ne_true

/-- Behind a line with the name alone, the equals sign is looked for in what follows. -/
theorem split_append_of_alone {l rest : List Char}
    (hrest : ∀ c, rest.head? = some c → isSpace c = true) (h : v.alone l = true) :
    v.split (l ++ rest) = (eqSplit rest).map fun parts => (l ++ parts.1, parts.2) := by
  rw [alone, Bool.and_eq_true, List.isPrefixOf_iff_prefix] at h
  obtain ⟨hname, hblank⟩ := h
  have hwhole := List.prefix_iff_eq_append.mp hname
  rw [split, if_pos (List.isPrefixOf_iff_prefix.mpr ((v.prefix_append_iff hrest).mpr hname)),
    List.drop_append_of_le_length hname.length_le, eqSplit_append_of_isBlank hblank,
    Option.map_map]
  congr 1
  funext parts
  simp only [Function.comp_apply, ← List.append_assoc, hwhole]

/-- In any other line, an assignment is there or not, whatever follows. -/
theorem split_append_of_not_alone {l rest : List Char}
    (hrest : ∀ c, rest.head? = some c → isSpace c = true) (h : v.alone l = false) :
    v.split (l ++ rest) = (v.split l).map fun parts => (parts.1, parts.2 ++ rest) := by
  rw [split, split]
  by_cases hname : v.name <+: l
  · have hblank : isBlank (l.drop v.name.length) = false := by
      rwa [alone, List.isPrefixOf_iff_prefix.mpr hname, Bool.true_and] at h
    rw [if_pos (List.isPrefixOf_iff_prefix.mpr ((v.prefix_append_iff hrest).mpr hname)),
      if_pos (List.isPrefixOf_iff_prefix.mpr hname),
      List.drop_append_of_le_length hname.length_le, eqSplit_append_of_not_isBlank hblank,
      Option.map_map, Option.map_map]
    rfl
  · rw [if_neg fun hp => hname ((v.prefix_append_iff hrest).mp (List.isPrefixOf_iff_prefix.mp hp)),
      if_neg fun hp => hname (List.isPrefixOf_iff_prefix.mp hp)]
    rfl

/-- An assignment is not the name alone. -/
theorem alone_of_split_eq_some {l front rest : List Char} (h : v.split l = some (front, rest)) :
    v.alone l = false := by
  obtain ⟨blanks, -, rfl, rfl⟩ := (v.split_eq_some_iff).mp h
  rw [alone, List.append_assoc, List.append_assoc, List.drop_left]
  simp [isBlank, show isSpace '=' = false by decide]

/-- The first letter of the name is no blank and no equals sign. -/
theorem exists_name_eq_cons : ∃ c name, v.name = c :: name ∧ isSpace c = false ∧ c ≠ '=' := by
  obtain ⟨c, name, hname⟩ := List.exists_cons_of_ne_nil v.ne_nil
  exact ⟨c, name, hname, v.plain c (hname ▸ List.mem_cons_self ..)⟩

/-- A line that starts with the name does not start with an equals sign. -/
theorem eqSplit_of_begins {l : List Char} (h : v.name <+: l) : eqSplit l = none := by
  obtain ⟨c, name, hname, hspace, hc⟩ := v.exists_name_eq_cons
  obtain ⟨rest, rfl⟩ := h
  rw [eqSplit, hname, List.cons_append, List.dropWhile_cons_of_neg (by simp [hspace])]
  exact if_neg hc

theorem not_isBlank_of_begins {l : List Char} (h : v.name <+: l) : isBlank l = false := by
  obtain ⟨c, name, hname, hspace, -⟩ := v.exists_name_eq_cons
  obtain ⟨rest, rfl⟩ := h
  simp [isBlank, hname, hspace]

theorem split_of_not_begins {l : List Char} (h : ¬ v.name <+: l) : v.split l = none := by
  rw [split, if_neg fun hp => h (List.isPrefixOf_iff_prefix.mp hp)]

theorem alone_of_not_begins {l : List Char} (h : ¬ v.name <+: l) : v.alone l = false := by
  rw [alone, Bool.eq_false_iff.mpr fun hp => h (List.isPrefixOf_iff_prefix.mp hp),
    Bool.false_and]

/-- No assignment begins at the end of a line. -/
theorem split_newline (cs : List Char) : v.split ('\n' :: cs) = none := by
  obtain ⟨c, name, hname, hc, -⟩ := v.exists_name_eq_cons
  rw [split, if_neg]
  rw [List.isPrefixOf_iff_prefix, hname, List.cons_prefix_cons]
  rintro ⟨rfl, -⟩
  exact absurd hc (by decide)

theorem matchAt_newline (cs : List Char) : v.pattern.matchAt ('\n' :: cs) = none := by
  rw [matchAt_pattern, split_newline]
  rfl

end MkVariable

/-! ### Behind the equals sign -/

section Pass

variable (v : MkVariable) (value : List Char)

/-- The replacement of the matches in a text, from the start of a line on. -/
def subText (cs : List Char) : List Char := v.pattern.sub (fun group => group ++ value) 0 true cs

/-- The same from the end of a line on. -/
def resumeText (cs : List Char) : List Char :=
  v.pattern.resume (fun group => group ++ value) cs

/-- The same from an equals sign on: the blanks that are kept, the value, and what is behind
the match. -/
def fillText (rest : List Char) : List Char :=
  v.lead rest ++ value ++ resumeText v value (v.behind rest)

/-- **At an assignment**, the value is put behind the equals sign. -/
theorem subText_of_split_eq_some {cs front rest : List Char} (h : v.split cs = some (front, rest)) :
    subText v value cs = front ++ fillText v value rest := by
  have hmatch : v.pattern.matchAt cs = some (front ++ v.lead rest, v.behind rest) := by
    rw [v.matchAt_pattern, h]
    rfl
  obtain ⟨blanks, -, hfront, hcs⟩ := (v.split_eq_some_iff).mp h
  obtain ⟨c, name, hname⟩ := List.exists_cons_of_ne_nil v.ne_nil
  have hsplit : cs = c :: (name ++ blanks ++ ['='] ++ v.lead rest ++
      (rest.drop (v.lead rest).length).takeWhile (· ≠ '\n')) ++ v.behind rest := by
    have hbehind := List.takeWhile_append_dropWhile (p := fun c => decide (c ≠ '\n'))
      (l := rest.drop (v.lead rest).length)
    simp only [List.cons_append, List.append_assoc, MkVariable.behind, hbehind,
      v.lead_append_drop]
    rw [hcs, hfront, hname]
    simp
  rw [hsplit] at hmatch
  have hend : AtEnd (v.behind rest) := atEnd_dropWhile _
  rw [subText, hsplit, LinePattern.sub_of_matchAt_eq_some hend v.matchAt_newline hmatch, fillText,
    resumeText, List.append_assoc, List.append_assoc, List.append_assoc]

/-- **Where no assignment begins**, the line stays as it is. -/
theorem subText_of_split_eq_none {l rest : List Char} (hl : '\n' ∉ l)
    (hrest : AtEnd rest) (h : v.split (l ++ rest) = none) :
    subText v value (l ++ rest) = l ++ resumeText v value rest := by
  refine LinePattern.sub_of_matchAt_eq_none hl hrest v.matchAt_newline ?_
  rw [v.matchAt_pattern, h]
  rfl

/-! ### Lines -/

/-- What follows a line: nothing, or the end of the line and more lines. -/
def lineTail (ls : List (List Char)) : List Char :=
  if ls = [] then [] else '\n' :: List.intercalate ['\n'] ls

theorem intercalate_cons (l : List Char) (ls : List (List Char)) :
    List.intercalate ['\n'] (l :: ls) = l ++ lineTail ls := by
  rcases ls with _ | ⟨l', ls⟩
  · simp [lineTail]
  · simp [lineTail, List.intercalate]

/-- The end of a line is a blank. -/
theorem isSpace_of_atEnd {rest : List Char} (h : AtEnd rest) :
    ∀ c, rest.head? = some c → isSpace c = true := by
  intro c hc
  rw [h c hc]
  decide

theorem atEnd_lineTail (ls : List (List Char)) : AtEnd (lineTail ls) := by
  rw [lineTail]
  split_ifs
  · exact atEnd_nil
  · exact atEnd_newline _

/-- After a line, replacing goes on at the start of the next. -/
theorem resumeText_lineTail {ls ls' : List (List Char)} (hnil : ls' = [] ↔ ls = [])
    (h : ls ≠ [] → List.intercalate ['\n'] ls' = subText v value (List.intercalate ['\n'] ls)) :
    resumeText v value (lineTail ls) = lineTail ls' := by
  by_cases hls : ls = []
  · rw [lineTail, if_pos hls, lineTail, if_pos (hnil.mpr hls)]
    rfl
  · rw [lineTail, if_neg hls, lineTail, if_neg (hnil.not.mpr hls), h hls]
    rfl

variable {v value}

/-- If the blanks go on behind the equals sign, the value comes later. -/
theorem fillText_of_isBlank (hkeeps : v.keepsBlanks = true) {l : List Char}
    (hl : isBlank l = true) (cs : List Char) :
    fillText v value (l ++ '\n' :: cs) = l ++ '\n' :: fillText v value cs := by
  have hall : ∀ c ∈ l ++ ['\n'], isSpace c = true := by
    intro c hc
    rcases List.mem_append.mp hc with hc | hc
    · exact List.all_eq_true.mp hl c hc
    · rw [List.mem_singleton.mp hc]
      decide
  have hcs : l ++ '\n' :: cs = (l ++ ['\n']) ++ cs := by simp
  have hlead : v.lead (l ++ '\n' :: cs) = l ++ '\n' :: v.lead cs := by
    rw [MkVariable.lead, if_pos hkeeps, MkVariable.lead, if_pos hkeeps, hcs,
      List.takeWhile_append_of_pos hall]
    simp
  have hbehind : v.behind (l ++ '\n' :: cs) = v.behind cs := by
    have hlength : (l ++ '\n' :: v.lead cs).length = (l ++ ['\n']).length + (v.lead cs).length := by
      simp only [List.length_append, List.length_cons, List.length_nil]
      omega
    rw [MkVariable.behind, MkVariable.behind, hlead, hlength, hcs, List.drop_length_add_append]
  rw [fillText, fillText, hlead, hbehind]
  simp

/-- **Otherwise the value comes in this line**, and replaces the rest of it. -/
theorem fillText_of_not_isBlank {l rest : List Char} (hl : '\n' ∉ l) (hrest : AtEnd rest)
    (h : v.keepsBlanks = true → isBlank l = true → rest = []) :
    fillText v value (l ++ rest) = v.lead l ++ value ++ resumeText v value rest := by
  -- the blanks end within the line, or are not kept
  have hlead : v.lead (l ++ rest) = v.lead l := by
    rw [MkVariable.lead, MkVariable.lead]
    split_ifs with hkeeps
    · rcases hblank : isBlank l with _ | _
      · exact takeWhile_append_of_not_isBlank hblank rest
      · rw [h hkeeps hblank, List.append_nil]
    · rfl
  -- what is replaced ends with the line
  have hbehind : v.behind (l ++ rest) = rest := by
    have hle : (v.lead l).length ≤ l.length := by
      have hsum := congrArg List.length (v.lead_append_drop l)
      rw [List.length_append] at hsum
      omega
    have hnone : ∀ c ∈ l.drop (v.lead l).length, decide (c ≠ '\n') = true := by
      intro c hc
      refine decide_eq_true ?_
      rintro rfl
      exact hl (List.mem_of_mem_drop hc)
    rw [MkVariable.behind, hlead, List.drop_append_of_le_length hle,
      List.dropWhile_append_of_pos hnone]
    rcases rest with _ | ⟨c, rest⟩
    · rfl
    · rw [hrest c rfl]
      rfl
  rw [fillText, hlead, hbehind]

/-! ### The two agree -/

theorem runLines_cons (setting : Setting) (mode : LineMode) (l : List Char)
    (ls : List (List Char)) :
    runLines setting mode (l :: ls) =
      (lineStep setting.1 setting.2 mode l ls.isEmpty).1 ::
        runLines setting (lineStep setting.1 setting.2 mode l ls.isEmpty).2 ls := rfl

theorem runLines_eq_nil_iff {setting : Setting} {mode : LineMode}
    {ls : List (List Char)} : runLines setting mode ls = [] ↔ ls = [] := by
  cases ls with
  | nil => simp [runLines, markLast]
  | cons l ls => simp [runLines_cons]

/-- What the pass makes of the lines that follow an equals sign, or a name, or neither. -/
structure FollowsText (v : MkVariable) (value : List Char) (ls : List (List Char)) : Prop where
  /-- Nothing has begun. -/
  idle : List.intercalate ['\n'] (runLines (v, value) .idle ls) =
    subText v value (List.intercalate ['\n'] ls)
  /-- The name was read. -/
  named : List.intercalate ['\n'] (runLines (v, value) .named ls) =
    match eqSplit (List.intercalate ['\n'] ls) with
    | some (front, rest) => front ++ fillText v value rest
    | none => subText v value (List.intercalate ['\n'] ls)
  /-- The equals sign was read, and the blanks behind it go on. -/
  filling : v.keepsBlanks = true → List.intercalate ['\n'] (runLines (v, value) .filling ls) =
    fillText v value (List.intercalate ['\n'] ls)

variable {ls : List (List Char)} (h : ls ≠ [] → FollowsText v value ls)

include h

theorem lineTail_idle :
    lineTail (runLines (v, value) .idle ls) = resumeText v value (lineTail ls) :=
  (resumeText_lineTail v value runLines_eq_nil_iff fun hls => (h hls).idle).symm

theorem lineTail_named :
    lineTail (runLines (v, value) .named ls) =
      match eqSplit (lineTail ls) with
      | some (front, rest) => front ++ fillText v value rest
      | none => resumeText v value (lineTail ls) := by
  by_cases hls : ls = []
  · subst hls
    rfl
  · have hblank : isBlank ['\n'] = true := by decide
    have hsplit := eqSplit_append_of_isBlank hblank (List.intercalate ['\n'] ls)
    rw [List.singleton_append] at hsplit
    rw [lineTail, if_neg (runLines_eq_nil_iff.not.mpr hls), (h hls).named, lineTail, if_neg hls,
      hsplit]
    rcases eqSplit (List.intercalate ['\n'] ls) with _ | ⟨front, rest⟩ <;> rfl

/-- **Behind an equals sign**, the pass does what the replacement does. -/
theorem fillIn_spec {rest : List Char} (hrest : '\n' ∉ rest) (front : List Char) :
    (fillIn v value front rest ls.isEmpty).1 ++
        lineTail (runLines (v, value) (fillIn v value front rest ls.isEmpty).2 ls) =
      front ++ fillText v value (rest ++ lineTail ls) := by
  rw [fillIn]
  split_ifs with hgoes
  · simp only [Bool.and_eq_true, Bool.not_eq_true', List.isEmpty_eq_false_iff] at hgoes
    obtain ⟨⟨hkeeps, hblank⟩, hls⟩ := hgoes
    rw [lineTail, if_neg (runLines_eq_nil_iff.not.mpr hls), (h hls).filling hkeeps, lineTail,
      if_neg hls, fillText_of_isBlank hkeeps hblank]
    simp
  · have hlast : v.keepsBlanks = true → isBlank rest = true → lineTail ls = [] := by
      intro hkeeps hblank
      rw [hkeeps, hblank] at hgoes
      rw [lineTail, if_pos]
      simpa using hgoes
    rw [lineTail_idle h, fillText_of_not_isBlank hrest (atEnd_lineTail ls) hlast]
    simp

/-- **A line, when nothing has begun.** -/
theorem idle_spec {l : List Char} (hl : '\n' ∉ l) :
    List.intercalate ['\n'] (runLines (v, value) .idle (l :: ls)) =
      subText v value (l ++ lineTail ls) := by
  have hend := atEnd_lineTail ls
  rw [runLines_cons, intercalate_cons, lineStep, if_neg (by decide)]
  rcases hsplit : v.split l with _ | ⟨front, rest⟩
  · simp only [reduceCtorEq, if_false, decide_false, Bool.false_and, Bool.or_false]
    -- without the equals sign, only a name alone lets the match run on
    rcases halone : v.alone l with _ | _
    · have hnone : v.split (l ++ lineTail ls) = none := by
        rw [v.split_append_of_not_alone (isSpace_of_atEnd hend) halone, hsplit]
        rfl
      rw [if_neg Bool.false_ne_true, lineTail_idle h,
        subText_of_split_eq_none v value hl hend hnone]
    · have hlater := v.split_append_of_alone (isSpace_of_atEnd hend) halone
      rw [if_pos rfl, lineTail_named h]
      rcases hfound : eqSplit (lineTail ls) with _ | ⟨front, rest⟩
      · rw [hfound] at hlater
        rw [subText_of_split_eq_none v value hl hend hlater]
      · rw [hfound] at hlater
        rw [subText_of_split_eq_some v value hlater, List.append_assoc]
  · -- the equals sign is in the line
    have hrest : '\n' ∉ rest := by
      obtain ⟨_, -, -, rfl⟩ := (v.split_eq_some_iff).mp hsplit
      exact fun hmem => hl (List.mem_append_right _ hmem)
    have hwhole : v.split (l ++ lineTail ls) = some (front, rest ++ lineTail ls) := by
      rw [v.split_append_of_not_alone (isSpace_of_atEnd hend) (v.alone_of_split_eq_some hsplit),
        hsplit]
      rfl
    rw [subText_of_split_eq_some v value hwhole]
    exact fillIn_spec h hrest front

/-- **A line, when the name was read.** -/
theorem named_spec {l : List Char} (hl : '\n' ∉ l) :
    List.intercalate ['\n'] (runLines (v, value) .named (l :: ls)) =
      match eqSplit (l ++ lineTail ls) with
      | some (front, rest) => front ++ fillText v value rest
      | none => subText v value (l ++ lineTail ls) := by
  have hend := atEnd_lineTail ls
  -- A line that is not blank, and does not start with an equals sign, ends the search.
  have hover : eqSplit l = none → isBlank l = false →
      List.intercalate ['\n'] (runLines (v, value) .named (l :: ls)) =
        match eqSplit (l ++ lineTail ls) with
        | some (front, rest) => front ++ fillText v value rest
        | none => subText v value (l ++ lineTail ls) := by
    intro hnone hblank
    rw [eqSplit_append_of_not_isBlank hblank, hnone]
    have hsame : lineStep v value .named l ls.isEmpty = lineStep v value .idle l ls.isEmpty := by
      simp [lineStep, hnone, hblank]
    have hidle := idle_spec h hl
    rw [runLines_cons] at hidle ⊢
    rw [hsame]
    exact hidle
  by_cases hname : v.name <+: l
  · exact hover (v.eqSplit_of_begins hname) (v.not_isBlank_of_begins hname)
  · have hsplit : v.split l = none := v.split_of_not_begins hname
    have halone : v.alone l = false := v.alone_of_not_begins hname
    rcases hblank : isBlank l with _ | _
    · rcases hfound : eqSplit l with _ | ⟨front, rest⟩
      · exact hover hfound hblank
      · have hrest : '\n' ∉ rest := by
          obtain ⟨_, -, -, rfl⟩ := eqSplit_eq_some_iff.mp hfound
          exact fun hmem => hl (List.mem_append_right _ hmem)
        rw [eqSplit_append_of_not_isBlank hblank, hfound, runLines_cons, intercalate_cons,
          lineStep, if_neg (by decide), hsplit]
        simp only [if_true, hfound]
        exact fillIn_spec h hrest front
    · have hnone : eqSplit l = none := eqSplit_of_isBlank hblank
      rw [runLines_cons, intercalate_cons, lineStep, if_neg (by decide), hsplit]
      simp only [if_true, hnone, halone, hblank, decide_true, Bool.and_self, Bool.or_true]
      rw [lineTail_named h, eqSplit_append_of_isBlank hblank]
      rcases hfound : eqSplit (lineTail ls) with _ | ⟨front, rest⟩
      · have hwhole : v.split (l ++ lineTail ls) = none := by
          rw [v.split_append_of_not_alone (isSpace_of_atEnd hend) halone, hsplit]
          rfl
        exact (subText_of_split_eq_none v value hl hend hwhole).symm
      · simp

omit h

/-- **The pass over the lines of a text does what the replacement does.** -/
theorem followsText (v : MkVariable) (value : List Char) {ls : List (List Char)} (hne : ls ≠ [])
    (hls : ∀ l ∈ ls, '\n' ∉ l) : FollowsText v value ls := by
  induction ls with
  | nil => exact absurd rfl hne
  | cons l ls ih =>
    obtain ⟨hl, hrest⟩ := List.forall_mem_cons.mp hls
    have h : ls ≠ [] → FollowsText v value ls := fun hls => ih hls hrest
    refine ⟨?_, ?_, fun _ => ?_⟩
    · rw [intercalate_cons]
      exact idle_spec h hl
    · rw [intercalate_cons]
      exact named_spec h hl
    · rw [intercalate_cons, runLines_cons, intercalate_cons, lineStep, if_pos rfl]
      exact fillIn_spec h hl []

end Pass

/-- The lines of a text. -/
def linesOf (cs : List Char) : List (List Char) := cs.splitOn '\n'

theorem linesOf_ne_nil (cs : List Char) : linesOf cs ≠ [] := List.splitOn_ne_nil _ _

theorem not_mem_of_mem_linesOf {cs l : List Char} (h : l ∈ linesOf cs) : '\n' ∉ l :=
  not_mem_of_mem_splitOn h

/-- **Replacing what the pattern of a variable matches** is a pass over the lines. -/
theorem sub_eq_runLines (v : MkVariable) (value cs : List Char) :
    v.pattern.sub (fun group => group ++ value) 0 true cs =
      List.intercalate ['\n'] (runLines (v, value) .idle (linesOf cs)) := by
  have hls : ∀ l ∈ linesOf cs, '\n' ∉ l := fun l hl => not_mem_of_mem_linesOf hl
  rw [(followsText v value (linesOf_ne_nil cs) hls).idle, linesOf, List.intercalate_splitOn]
  rfl

end Apatchy
