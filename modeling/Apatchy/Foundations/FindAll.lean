import Apatchy.Foundations.Patterns

/-!
# All matches in a text

`re.finditer` goes through a text from left to right and goes on behind each match. For a
pattern that matches only at the start of a line it reports the matches in the lines
(`Apatchy.findLines`), as long as none of them runs over the end of its line: a line without a
match is passed over (`Apatchy.findLines_of_eq_none`), and behind a match so is the rest of its
line (`Apatchy.findLines_of_eq_some`).

A greedy run may be followed by a character of its own kind. It is given back up to the last
one (`Apatchy.star_backOff`).

Texts that are joined with a separator are got back by splitting, if the last character of the
separator is in none of them (`Apatchy.splitAll_intercalate`).
-/

namespace Apatchy

/-! ### Matches in lines -/

/-- **`re.finditer` of `^…`**, for a pattern that takes at least one character: the groups of
each match. `skip` characters belong to a match that is already found, and `atStart` says
whether a line starts here. -/
def findLines (parts : List PatternPart) : ℕ → Bool → List Char → List (List (List Char))
  | _, _, [] => []
  | skip + 1, _, c :: cs => findLines parts skip (c = '\n') cs
  | 0, atStart, c :: cs =>
    match if atStart then matchParts (parts ++ [.mark]) (c :: cs) else none with
    | some marks =>
      captures marks ::
        findLines parts (cs.length - (marks.getLastD []).length) (c = '\n') cs
    | none => findLines parts 0 (c = '\n') cs

section FindLines

variable {parts : List PatternPart} {l rest : List Char}

/-- Within a line nothing is found. -/
theorem findLines_withinLine (hl : '\n' ∉ l) {skip : ℕ} (hskip : skip ≤ l.length) :
    findLines parts skip false (l ++ rest) = findLines parts 0 false rest := by
  induction l generalizing skip with
  | nil =>
    obtain rfl : skip = 0 := Nat.le_zero.mp hskip
    rfl
  | cons c l ih =>
    rw [List.mem_cons, not_or] at hl
    have hc : decide (c = '\n') = false := decide_eq_false (Ne.symm hl.1)
    rcases skip with _ | skip
    · rw [List.cons_append, findLines, if_neg Bool.false_ne_true, hc]
      exact ih hl.2 (Nat.zero_le _)
    · rw [List.cons_append, findLines, hc]
      exact ih hl.2 (Nat.le_of_succ_le_succ hskip)

/-- A new line starts behind a line feed. -/
theorem findLines_newline (cs : List Char) :
    findLines parts 0 false ('\n' :: cs) = findLines parts 0 true cs := by
  rw [findLines, if_neg Bool.false_ne_true]
  rfl

/-- **A line that does not match is passed over.** -/
theorem findLines_of_eq_none (hl : '\n' ∉ l)
    (h : matchParts (parts ++ [.mark]) (l ++ rest) = none) (hrest : AtEnd rest)
    (hblank : matchParts (parts ++ [.mark]) rest = none) :
    findLines parts 0 true (l ++ rest) = findLines parts 0 false rest := by
  rcases l with _ | ⟨c, l⟩
  · rcases rest with _ | ⟨c, rest⟩
    · rfl
    · obtain rfl : c = '\n' := hrest c rfl
      rw [List.nil_append, findLines, if_pos rfl, hblank, findLines_newline]
      rfl
  · rw [List.mem_cons, not_or] at hl
    rw [List.cons_append] at h ⊢
    rw [findLines, if_pos rfl, h]
    show findLines parts 0 (decide (c = '\n')) (l ++ rest) = _
    rw [decide_eq_false (Ne.symm hl.1)]
    exact findLines_withinLine hl.2 (Nat.zero_le _)

/-- **A match in a line is reported**, and then the rest of the line is passed over. -/
theorem findLines_of_eq_some {c : Char} {back : List Char} {marks : List (List Char)}
    (hl : '\n' ∉ c :: l)
    (h : matchParts (parts ++ [.mark]) (c :: l ++ rest) = some (marks ++ [back ++ rest])) :
    findLines parts 0 true (c :: l ++ rest) =
      captures (marks ++ [back ++ rest]) :: findLines parts 0 false rest := by
  rw [List.mem_cons, not_or] at hl
  rw [List.cons_append] at h ⊢
  rw [findLines, if_pos rfl, h]
  show _ :: findLines parts _ (decide (c = '\n')) (l ++ rest) = _
  rw [decide_eq_false (Ne.symm hl.1), findLines_withinLine hl.2]
  rw [List.getLastD_concat, List.length_append, List.length_append]
  omega

/-! ### What a match takes -/

/-- The groups of a match are found somewhere. -/
theorem exists_of_mem_findLines {parts : List PatternPart} {skip : ℕ} {atStart : Bool}
    {cs : List Char} {groups : List (List Char)} (h : groups ∈ findLines parts skip atStart cs) :
    ∃ cs' marks, matchParts (parts ++ [.mark]) cs' = some marks ∧ groups = captures marks := by
  induction skip, atStart, cs using findLines.induct parts with
  | case1 => exact absurd h (by simp [findLines])
  | case2 atStart skip c cs ih => exact ih (by rwa [findLines] at h)
  | case3 atStart c cs marks hmarks ih =>
    rw [findLines, hmarks] at h
    rcases List.mem_cons.mp h with rfl | h
    · split_ifs at hmarks with hstart
      exact ⟨_, marks, hmarks, rfl⟩
    · exact ih h
  | case4 atStart c cs hmarks ih =>
    rw [findLines, hmarks] at h
    exact ih h

/-- A shortest run takes characters of its kind. -/
theorem of_lazyStar_eq_some {α : Type*} {p : Char → Bool} {k : List Char → Option α}
    {cs : List Char} {a : α} (h : lazyStar p k cs = some a) :
    ∃ run rest, cs = run ++ rest ∧ (∀ c ∈ run, p c = true) ∧ k rest = some a := by
  induction cs with
  | nil => exact ⟨[], [], rfl, by simp, h⟩
  | cons c cs ih =>
    rw [lazyStar, Option.or_eq_some_iff] at h
    rcases h with h | ⟨-, h⟩
    · exact ⟨[], c :: cs, rfl, by simp, h⟩
    · split_ifs at h with hp
      obtain ⟨run, rest, rfl, hrun, hrest⟩ := ih h
      exact ⟨c :: run, rest, rfl, List.forall_mem_cons.mpr ⟨hp, hrun⟩, hrest⟩

/-- **Parts without groups take a part of the text**, and the later parts match behind it. -/
theorem exists_suffix_of_matchParts {parts later : List PatternPart}
    (hparts : PatternPart.mark ∉ parts) {cs : List Char} {marks : List (List Char)}
    (h : matchParts (parts ++ later) cs = some marks) :
    ∃ rest, rest <:+ cs ∧ matchParts later rest = some marks := by
  induction parts generalizing cs with
  | nil => exact ⟨cs, List.suffix_refl cs, h⟩
  | cons part parts ih =>
    rw [List.mem_cons, not_or] at hparts
    rw [List.cons_append] at h
    cases part with
    | one p =>
      rcases cs with _ | ⟨c, cs⟩
      · exact absurd h (by simp [matchParts])
      · rw [matchParts] at h
        split_ifs at h with hp
        obtain ⟨rest, hrest, hlater⟩ := ih hparts.2 h
        exact ⟨rest, hrest.trans (List.suffix_cons c cs), hlater⟩
    | many p =>
      -- the star gives back what the later parts need
      obtain ⟨run, back, rfl, -, hback⟩ := of_star_eq_some h
      obtain ⟨rest, hrest, hlater⟩ := ih hparts.2 hback
      exact ⟨rest, hrest.trans (List.suffix_append run back), hlater⟩
    | few p =>
      obtain ⟨run, back, rfl, -, hback⟩ := of_lazyStar_eq_some h
      obtain ⟨rest, hrest, hlater⟩ := ih hparts.2 hback
      exact ⟨rest, hrest.trans (List.suffix_append run back), hlater⟩
    | mark => exact absurd rfl hparts.1

/-- **A group that is a run** holds what the run took. -/
theorem of_matchParts_group_some1 {p : Char → Bool} {later : List PatternPart} {cs : List Char}
    {marks : List (List Char)} (h : matchParts (group (some1 p) ++ later) cs = some marks) :
    ∃ run rest marks', cs = run ++ rest ∧ run ≠ [] ∧ (∀ c ∈ run, p c = true) ∧
      matchParts later rest = some marks' ∧ marks = cs :: rest :: marks' := by
  have hparts : group (some1 p) ++ later = .mark :: .one p :: .many p :: .mark :: later := rfl
  rw [hparts, matchParts, Option.map_eq_some_iff] at h
  obtain ⟨marks, h, rfl⟩ := h
  rcases cs with _ | ⟨c, cs⟩
  · exact absurd h (by simp [matchParts])
  · rw [matchParts] at h
    split_ifs at h with hp
    obtain ⟨run, rest, rfl, hrun, hrest⟩ := of_star_eq_some h
    rw [matchParts, Option.map_eq_some_iff] at hrest
    obtain ⟨marks', hlater, rfl⟩ := hrest
    exact ⟨c :: run, rest, marks', rfl, List.cons_ne_nil c run,
      List.forall_mem_cons.mpr ⟨hp, hrun⟩, hlater, rfl⟩

/-- What a literal begins with, the text begins with. -/
theorem prefix_of_matchParts_lit {s : String} {later : List PatternPart} {cs : List Char}
    {marks : List (List Char)} (h : matchParts (lit s ++ later) cs = some marks) :
    s.toList <+: cs := by
  rw [lit] at h
  generalize s.toList = t at h ⊢
  induction t generalizing cs with
  | nil => exact List.nil_prefix
  | cons c t ih =>
    rw [List.map_cons, List.cons_append] at h
    rcases cs with _ | ⟨d, cs⟩
    · rw [matchParts] at h
      exact absurd h (by simp)
    · rw [matchParts] at h
      split_ifs at h with hd
      obtain rfl : d = c := by simpa using hd
      exact (List.prefix_cons_inj d).mpr (ih h)

/-- A text without line feeds that the beginning of a line and what follows it begin with is
in the line. -/
theorem prefix_of_atEnd {t : List Char} (ht : '\n' ∉ t) (hrest : AtEnd rest)
    (h : t <+: l ++ rest) : t <+: l := by
  rcases List.prefix_or_prefix_of_prefix h (List.prefix_append l rest) with hprefix | ⟨back, rfl⟩
  · exact hprefix
  · rcases back with _ | ⟨c, back⟩
    · rw [List.append_nil]
    · have hback : c :: back <+: rest := (List.prefix_append_right_inj l).mp h
      obtain ⟨tail, rfl⟩ := hback
      have hc : c = '\n' := hrest c rfl
      exact absurd (List.mem_append_right l (by simp [hc])) ht

end FindLines

theorem stops_atEnd {p : Char → Bool} (hp : p '\n' = false) {rest : List Char}
    (h : AtEnd rest) : Stops p rest := by
  intro c hc
  rw [h c hc, hp]

theorem takeWhile_of_stops {p : Char → Bool} {rest : List Char} (h : Stops p rest) :
    rest.takeWhile p = [] := by
  rcases rest with _ | ⟨c, rest⟩
  · rfl
  · rw [List.takeWhile_cons_of_neg (by simp [h c rfl])]

/-! ### Giving back -/

section BackOff

variable {α : Type*} {p : Char → Bool} {k : List Char → Option α} {c : Char}

/-- A run without a character that what follows begins with cannot be given back to it. -/
theorem star_eq_none {cs : List Char} (hk : ∀ cs : List Char, cs.head? ≠ some c → k cs = none)
    (hc : p c = true) (hcs : c ∉ cs.takeWhile p) : star p k cs = none := by
  induction cs with
  | nil => exact hk [] (by simp)
  | cons d cs ih =>
    rw [star]
    rcases hp : p d with _ | _
    · rw [if_neg Bool.false_ne_true]
      refine hk _ fun hd => ?_
      obtain rfl : d = c := by simpa using hd
      rw [hc] at hp
      exact absurd hp (by simp)
    · rw [List.takeWhile_cons_of_pos hp, List.mem_cons, not_or] at hcs
      rw [if_pos rfl, ih hcs.2]
      exact hk _ fun hd => hcs.1 (by simpa using hd.symm)

/-- **A run is given back up to the last of the characters** that what follows begins with. -/
theorem star_backOff {a cs : List Char} {x : α} (ha : ∀ d ∈ a, p d = true) (hc : p c = true)
    (hcs : c ∉ cs.takeWhile p) (hk : ∀ cs : List Char, cs.head? ≠ some c → k cs = none)
    (h : k (c :: cs) = some x) : star p k (a ++ c :: cs) = some x := by
  induction a with
  | nil => rw [List.nil_append, star, if_pos hc, star_eq_none hk hc hcs, h]
  | cons d a ih =>
    rw [List.cons_append, star, if_pos (ha d List.mem_cons_self),
      ih fun e he => ha e (List.mem_cons_of_mem _ he)]

end BackOff

/-! ### Splitting at a separator -/

section Split

variable {α : Type*} [DecidableEq α]

/-- `str.split(sep)`. `skip` characters belong to a separator that is already found. -/
def splitAll (sep : List α) : ℕ → List α → List (List α)
  | _, [] => [[]]
  | skip + 1, _ :: cs => splitAll sep skip cs
  | 0, c :: cs =>
    if sep <+: c :: cs then [] :: splitAll sep (sep.length - 1) cs
    else (splitAll sep 0 cs).modifyHead (c :: ·)

/-- The rest of a separator is passed over. -/
theorem splitAll_skip (sep a cs : List α) :
    splitAll sep a.length (a ++ cs) = splitAll sep 0 cs := by
  induction a with
  | nil => rfl
  | cons c a ih => exact ih

variable {pre : List α} {q : α}

/-- A separator does not begin in a text that lacks its last character. -/
theorem not_prefix_of_not_mem (hpre : q ∉ pre) {a : List α} (ha : q ∉ a) (hne : a ≠ [])
    (cs : List α) (hcs : cs = [] ∨ pre ++ [q] <+: cs) : ¬ pre ++ [q] <+: a ++ cs := by
  rintro ⟨tail, htail⟩
  rcases hcs with rfl | ⟨more, rfl⟩
  · have hq : q ∈ a ++ [] := htail ▸ by simp
    exact ha (by simpa using hq)
  · -- the first place of the last character tells where the separator is
    have hidx := congrArg (List.idxOf q) htail
    rw [List.append_assoc, List.idxOf_append_of_notMem hpre, List.idxOf_append_of_notMem ha,
      List.append_assoc, List.idxOf_append_of_notMem hpre] at hidx
    have hlength := List.length_pos_iff.mpr hne
    simp only [List.singleton_append, List.idxOf_cons_self] at hidx
    omega

/-- A text that lacks the last character of the separator is not split. -/
theorem splitAll_append (hpre : q ∉ pre) {a : List α} (ha : q ∉ a) (cs : List α)
    (hcs : cs = [] ∨ pre ++ [q] <+: cs) :
    splitAll (pre ++ [q]) 0 (a ++ cs) =
      (splitAll (pre ++ [q]) 0 cs).modifyHead (a ++ ·) := by
  induction a with
  | nil =>
    rw [List.nil_append]
    rcases splitAll (pre ++ [q]) 0 cs with _ | ⟨part, parts⟩
    · rfl
    · rfl
  | cons c a ih =>
    have hnot := not_prefix_of_not_mem hpre ha (List.cons_ne_nil c a) cs hcs
    rw [List.mem_cons, not_or] at ha
    rw [List.cons_append] at hnot ⊢
    rw [splitAll, if_neg hnot, ih ha.2, List.modifyHead_modifyHead]
    rfl

/-- At a separator the next text begins. -/
theorem splitAll_separator (cs : List α) :
    splitAll (pre ++ [q]) 0 (pre ++ [q] ++ cs) = [] :: splitAll (pre ++ [q]) 0 cs := by
  obtain ⟨c, sep, hsep⟩ := List.exists_cons_of_ne_nil (List.concat_ne_nil q pre)
  have hprefix : c :: sep <+: c :: (sep ++ cs) := List.prefix_append (c :: sep) cs
  rw [hsep, List.cons_append, splitAll, if_pos hprefix, List.length_cons, Nat.add_sub_cancel,
    splitAll_skip]

/-- **What was joined is got back by splitting.** -/
theorem splitAll_intercalate (hpre : q ∉ pre) {words : List (List α)} (hne : words ≠ [])
    (hwords : ∀ w ∈ words, q ∉ w) :
    splitAll (pre ++ [q]) 0 (List.intercalate (pre ++ [q]) words) = words := by
  induction words with
  | nil => exact absurd rfl hne
  | cons w words ih =>
    have hw := hwords w List.mem_cons_self
    rcases words with _ | ⟨w', words⟩
    · have hsplit := splitAll_append hpre hw [] (Or.inl rfl)
      rw [List.append_nil] at hsplit
      rw [List.intercalate_singleton, hsplit]
      simp [splitAll]
    · have ih' := ih (List.cons_ne_nil _ _) fun v hv => hwords v (List.mem_cons_of_mem _ hv)
      rw [List.intercalate_cons_cons, List.append_assoc,
        splitAll_append hpre hw _ (Or.inr (List.prefix_append _ _)), splitAll_separator, ih']
      simp

end Split

end Apatchy
