import Apatchy.Build.OwnLines

/-!
# Six passes as one reading

The six passes go over the text one after another, and each remembers what it has read. As
long as what they put into the lines is right, only one of them has read anything at a time:
so the six passes write what one reading of the lines says (`Apatchy.forall₂_linesAfter_iff`).

A line is gone through pass by pass. Passes that have read nothing do to it what a line by
itself says (`Apatchy.row_idle`). If one pass has read a name, or waits, the others have read
nothing; what it puts into the line goes to the passes behind it (`Apatchy.lineAfter_rowOf`).
What those before it have read can be left out, if what is put is right: an assignment to `CC`
that the pass of `CPP` overwrites is never right.
-/

namespace Apatchy

/-! ### What a reading is for the passes -/

/-- **The lines of a text, read once.** -/
def linesRead (settings : List Setting) : Reading → List (List Char) → List (List Char)
  | _, [] => []
  | st, l :: ls =>
    (lineRead settings st l ls.isEmpty).1 ::
      linesRead settings (lineRead settings st l ls.isEmpty).2 ls

/-- What a pass has read. -/
def modeOf (st : Reading) (s : Setting) : LineMode :=
  match st with
  | .idle => .idle
  | .named s' => if s.1.name = s'.1.name then .named else .idle
  | .waiting s' => if s.1.name = s'.1.name then .filling else .idle

/-- The passes, and what they have read. -/
def rowOf (settings : List Setting) (st : Reading) : List PassState :=
  settings.map fun s => (s, modeOf st s)

/-- **A reading is about one of some variables**; it waits only behind blanks that are kept. -/
def Reading.About (settings : List Setting) : Reading → Prop
  | .idle => True
  | .named s => s ∈ settings
  | .waiting s => s ∈ settings ∧ s.1.keepsBlanks = true

/-- The variables differ. -/
def Distinct (settings : List Setting) : Prop :=
  settings.Pairwise fun s s' => s.1.name ≠ s'.1.name

variable {settings : List Setting} {s : Setting} {st : Reading} {l front rest : List Char}
  {isLast : Bool}

@[simp] theorem rowOf_nil (st : Reading) : rowOf [] st = [] := rfl

theorem rowOf_cons (s : Setting) (settings : List Setting) (st : Reading) :
    rowOf (s :: settings) st = (s, modeOf st s) :: rowOf settings st := rfl

theorem rowOf_append (settings settings' : List Setting) (st : Reading) :
    rowOf (settings ++ settings') st = rowOf settings st ++ rowOf settings' st := List.map_append

@[simp] theorem modeOf_idle (s : Setting) : modeOf .idle s = .idle := rfl

@[simp] theorem modeOf_named (s : Setting) : modeOf (.named s) s = .named := if_pos rfl

@[simp] theorem modeOf_waiting (s : Setting) : modeOf (.waiting s) s = .filling := if_pos rfl

/-- Passes that a reading is not about have read nothing. -/
theorem modeOf_of_about (hst : st.About settings)
    (hne : ∀ s' ∈ settings, s.1.name ≠ s'.1.name) : modeOf st s = .idle := by
  cases st with
  | idle => rfl
  | named s' => exact if_neg (hne s' hst)
  | waiting s' => exact if_neg (hne s' hst.1)

theorem rowOf_of_about {settings' : List Setting} (hst : st.About settings)
    (hne : ∀ s ∈ settings', ∀ s' ∈ settings, s.1.name ≠ s'.1.name) :
    rowOf settings' st = rowOf settings' .idle :=
  List.map_congr_left fun s hs => by rw [modeOf_of_about hst (hne s hs), modeOf_idle]

/-! ### Assignments -/

theorem assigned?_eq_none_iff :
    assigned? settings l = none ↔ ∀ s ∈ settings, s.1.split l = none := by
  simp [assigned?, List.findSome?_eq_none_iff]

theorem of_assigned?_eq_some (h : assigned? settings l = some (s, front, rest)) :
    s ∈ settings ∧ s.1.split l = some (front, rest) := by
  obtain ⟨s', hs', hsplit⟩ := List.exists_of_findSome?_eq_some h
  obtain ⟨parts, hparts, heq⟩ := Option.map_eq_some_iff.mp hsplit
  cases heq
  exact ⟨hs', hparts⟩

/-- A line that no variable has anything to do with. -/
theorem readIdle_of_forall (h : ∀ s ∈ settings, s.1.split l = none ∧ s.1.alone l = false)
    (isLast : Bool) : readIdle settings l isLast = (l, .idle) := by
  have hfind : settings.find? (fun s => s.1.alone l) = none :=
    List.find?_eq_none.mpr fun s hs => by simp [(h s hs).2]
  rw [readIdle, assigned?_eq_none_iff.mpr fun s hs => (h s hs).1]
  simp only [aloneIn, hfind]

/-- An assignment of another variable is such a line. -/
theorem readIdle_of_other {v : MkVariable} (h : v.split l = some (front, rest))
    (hne : ∀ s ∈ settings, s.1.name ≠ v.name) (isLast : Bool) :
    readIdle settings l isLast = (l, .idle) :=
  readIdle_of_forall (fun s hs => MkVariable.split_eq_none_of_ne h (hne s hs)) isLast

/-- So is a line that begins with no name. -/
theorem readIdle_of_not_begins (h : ∀ v : MkVariable, ¬ v.name <+: l) (settings : List Setting)
    (isLast : Bool) : readIdle settings l isLast = (l, .idle) :=
  readIdle_of_forall (fun s _ => ⟨s.1.split_of_not_begins (h s.1), s.1.alone_of_not_begins (h s.1)⟩)
    isLast

theorem not_begins_of_isBlank (h : isBlank l = true) (v : MkVariable) : ¬ v.name <+: l := by
  intro hname
  rw [MkVariable.not_isBlank_of_begins v hname] at h
  exact Bool.false_ne_true h

/-- **What is put behind an equals sign** is still the assignment. -/
theorem split_put {v : MkVariable} (h : v.split l = some (front, rest)) (s : Setting)
    (isLast : Bool) : ∃ rest', v.split (put s front rest isLast).1 = some (front, rest') := by
  rw [put]
  split_ifs
  · exact ⟨rest, MkVariable.split_front_append h rest⟩
  · refine ⟨s.1.lead rest ++ s.2, ?_⟩
    rw [List.append_assoc]
    exact MkVariable.split_front_append h _

theorem eqSplit_put (h : eqSplit l = some (front, rest)) (s : Setting) (isLast : Bool) :
    ∃ rest', eqSplit (put s front rest isLast).1 = some (front, rest') := by
  rw [put]
  split_ifs
  · exact ⟨rest, eqSplit_front_append h rest⟩
  · refine ⟨s.1.lead rest ++ s.2, ?_⟩
    rw [List.append_assoc]
    exact eqSplit_front_append h _

theorem put_of_not_waits (h : waits s rest isLast = false) (front : List Char) :
    put s front rest isLast = (front ++ s.1.lead rest ++ s.2, .idle) := by
  rw [put, h, if_neg Bool.false_ne_true]

/-- What has been read behind an equals sign. -/
theorem about_put (hs : s ∈ settings) (front rest : List Char) (isLast : Bool) :
    (put s front rest isLast).2.About settings := by
  rw [put]
  split_ifs with hwaits
  · rw [waits, Bool.and_eq_true, Bool.and_eq_true] at hwaits
    exact ⟨hs, hwaits.1.1⟩
  · trivial

theorem about_readIdle (settings : List Setting) (l : List Char) (isLast : Bool) :
    (readIdle settings l isLast).2.About settings := by
  rw [readIdle]
  rcases hassigned : assigned? settings l with _ | ⟨s, front, rest⟩
  · rcases hfind : settings.find? fun s => s.1.alone l with _ | s
    · simp only [aloneIn, hfind]
      trivial
    · simp only [aloneIn, hfind]
      exact List.mem_of_find?_eq_some hfind
  · exact about_put (of_assigned?_eq_some hassigned).1 front rest isLast

/-! ### Passes in a row -/

theorem lineAfter_append (row row' : List PassState) (l : List Char) (isLast : Bool) :
    lineAfter (row ++ row') l isLast = lineAfter row' (lineAfter row l isLast) isLast := by
  induction row generalizing l with
  | nil => rfl
  | cons m row ih => rw [List.cons_append, lineAfter_cons, ih, lineAfter_cons]

theorem rowAfter_append (row row' : List PassState) (l : List Char) (isLast : Bool) :
    rowAfter (row ++ row') l isLast =
      rowAfter row l isLast ++ rowAfter row' (lineAfter row l isLast) isLast := by
  induction row generalizing l with
  | nil => rfl
  | cons m row ih =>
    rw [List.cons_append, rowAfter_cons, ih, rowAfter_cons, lineAfter_cons, List.cons_append]

/-- Behind an equals sign, a pass does what is said. -/
theorem fillIn_eq_put (s : Setting) (front rest : List Char) (isLast : Bool) :
    fillIn s.1 s.2 front rest isLast =
      ((put s front rest isLast).1, modeOf (put s front rest isLast).2 s) := by
  rw [fillIn, put, waits]
  split_ifs
  · rw [modeOf_waiting]
  · rfl

theorem passLine_idle_of_split (h : s.1.split l = some (front, rest)) (isLast : Bool) :
    passLine (s, .idle) l isLast =
      ((put s front rest isLast).1, modeOf (put s front rest isLast).2 s) := by
  rw [passLine, lineStep, if_neg (show LineMode.idle ≠ .filling by decide), h]
  exact fillIn_eq_put s front rest isLast

theorem passLine_idle_of_split_eq_none (h : s.1.split l = none) (isLast : Bool) :
    passLine (s, .idle) l isLast = (l, if s.1.alone l then .named else .idle) := by
  rw [passLine, lineStep, if_neg (show LineMode.idle ≠ .filling by decide), h]
  simp

/-- **Passes that have read nothing** do to a line what is said of it by itself. -/
theorem row_idle (hdistinct : Distinct settings) (l : List Char) (isLast : Bool) :
    lineAfter (rowOf settings .idle) l isLast = (readIdle settings l isLast).1 ∧
      rowAfter (rowOf settings .idle) l isLast =
        rowOf settings (readIdle settings l isLast).2 := by
  induction settings generalizing l with
  | nil => exact ⟨rfl, rfl⟩
  | cons s settings ih =>
    obtain ⟨hne, hdistinct⟩ := List.pairwise_cons.mp hdistinct
    have hother : ∀ s' ∈ settings, s'.1.name ≠ s.1.name := fun s' hs' => (hne s' hs').symm
    rw [rowOf_cons, modeOf_idle, lineAfter_cons, rowAfter_cons]
    rcases hsplit : s.1.split l with _ | ⟨front, rest⟩
    · -- not an assignment of this variable: the other passes read the same line
      have hassigned : assigned? (s :: settings) l = assigned? settings l := by
        rw [assigned?, List.findSome?_cons, hsplit]
        rfl
      obtain ⟨hline, hrow⟩ := ih hdistinct l
      rw [passLine_idle_of_split_eq_none hsplit, hline, hrow]
      rcases halone : s.1.alone l with _ | _
      · have hread : readIdle (s :: settings) l isLast = readIdle settings l isLast := by
          rw [readIdle, readIdle, hassigned, aloneIn, aloneIn, List.find?_cons, halone]
        refine ⟨by rw [hread], ?_⟩
        rw [hread, rowOf_cons, modeOf_of_about (about_readIdle settings l isLast) hne]
        rfl
      · -- the name alone: to the other passes it is a line like any other
        have hword := MkVariable.firstWord_of_alone halone
        have hquiet : readIdle settings l isLast = (l, .idle) := by
          refine readIdle_of_forall (fun s' hs' => ⟨?_, ?_⟩) isLast
          · rcases hs'split : s'.1.split l with _ | ⟨front, rest⟩
            · rfl
            · exact absurd ((MkVariable.firstWord_of_split_eq_some hs'split).symm.trans hword)
                (hother s' hs')
          · rw [Bool.eq_false_iff]
            intro hs'alone
            exact hother s' hs' ((MkVariable.firstWord_of_alone hs'alone).symm.trans hword)
        have hnone : assigned? settings l = none := assigned?_eq_none_iff.mpr fun s' hs' => by
          rcases hs'split : s'.1.split l with _ | ⟨front, rest⟩
          · rfl
          · exact absurd ((MkVariable.firstWord_of_split_eq_some hs'split).symm.trans hword)
              (hother s' hs')
        have hread : readIdle (s :: settings) l isLast = (l, .named s) := by
          rw [readIdle, hassigned, hnone]
          simp only [aloneIn, List.find?_cons, halone]
        have habout : (Reading.named s).About [s] := List.mem_singleton_self s
        have hidle : rowOf settings (.named s) = rowOf settings .idle :=
          rowOf_of_about habout fun s' hs' s'' hs'' => List.mem_singleton.mp hs'' ▸ hother s' hs'
        rw [hquiet, hread, rowOf_cons, hidle, modeOf_named]
        exact ⟨rfl, rfl⟩
    · -- an assignment: no other pass has anything to do with it
      have hassigned : assigned? (s :: settings) l = some (s, front, rest) := by
        rw [assigned?, List.findSome?_cons, hsplit]
        rfl
      have hread : readIdle (s :: settings) l isLast = put s front rest isLast := by
        rw [readIdle, hassigned]
      obtain ⟨rest', hput⟩ := split_put hsplit s isLast
      obtain ⟨hline, hrow⟩ := ih hdistinct (put s front rest isLast).1
      rw [readIdle_of_other hput hother] at hline hrow
      have habout := about_put (List.mem_singleton_self s) front rest isLast
      have hidle : rowOf settings (put s front rest isLast).2 = rowOf settings .idle :=
        rowOf_of_about habout fun s' hs' s'' hs'' => List.mem_singleton.mp hs'' ▸ hother s' hs'
      rw [passLine_idle_of_split hsplit, hline, hrow, hread, rowOf_cons, hidle]
      exact ⟨rfl, rfl⟩

/-! ### When one pass has read something -/

/-- The passes before that of a variable. -/
def before (settings : List Setting) (s : Setting) : List Setting :=
  settings.takeWhile fun s' => s'.1.name ≠ s.1.name

/-- **Before and behind a pass**, the passes are others. -/
structure Surrounds (passes : List Setting) (s : Setting) (later : List Setting) : Prop where
  /-- Those before it. -/
  ne_before : ∀ s' ∈ passes, s'.1.name ≠ s.1.name
  /-- Those behind it. -/
  ne_behind : ∀ s' ∈ later, s'.1.name ≠ s.1.name
  /-- Both. -/
  ne_across : ∀ s' ∈ passes, ∀ s'' ∈ later, s'.1.name ≠ s''.1.name
  /-- Those before it differ. -/
  distinct_before : Distinct passes
  /-- Those behind it differ. -/
  distinct_behind : Distinct later

theorem before_append_behind (hdistinct : Distinct settings) (hs : s ∈ settings) :
    settings = before settings s ++ s :: behind settings s ∧
      Surrounds (before settings s) s (behind settings s) := by
  obtain ⟨passes, later, rfl⟩ := List.append_of_mem hs
  obtain ⟨hpasses, hrest, hcross⟩ := List.pairwise_append.mp hdistinct
  obtain ⟨hlater, hdistinct'⟩ := List.pairwise_cons.mp hrest
  have hne : ∀ s' ∈ passes, s'.1.name ≠ s.1.name := fun s' hs' =>
    hcross s' hs' s (List.mem_cons_self ..)
  have hbefore : before (passes ++ s :: later) s = passes := by
    rw [before, List.takeWhile_append_of_pos fun s' hs' => decide_eq_true (hne s' hs'),
      List.takeWhile_cons_of_neg (by simp), List.append_nil]
  have hbehind : behind (passes ++ s :: later) s = later := by
    rw [behind, List.dropWhile_append_of_pos fun s' hs' => decide_eq_true (hne s' hs'),
      List.dropWhile_cons_of_neg (by simp), List.tail_cons]
  rw [hbefore, hbehind]
  exact ⟨rfl, hne, fun s' hs' => (hlater s' hs').symm,
    fun s' hs' s'' hs'' => hcross s' hs' s'' (List.mem_cons_of_mem s hs''), hpasses, hdistinct'⟩

theorem mem_of_mem_behind {s' : Setting} (h : s' ∈ behind settings s) : s' ∈ settings :=
  (List.dropWhile_sublist _).subset (List.mem_of_mem_tail h)

namespace Surrounds

variable {passes later : List Setting} (h : Surrounds passes s later)

include h

/-- If only the pass in the middle has read something, the others have not. -/
theorem rowOf_eq (hst : st.About [s]) :
    rowOf (passes ++ s :: later) st =
      rowOf passes .idle ++ (s, modeOf st s) :: rowOf later .idle := by
  have hothers : ∀ {others : List Setting}, (∀ s' ∈ others, s'.1.name ≠ s.1.name) →
      rowOf others st = rowOf others .idle := fun hne =>
    rowOf_of_about hst fun s' hs' s'' hs'' => List.mem_singleton.mp hs'' ▸ hne s' hs'
  rw [rowOf_append, rowOf_cons, hothers h.ne_before, hothers h.ne_behind]

/-- **A line that begins with no name** gets to the pass in the middle as it is, and goes on
from there as it is if it still begins with none. -/
theorem of_not_begins {mode : LineMode} {l' : List Char} {st' : Reading}
    (hst' : st'.About [s]) (hl : ∀ v : MkVariable, ¬ v.name <+: l)
    (hl' : ∀ v : MkVariable, ¬ v.name <+: l')
    (hpass : passLine (s, mode) l isLast = (l', modeOf st' s)) :
    let row := rowOf passes .idle ++ (s, mode) :: rowOf later .idle
    lineAfter row l isLast = l' ∧ rowAfter row l isLast = rowOf (passes ++ s :: later) st' := by
  obtain ⟨hline, hrow⟩ := row_idle h.distinct_before l isLast
  obtain ⟨hline', hrow'⟩ := row_idle h.distinct_behind l' isLast
  rw [readIdle_of_not_begins hl] at hline hrow
  rw [readIdle_of_not_begins hl'] at hline' hrow'
  constructor
  · rw [lineAfter_append, hline, lineAfter_cons, hpass, hline']
  · rw [rowAfter_append, hline, hrow, rowAfter_cons, hpass, hrow', h.rowOf_eq hst']

end Surrounds

/-- A name that was read does not matter at a line that is not blank, and does not start with
an equals sign. -/
theorem passLine_named (heq : eqSplit l = none) (hblank : isBlank l = false) (isLast : Bool) :
    passLine (s, modeOf st s) l isLast = passLine (s, .idle) l isLast ∨
      modeOf st s = .filling := by
  rcases hmode : modeOf st s with _ | _ | _
  · exact Or.inl rfl
  · left
    simp [passLine, lineStep, heq, hblank]
  · exact Or.inr rfl

theorem not_filling_of_named (s s' : Setting) : modeOf (.named s') s ≠ .filling := by
  rw [modeOf]
  split_ifs <;> decide

/-- After a pass that has read nothing, such a line is still one. -/
theorem passLine_idle_kind (heq : eqSplit l = none) (hblank : isBlank l = false)
    (isLast : Bool) :
    eqSplit (passLine (s, .idle) l isLast).1 = none ∧
      isBlank (passLine (s, .idle) l isLast).1 = false := by
  rcases hsplit : s.1.split l with _ | ⟨front, rest⟩
  · rw [passLine_idle_of_split_eq_none hsplit]
    exact ⟨heq, hblank⟩
  · obtain ⟨rest', hput⟩ := split_put hsplit s isLast
    have hname := MkVariable.prefix_of_split_eq_some hput
    rw [passLine_idle_of_split hsplit]
    exact ⟨s.1.eqSplit_of_begins hname, s.1.not_isBlank_of_begins hname⟩

/-- **The passes forget a name** at such a line. -/
theorem row_named (settings : List Setting) (s : Setting) (heq : eqSplit l = none)
    (hblank : isBlank l = false) (isLast : Bool) :
    lineAfter (rowOf settings (.named s)) l isLast = lineAfter (rowOf settings .idle) l isLast ∧
      rowAfter (rowOf settings (.named s)) l isLast =
        rowAfter (rowOf settings .idle) l isLast := by
  induction settings generalizing l with
  | nil => exact ⟨rfl, rfl⟩
  | cons s' settings ih =>
    have hsame : passLine (s', modeOf (.named s) s') l isLast = passLine (s', .idle) l isLast :=
      (passLine_named heq hblank isLast).resolve_right (not_filling_of_named s' s)
    obtain ⟨heq', hblank'⟩ := passLine_idle_kind (s := s') heq hblank isLast
    obtain ⟨hline, hrow⟩ := ih heq' hblank'
    rw [rowOf_cons, rowOf_cons, lineAfter_cons, lineAfter_cons, rowAfter_cons, rowAfter_cons,
      modeOf_idle, hsame, hline, hrow]
    exact ⟨rfl, rfl⟩

/-! ### Where text is waited for -/

/-- No blanks are before a name. -/
theorem takeWhile_of_begins {v : MkVariable} (h : v.name <+: l) : l.takeWhile isSpace = [] := by
  obtain ⟨c, name, hname, hc, -⟩ := v.exists_name_eq_cons
  obtain ⟨rest, rfl⟩ := h
  rw [hname, List.cons_append, List.takeWhile_cons_of_neg (by simp [hc])]

/-- A pass that has read nothing leaves the blanks at the start of a line. -/
theorem readIdle_blanks (settings : List Setting) (l : List Char) (isLast : Bool) :
    isBlank (readIdle settings l isLast).1 = isBlank l ∧
      (readIdle settings l isLast).1.takeWhile isSpace = l.takeWhile isSpace := by
  rcases hassigned : assigned? settings l with _ | ⟨s, front, rest⟩
  · rw [readIdle, hassigned]
    exact ⟨rfl, rfl⟩
  · obtain ⟨-, hsplit⟩ := of_assigned?_eq_some hassigned
    obtain ⟨rest', hput⟩ := split_put hsplit s isLast
    have hname := MkVariable.prefix_of_split_eq_some hsplit
    have hname' := MkVariable.prefix_of_split_eq_some hput
    rw [readIdle, hassigned]
    exact ⟨(s.1.not_isBlank_of_begins hname').trans (s.1.not_isBlank_of_begins hname).symm,
      (takeWhile_of_begins hname').trans (takeWhile_of_begins hname).symm⟩

theorem passLine_waiting (hkeeps : s.1.keepsBlanks = true) (l : List Char) (isLast : Bool) :
    passLine (s, .filling) l isLast =
      if isBlank l && !isLast then (l, .filling) else (s.1.lead l ++ s.2, .idle) := by
  rw [passLine, lineStep, if_pos rfl, fillIn, hkeeps, Bool.true_and]
  rfl

/-- **What is put into the line that was waited for**, and what the passes have read then: those
before it have read the line itself, those behind it what was put. -/
theorem Surrounds.of_waiting {passes later : List Setting} (h : Surrounds passes s later)
    (hkeeps : s.1.keepsBlanks = true) (hfilled : (isBlank l && !isLast) = false) :
    let row := rowOf passes .idle ++ (s, .filling) :: rowOf later .idle
    let put := readIdle later (s.1.lead l ++ s.2) isLast
    lineAfter row l isLast = put.1 ∧
      rowAfter row l isLast =
        rowOf passes (readIdle passes l isLast).2 ++ (s, .idle) :: rowOf later put.2 := by
  obtain ⟨hline, hrow⟩ := row_idle h.distinct_before l isLast
  obtain ⟨hblank, hlead⟩ := readIdle_blanks passes l isLast
  have hpass : passLine (s, .filling) (readIdle passes l isLast).1 isLast =
      (s.1.lead l ++ s.2, .idle) := by
    rw [passLine_waiting hkeeps, hblank, hfilled, if_neg Bool.false_ne_true, MkVariable.lead,
      MkVariable.lead, hlead]
  obtain ⟨hline', hrow'⟩ := row_idle h.distinct_behind (s.1.lead l ++ s.2) isLast
  constructor
  · rw [lineAfter_append, hline, lineAfter_cons, hpass, hline']
  · rw [rowAfter_append, hline, hrow, rowAfter_cons, hpass, hrow']

/-! ### A line -/

/-- **What the passes before one that waits have read** of the line that it fills. -/
def Reading.Unseen (settings : List Setting) (st : Reading) (l : List Char) (isLast : Bool) :
    Prop :=
  ∀ s, st = .waiting s → (isBlank l && !isLast) = false →
    (readIdle (before settings s) l isLast).2 = .idle

/-- Where the last line with text was the name of a variable alone. -/
theorem row_of_about_named (hdistinct : Distinct settings) (hmem : s ∈ settings) (l : List Char)
    (isLast : Bool) :
    lineAfter (rowOf settings (.named s)) l isLast = (lineRead settings (.named s) l isLast).1 ∧
      rowAfter (rowOf settings (.named s)) l isLast =
        rowOf settings (lineRead settings (.named s) l isLast).2 := by
  obtain ⟨hsettings, hs⟩ := before_append_behind hdistinct hmem
  have habout : (Reading.named s).About [s] := List.mem_singleton_self s
  have hrow := hs.rowOf_eq habout
  rw [← hsettings, modeOf_named] at hrow
  rcases heq : eqSplit l with _ | ⟨front, rest⟩
  · rcases hblank : isBlank l with _ | _
    · -- the name does not matter any more
      obtain ⟨hline, hrow⟩ := row_named settings s heq hblank isLast
      obtain ⟨hline', hrow'⟩ := row_idle hdistinct l isLast
      simp only [lineRead, heq, hblank, Bool.false_eq_true, if_false]
      exact ⟨hline.trans hline', hrow.trans hrow'⟩
    · -- a blank line is passed over
      have hbegins := not_begins_of_isBlank hblank
      have hpass : passLine (s, .named) l isLast = (l, modeOf (.named s) s) := by
        simp [passLine, lineStep, s.1.split_of_not_begins (hbegins s.1),
          s.1.alone_of_not_begins (hbegins s.1), heq, hblank]
      obtain ⟨hline, hrow'⟩ := hs.of_not_begins habout hbegins hbegins hpass
      rw [hrow, hline, hrow', ← hsettings]
      simp [lineRead, heq, hblank]
  · -- the equals sign
    obtain ⟨rest', hput⟩ := eqSplit_put heq s isLast
    have hpass : passLine (s, .named) l isLast =
        ((put s front rest isLast).1, modeOf (put s front rest isLast).2 s) := by
      rw [passLine, lineStep, if_neg (show LineMode.named ≠ .filling by decide),
        s.1.split_of_eqSplit heq]
      simp only [if_true, heq]
      exact fillIn_eq_put s front rest isLast
    obtain ⟨hline, hrow'⟩ := hs.of_not_begins
      (about_put (List.mem_singleton_self s) front rest isLast)
      (fun v => MkVariable.not_prefix_of_eqSplit heq)
      (fun v => MkVariable.not_prefix_of_eqSplit hput) hpass
    rw [hrow, hline, hrow', ← hsettings]
    simp [lineRead, heq]

theorem lineRead_waiting (settings : List Setting) (s : Setting)
    (hfilled : (isBlank l && !isLast) = false) :
    lineRead settings (.waiting s) l isLast =
      readIdle (behind settings s) (s.1.lead l ++ s.2) isLast := by
  rw [lineRead, hfilled, if_neg Bool.false_ne_true]

/-- Where a pass waits for text. What the passes before it have read of the line is lost with it,
if it was nothing. -/
theorem row_of_about_waiting (hdistinct : Distinct settings) (hmem : s ∈ settings)
    (hkeeps : s.1.keepsBlanks = true) (l : List Char) (isLast : Bool) :
    lineAfter (rowOf settings (.waiting s)) l isLast =
        (lineRead settings (.waiting s) l isLast).1 ∧
      ((Reading.waiting s).Unseen settings l isLast →
        rowAfter (rowOf settings (.waiting s)) l isLast =
          rowOf settings (lineRead settings (.waiting s) l isLast).2) := by
  obtain ⟨hsettings, hs⟩ := before_append_behind hdistinct hmem
  have habout : (Reading.waiting s).About [s] := ⟨List.mem_singleton_self s, hkeeps⟩
  have hrow := hs.rowOf_eq habout
  rw [← hsettings, modeOf_waiting] at hrow
  rcases hfilled : isBlank l && !isLast with _ | _
  · obtain ⟨hline, hrow'⟩ := hs.of_waiting hkeeps hfilled
    rw [hrow, hline, hrow', lineRead_waiting settings s hfilled]
    refine ⟨rfl, fun hunseen => ?_⟩
    have hput := about_readIdle (behind settings s) (s.1.lead l ++ s.2) isLast
    have hpasses := rowOf_of_about hput hs.ne_across
    have hmode : modeOf (readIdle (behind settings s) (s.1.lead l ++ s.2) isLast).2 s = .idle :=
      modeOf_of_about hput fun s' hs' => (hs.ne_behind s' hs').symm
    have hwhole : rowOf settings (readIdle (behind settings s) (s.1.lead l ++ s.2) isLast).2 =
        rowOf (before settings s ++ s :: behind settings s)
          (readIdle (behind settings s) (s.1.lead l ++ s.2) isLast).2 := by
      rw [← hsettings]
    rw [hwhole, rowOf_append, rowOf_cons, hunseen s rfl hfilled, hpasses, hmode]
  · -- a blank line is passed over
    have hblank : isBlank l = true := (Bool.and_eq_true_iff.mp hfilled).1
    have hbegins := not_begins_of_isBlank hblank
    have hpass : passLine (s, .filling) l isLast = (l, modeOf (.waiting s) s) := by
      rw [passLine_waiting hkeeps, hfilled, if_pos rfl, modeOf_waiting]
    obtain ⟨hline, hrow'⟩ := hs.of_not_begins habout hbegins hbegins hpass
    rw [hrow, hline, hrow', ← hsettings, lineRead, hfilled, if_pos rfl]
    exact ⟨rfl, fun _ => rfl⟩

/-- **The passes write what the reading says**; and they have read what it says, unless a pass
before one that waited has read something of the line that was lost. -/
theorem row_of_about (hdistinct : Distinct settings) (hst : st.About settings) (l : List Char)
    (isLast : Bool) :
    lineAfter (rowOf settings st) l isLast = (lineRead settings st l isLast).1 ∧
      (st.Unseen settings l isLast → rowAfter (rowOf settings st) l isLast =
        rowOf settings (lineRead settings st l isLast).2) := by
  cases st with
  | idle =>
    obtain ⟨hline, hrow⟩ := row_idle hdistinct l isLast
    exact ⟨hline, fun _ => hrow⟩
  | named s =>
    obtain ⟨hline, hrow⟩ := row_of_about_named hdistinct hst l isLast
    exact ⟨hline, fun _ => hrow⟩
  | waiting s => exact row_of_about_waiting hdistinct hst.1 hst.2 l isLast

/-- A reading stays about the variables. -/
theorem about_lineRead (hst : st.About settings) (l : List Char) (isLast : Bool) :
    (lineRead settings st l isLast).2.About settings := by
  cases st with
  | idle => exact about_readIdle settings l isLast
  | named s =>
    rw [lineRead]
    rcases eqSplit l with _ | ⟨front, rest⟩
    · simp only
      split_ifs
      · exact hst
      · exact about_readIdle settings l isLast
    · exact about_put hst front rest isLast
  | waiting s =>
    rw [lineRead]
    split_ifs
    · exact hst
    · have habout := about_readIdle (behind settings s) (s.1.lead l ++ s.2) isLast
      rcases hread : (readIdle (behind settings s) (s.1.lead l ++ s.2) isLast).2 with _ | s' | s'
      · trivial
      · rw [hread] at habout
        exact mem_of_mem_behind habout
      · rw [hread] at habout
        exact ⟨mem_of_mem_behind habout.1, habout.2⟩

end Apatchy
