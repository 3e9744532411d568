import Apatchy.Build.FlagPasses
import Mathlib.Data.List.Forall2

/-!
# The lines that are patched

Patching the flags is meant to touch the lines that assign one of the six variables, and
no other (`Apatchy.OwnLine`). The blanks in the patterns can be ends of lines, and then a
pass runs on from one line to another: from a name to an equals sign in a later line, or
from an equals sign, over blank lines, to the next text.

Whether that does harm is decided by one reading of the lines, which remembers one thing only
(`Apatchy.Reading`): the variable whose name alone it has read, or behind whose equals sign it
waits for text. Where a pass runs on, what it puts into a line has to be what is there already,
or has to be an assignment that a later pass sets right (`Apatchy.LineRight`).

A file is changed as a whole: then a carriage return before a line feed is lost, and any other
becomes a line feed. So the lines of the file itself are read along with those of its text
(`Apatchy.RightLines`), unless there is nothing to do (`Apatchy.Settled`). A value that begins
with a digit is not read as it is meant. All that together is `Apatchy.PatchesRight`.
-/

namespace Apatchy

/-! ### What is meant -/

/-- A line that assigns something to a variable. -/
def AssignmentOf (name l : List Char) : Prop :=
  ∃ blanks rest, (∀ c ∈ blanks, isSpace c = true) ∧ l = name ++ blanks ++ '=' :: rest

/-- A line that assigns a value to it, behind some blanks. -/
def AssignsTo (name value l : List Char) : Prop :=
  ∃ blanks blanks', (∀ c ∈ blanks, isSpace c = true) ∧ (∀ c ∈ blanks', isSpace c = true) ∧
    l = name ++ blanks ++ '=' :: (blanks' ++ value)

/-- The variables, and what is meant to be assigned to them. -/
def meant (flags : Flags) : List (List Char × List Char) :=
  [("CC".toList, flags.cc.toList), ("CPP".toList, (flags.cc ++ " -E").toList),
    ("CFLAGS".toList, flags.cflags.toList), ("LDFLAGS".toList, flags.ldflags.toList),
    ("NOTEST_CFLAGS".toList, []), ("EXTRA_CFLAGS".toList, [])]

/-- **A line after the patching**: an assignment of a variable assigns what is meant, and any
other line is as it was. -/
structure OwnLine (flags : Flags) (l l' : List Char) : Prop where
  /-- An assignment is patched. -/
  assigned : ∀ p ∈ meant flags, AssignmentOf p.1 l → AssignsTo p.1 p.2 l'
  /-- Other lines stay. -/
  kept : (∀ p ∈ meant flags, ¬ AssignmentOf p.1 l) → l' = l

/-- **The patching of a file touches its own lines only.** -/
def TouchesOwnLines (flags : Flags) (file : String) (outcome : Except String String) : Prop :=
  ∃ patched, outcome = .ok patched ∧ List.Forall₂ (OwnLine flags) (file.toList.splitOn '\n')
    (patched.toList.splitOn '\n')

/-- A value that is one line without backslashes. -/
structure LineValue (value : List Char) : Prop where
  /-- It has no backslash. -/
  backslash : '\\' ∉ value
  /-- It is one line. -/
  newline : '\n' ∉ value

/-- A value that can be put into a template: it does not begin with a digit either. -/
structure PlainValue (value : List Char) : Prop extends LineValue value where
  /-- It does not begin with a digit. -/
  digit : ∀ c, value.head? = some c → c.isDigit = false

/-- **Flags that are meant**: each is one line without backslashes, and the compiler does not
begin with a digit. -/
structure OneLineFlags (flags : Flags) : Prop where
  /-- The compiler. -/
  cc : PlainValue flags.cc.toList
  /-- The flags of the compiler. -/
  cflags : LineValue flags.cflags.toList
  /-- The flags of the linker. -/
  ldflags : LineValue flags.ldflags.toList

/-- An assignment of a variable assigns a value, behind some blanks. -/
def MkVariable.Assigns (v : MkVariable) (value l : List Char) : Prop :=
  ∃ front blanks, v.split l = some (front, blanks ++ value) ∧ isBlank blanks = true

/-! ### One reading of the lines -/

/-- What has been read since the last line that was not blank. -/
inductive Reading
  /-- Nothing of interest. -/
  | idle
  /-- The name of a variable alone. -/
  | named (s : Setting)
  /-- An assignment, up to blanks that go on to the next line. -/
  | waiting (s : Setting)

/-- Whether the blanks behind an equals sign go on to the next line. -/
def waits (s : Setting) (rest : List Char) (isLast : Bool) : Bool :=
  s.1.keepsBlanks && isBlank rest && !isLast

/-- Behind an equals sign: the value, unless it is waited for more text. -/
def put (s : Setting) (front rest : List Char) (isLast : Bool) : List Char × Reading :=
  if waits s rest isLast then (front ++ rest, .waiting s)
  else (front ++ s.1.lead rest ++ s.2, .idle)

/-- The assignment that a line is: of which variable, up to the equals sign, and what is
behind it. -/
def assigned? (settings : List Setting) (l : List Char) :
    Option (Setting × List Char × List Char) :=
  settings.findSome? fun s => (s.1.split l).map fun parts => (s, parts)

/-- What is read of a line that is no assignment. -/
def aloneIn (settings : List Setting) (l : List Char) : Reading :=
  match settings.find? fun s => s.1.alone l with
  | some s => .named s
  | none => .idle

/-- A line by itself. -/
def readIdle (settings : List Setting) (l : List Char) (isLast : Bool) : List Char × Reading :=
  match assigned? settings l with
  | some (s, front, rest) => put s front rest isLast
  | none => (l, aloneIn settings l)

/-- The passes behind that of a variable. -/
def behind (settings : List Setting) (s : Setting) : List Setting :=
  (settings.dropWhile fun s' => s'.1.name ≠ s.1.name).tail

/-- **A line after others**: what is put there, and what has been read then. -/
def lineRead (settings : List Setting) (st : Reading) (l : List Char) (isLast : Bool) :
    List Char × Reading :=
  match st with
  | .idle => readIdle settings l isLast
  | .named s =>
    match eqSplit l with
    | some (front, rest) => put s front rest isLast
    | none => if isBlank l then (l, .named s) else readIdle settings l isLast
  | .waiting s =>
    if isBlank l && !isLast then (l, .waiting s)
    else readIdle (behind settings s) (s.1.lead l ++ s.2) isLast

/-! ### When it does no harm -/

/-- **What is put into a line is right for it.** `r` is the line of the file, and `l` that of
its text, which has no carriage return at the end.

An assignment is set right, unless it is waited for its value: then it must have it. Any other
line must be what is put there, which is the line itself unless a pass has run on to it. An
assignment to which a pass has run on is lost, unless the value of the pass is an assignment of
the same variable, and is itself set by a later pass. -/
def LineRight (settings : List Setting) (st : Reading) (r l : List Char) (isLast : Bool) : Prop :=
  match st, assigned? settings l with
  | .waiting s, none => r = if isBlank l && !isLast then l else s.1.lead l ++ s.2
  | .waiting s, some (w, _, _) => ∃ front rest,
    assigned? (behind settings s) s.2 = some (w, front, rest) ∧ waits w rest isLast = false
  | .named s, none =>
    match eqSplit l with
    | some (front, rest) => r = if waits s rest isLast then l else front ++ s.1.lead rest ++ s.2
    | none => r = l
  | .idle, none => r = l
  | _, some (s, _, rest) => waits s rest isLast = true → s.2 <:+ rest

/-- **What is put into the lines of a file is right for them**: there are as many lines in it
as in its text. -/
def RightLines (settings : List Setting) : Reading → List (List Char) → List (List Char) → Prop
  | _, [], [] => True
  | st, r :: rs, l :: ls => LineRight settings st r l ls.isEmpty ∧
    RightLines settings (lineRead settings st l ls.isEmpty).2 rs ls
  | _, _, _ => False

/-- **What is put into the lines is there already.** -/
def Settled (settings : List Setting) : Reading → List (List Char) → Prop
  | _, [] => True
  | st, l :: ls => (lineRead settings st l ls.isEmpty).1 = l ∧
    Settled settings (lineRead settings st l ls.isEmpty).2 ls

instance decidableSettled (settings : List Setting) :
    ∀ st ls, Decidable (Settled settings st ls)
  | _, [] => isTrue trivial
  | st, l :: ls =>
    have := decidableSettled settings (lineRead settings st l ls.isEmpty).2 ls
    inferInstanceAs (Decidable ((lineRead settings st l ls.isEmpty).1 = l ∧
      Settled settings (lineRead settings st l ls.isEmpty).2 ls))

/-- Whether a variable is assigned in some lines, its name and the equals sign in one line, or
with nothing but blank lines between them. -/
def AssignedIn (v : MkVariable) : Bool → List (List Char) → Prop
  | _, [] => False
  | named, l :: ls => (v.split l).isSome ∨ (named = true ∧ (eqSplit l).isSome) ∨
    AssignedIn v (v.alone l || (named && isBlank l)) ls

/-- **A value that is taken for the number of a group** that does not exist: it begins with a
digit, and not with two octal digits. -/
def Misread (value : List Char) : Prop :=
  ∃ d rest, value = d :: rest ∧ d.isDigit = true ∧
    ∀ e, rest.head? = some e → (isOctal d && isOctal e) = false

/-- Whether a value is taken for the number of a character: it begins with two octal digits. -/
def readAsCharacter (value : List Char) : Bool :=
  match value with
  | d :: e :: _ => isOctal d && isOctal e
  | _ => false

/-- A value that is not put anywhere as it is. -/
def usable (s : Setting) : Setting := if readAsCharacter s.2 then (s.1, []) else s

/-- **When the patching touches its own lines only.** -/
structure PatchesRight (flags : Flags) (file : String) : Prop where
  /-- The template can be read. -/
  readable : ∀ s ∈ requested flags, ¬ Misread s.2
  /-- A value that is taken for a character is not used. -/
  unused : ∀ s ∈ requested flags, readAsCharacter s.2 = true →
    ¬ AssignedIn s.1 false (linesOf (readText file).toList)
  /-- If there is nothing to do, each assignment in the file has its value, behind which no
  carriage return is; otherwise, what is put into the lines of the file is right for them. -/
  right : let used := (requested flags).map usable
    let text := linesOf (readText file).toList
    if Settled used .idle text then
      ∀ r ∈ linesOf file.toList, ∀ s ∈ requested flags, (s.1.split r).isSome → s.1.Assigns s.2 r
    else RightLines used .idle (linesOf file.toList) text

/-! ### Kinds of lines -/

/-- What a line begins with, up to a blank or an equals sign. -/
def firstWord (l : List Char) : List Char := l.takeWhile fun c => !isSpace c && c != '='

namespace MkVariable

variable {v w : MkVariable} {l front rest : List Char}

/-- The first word of a line that starts with the name, if the name is all of it. -/
theorem firstWord_append (v : MkVariable) {rest : List Char}
    (hrest : ∀ c, rest.head? = some c → isSpace c = true ∨ c = '=') :
    firstWord (v.name ++ rest) = v.name := by
  have hall : ∀ c ∈ v.name, (!isSpace c && c != '=') = true := by
    intro c hc
    simp [v.plain c hc]
  rw [firstWord, List.takeWhile_append_of_pos hall]
  rcases rest with _ | ⟨c, rest⟩
  · simp
  · rw [List.takeWhile_cons_of_neg]
    · simp
    · rcases hrest c rfl with hc | hc <;> simp [hc]

theorem firstWord_of_split_eq_some (h : v.split l = some (front, rest)) :
    firstWord l = v.name := by
  obtain ⟨blanks, hblanks, rfl, rfl⟩ := (v.split_eq_some_iff).mp h
  rw [List.append_assoc, List.append_assoc]
  refine v.firstWord_append fun c hc => ?_
  rcases blanks with _ | ⟨d, blanks⟩
  · exact Or.inr (by simpa using hc.symm)
  · obtain rfl : d = c := by simpa using hc
    exact Or.inl (List.all_eq_true.mp hblanks d (List.mem_cons_self ..))

theorem firstWord_of_alone (h : v.alone l = true) : firstWord l = v.name := by
  rw [alone, Bool.and_eq_true, List.isPrefixOf_iff_prefix] at h
  obtain ⟨⟨rest, rfl⟩, hblank⟩ := h
  rw [List.drop_left] at hblank
  refine v.firstWord_append fun c hc => Or.inl (List.all_eq_true.mp hblank c ?_)
  exact List.mem_of_head? hc

/-- **An assignment is of one variable only.** -/
theorem split_eq_none_of_ne (h : v.split l = some (front, rest)) (hne : w.name ≠ v.name) :
    w.split l = none ∧ w.alone l = false := by
  have hword := firstWord_of_split_eq_some h
  constructor
  · rcases hw : w.split l with _ | ⟨front', rest'⟩
    · rfl
    · exact absurd ((firstWord_of_split_eq_some hw).symm.trans hword) hne
  · rw [Bool.eq_false_iff]
    intro hw
    exact hne ((firstWord_of_alone hw).symm.trans hword)

theorem prefix_of_split_eq_some (h : v.split l = some (front, rest)) : v.name <+: l := by
  obtain ⟨blanks, -, rfl, rfl⟩ := (v.split_eq_some_iff).mp h
  rw [List.append_assoc, List.append_assoc]
  exact List.prefix_append _ _

/-- A line that starts with an equals sign does not start with a name. -/
theorem not_prefix_of_eqSplit (h : eqSplit l = some (front, rest)) : ¬ v.name <+: l := by
  intro hname
  rw [v.eqSplit_of_begins hname] at h
  cases h

theorem split_of_eqSplit (v : MkVariable) (h : eqSplit l = some (front, rest)) :
    v.split l = none :=
  v.split_of_not_begins (not_prefix_of_eqSplit h)

theorem isBlank_lead (v : MkVariable) (rest : List Char) : isBlank (v.lead rest) = true := by
  rw [lead]
  split_ifs
  · exact List.all_takeWhile
  · rfl

/-- An assignment whose value is replaced is an assignment. -/
theorem split_front_append (h : v.split l = some (front, rest)) (rest' : List Char) :
    v.split (front ++ rest') = some (front, rest') := by
  obtain ⟨blanks, hblanks, hfront, -⟩ := (v.split_eq_some_iff).mp h
  exact (v.split_eq_some_iff).mpr ⟨blanks, hblanks, hfront, rfl⟩

end MkVariable

theorem eqSplit_front_append {l front rest : List Char} (h : eqSplit l = some (front, rest))
    (rest' : List Char) : eqSplit (front ++ rest') = some (front, rest') := by
  obtain ⟨blanks, hblanks, hfront, -⟩ := eqSplit_eq_some_iff.mp h
  exact eqSplit_eq_some_iff.mpr ⟨blanks, hblanks, hfront, rfl⟩

theorem not_isBlank_of_eqSplit {l front rest : List Char} (h : eqSplit l = some (front, rest)) :
    isBlank l = false := by
  obtain ⟨blanks, -, rfl, rfl⟩ := eqSplit_eq_some_iff.mp h
  simp [isBlank, show isSpace '=' = false by decide]

/-! ### What is meant, said of the settings -/

/-- A line after the passes, for some settings. -/
structure PatchedLine (settings : List Setting) (l l' : List Char) : Prop where
  /-- An assignment is patched. -/
  assigned : ∀ s ∈ settings, (s.1.split l).isSome → s.1.Assigns s.2 l'
  /-- Other lines stay. -/
  kept : (∀ s ∈ settings, s.1.split l = none) → l' = l

theorem assignmentOf_iff (v : MkVariable) (l : List Char) :
    AssignmentOf v.name l ↔ (v.split l).isSome := by
  rw [Option.isSome_iff_exists]
  constructor
  · rintro ⟨blanks, rest, hblanks, hl⟩
    refine ⟨(v.name ++ blanks ++ ['='], rest), (v.split_eq_some_iff).mpr ?_⟩
    exact ⟨blanks, List.all_eq_true.mpr hblanks, rfl, by simp [hl]⟩
  · rintro ⟨⟨front, rest⟩, hsplit⟩
    obtain ⟨blanks, hblanks, rfl, hl⟩ := (v.split_eq_some_iff).mp hsplit
    exact ⟨blanks, rest, List.all_eq_true.mp hblanks, by simp [hl]⟩

theorem assignsTo_iff (v : MkVariable) (value l : List Char) :
    AssignsTo v.name value l ↔ v.Assigns value l := by
  constructor
  · rintro ⟨blanks, blanks', hblanks, hblanks', hl⟩
    refine ⟨v.name ++ blanks ++ ['='], blanks', (v.split_eq_some_iff).mpr ?_,
      List.all_eq_true.mpr hblanks'⟩
    exact ⟨blanks, List.all_eq_true.mpr hblanks, rfl, by simp [hl]⟩
  · rintro ⟨front, blanks', hsplit, hblanks'⟩
    obtain ⟨blanks, hblanks, rfl, hl⟩ := (v.split_eq_some_iff).mp hsplit
    exact ⟨blanks, blanks', List.all_eq_true.mp hblanks, List.all_eq_true.mp hblanks', by simp [hl]⟩

/-- **What is requested is what is meant.** -/
theorem meant_eq (flags : Flags) :
    meant flags = (requested flags).map fun s => (s.1.name, s.2) := by
  have hcpp : (flags.cc ++ " -E").toList = flags.cc.toList ++ [' ', '-', 'E'] := by simp
  rw [meant, hcpp]
  simp [requested, MkVariable.cc, MkVariable.cpp, MkVariable.cflags, MkVariable.ldflags,
    MkVariable.notestCflags, MkVariable.extraCflags]

theorem ownLine_eq (flags : Flags) : OwnLine flags = PatchedLine (requested flags) := by
  funext l l'
  refine propext ⟨fun h => ⟨fun s hs hl => ?_, fun hnone => ?_⟩,
    fun h => ⟨?_, fun hnone => h.kept fun s hs => ?_⟩⟩
  · have hmem : (s.1.name, s.2) ∈ meant flags := meant_eq flags ▸ List.mem_map_of_mem hs
    exact (assignsTo_iff s.1 s.2 l').mp
      (h.assigned (s.1.name, s.2) hmem ((assignmentOf_iff s.1 l).mpr hl))
  · refine h.kept ?_
    rw [meant_eq, List.forall_mem_map]
    intro s hs
    rw [assignmentOf_iff, hnone s hs]
    exact Bool.false_ne_true
  · rw [meant_eq, List.forall_mem_map]
    intro s hs hl
    exact (assignsTo_iff s.1 s.2 l').mpr (h.assigned s hs ((assignmentOf_iff s.1 l).mp hl))
  · rw [meant_eq, List.forall_mem_map] at hnone
    rw [← Option.not_isSome_iff_eq_none, ← assignmentOf_iff]
    exact hnone s hs

/-! ### The passes in a row -/

/-- A pass, and what it has read. -/
abbrev PassState : Type := Setting × LineMode

/-- What the passes make of a line. -/
def lineAfter (row : List PassState) (l : List Char) (isLast : Bool) : List Char :=
  ((Machine.cascade lineMachine).step row (l, isLast)).1.1

/-- What they have read then. -/
def rowAfter (row : List PassState) (l : List Char) (isLast : Bool) : List PassState :=
  ((Machine.cascade lineMachine).step row (l, isLast)).2

/-- What they make of some lines. -/
def linesAfter (row : List PassState) (ls : List (List Char)) : List (List Char) :=
  ((Machine.cascade lineMachine).run row (markLast ls)).1.map Prod.fst

/-- One pass at a line. -/
def passLine (m : PassState) (l : List Char) (isLast : Bool) : List Char × LineMode :=
  lineStep m.1.1 m.1.2 m.2 l isLast

theorem lineAfter_cons (m : PassState) (row : List PassState) (l : List Char) (isLast : Bool) :
    lineAfter (m :: row) l isLast = lineAfter row (passLine m l isLast).1 isLast := rfl

theorem rowAfter_cons (m : PassState) (row : List PassState) (l : List Char) (isLast : Bool) :
    rowAfter (m :: row) l isLast =
      (m.1, (passLine m l isLast).2) :: rowAfter row (passLine m l isLast).1 isLast := rfl

theorem linesAfter_cons (row : List PassState) (l : List Char) (ls : List (List Char)) :
    linesAfter row (l :: ls) =
      lineAfter row l ls.isEmpty :: linesAfter (rowAfter row l ls.isEmpty) ls := rfl

/-- The passes stay the same. -/
theorem map_fst_rowAfter (row : List PassState) (l : List Char) (isLast : Bool) :
    (rowAfter row l isLast).map Prod.fst = row.map Prod.fst := by
  induction row generalizing l with
  | nil => rfl
  | cons m row ih => rw [rowAfter_cons, List.map_cons, ih, List.map_cons]

end Apatchy
