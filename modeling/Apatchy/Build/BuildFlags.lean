import Apatchy.Build.BuildTree
import Apatchy.Foundations.LinePatterns
import Apatchy.Foundations.Machine

/-!
# Patching the flags of a build tree

The flags of an alternate build tree are put into its `.mk` files: six variables are set
by replacing what a pattern matches (`Apatchy.patchMk`). A pattern matches at the start of
a line, at the name of a variable, but the blanks in it can be ends of lines. A file that is
changed is written with line feeds, whatever its lines ended with.

So what a pass over the text does is best said line by line: it reads the lines in order,
and remembers whether it has read a name without an equals sign, or an equals sign without
a value, since the last line that was not blank (`Apatchy.LineMode`). That this is what
the replacement of a pattern does is `Apatchy.sub_eq_runLines`.
-/

namespace Apatchy

/-! ### The six variables -/

/-- A variable that is set. -/
structure MkVariable where
  /-- The name. -/
  name : List Char
  /-- Whether the blanks behind the equals sign are in the group that is kept. -/
  keepsBlanks : Bool
  /-- Whether it is set to nothing. -/
  cleared : Bool
  /-- There is a name. -/
  ne_nil : name ≠ []
  /-- It has no blanks and no equals sign. -/
  plain : ∀ c ∈ name, isSpace c = false ∧ c ≠ '='

/-- A name without blanks and equals signs, checked letter by letter. -/
theorem plain_of_all {name : List Char} (h : (name.all fun c => !isSpace c && c != '=') = true) :
    ∀ c ∈ name, isSpace c = false ∧ c ≠ '=' := by
  intro c hc
  simpa using List.all_eq_true.mp h c hc

namespace MkVariable

/-- `CC`. -/
def cc : MkVariable := ⟨['C', 'C'], true, false, by decide, plain_of_all (by decide)⟩

/-- `CPP`. -/
def cpp : MkVariable := ⟨['C', 'P', 'P'], true, false, by decide, plain_of_all (by decide)⟩

/-- `CFLAGS`. -/
def cflags : MkVariable :=
  ⟨['C', 'F', 'L', 'A', 'G', 'S'], false, false, by decide, plain_of_all (by decide)⟩

/-- `LDFLAGS`. -/
def ldflags : MkVariable :=
  ⟨['L', 'D', 'F', 'L', 'A', 'G', 'S'], false, false, by decide, plain_of_all (by decide)⟩

/-- `NOTEST_CFLAGS`. -/
def notestCflags : MkVariable :=
  ⟨['N', 'O', 'T', 'E', 'S', 'T', '_', 'C', 'F', 'L', 'A', 'G', 'S'], false, true,
    by decide, plain_of_all (by decide)⟩

/-- `EXTRA_CFLAGS`. -/
def extraCflags : MkVariable :=
  ⟨['E', 'X', 'T', 'R', 'A', '_', 'C', 'F', 'L', 'A', 'G', 'S'], false, true,
    by decide, plain_of_all (by decide)⟩

/-- `^(NAME\s*=\s*).*$`, or `^(NAME\s*=).*$`. -/
def pattern (v : MkVariable) : LinePattern where
  group := v.name.map .char ++ ([.many isSpace, .char '='] ++
    if v.keepsBlanks then [.many isSpace] else [])
  post := [.many (· ≠ '\n'), .lineEnd]

end MkVariable

/-- A variable, and what it is set to. -/
abbrev Setting : Type := MkVariable × List Char

/-- What each variable is set to, in the order of the passes. -/
def requested (flags : Flags) : List Setting :=
  [(.cc, flags.cc.toList), (.cpp, flags.cc.toList ++ [' ', '-', 'E']),
    (.cflags, flags.cflags.toList), (.ldflags, flags.ldflags.toList),
    (.notestCflags, []), (.extraCflags, [])]

/-! ### The passes -/

/-- Whether a character is an octal digit. -/
def isOctal (c : Char) : Bool := '0' ≤ c && c ≤ '7'

/-- The template `\1` with a value behind it, which has no backslash: what it makes of the
group. A digit at the start of the value is read as part of the number of the group, or,
if another follows, of the number of a character. -/
def groupTemplate (value : List Char) : Except String (List Char → List Char) :=
  match value with
  | d :: e :: rest =>
    if d.isDigit = false then .ok fun group => group ++ value
    else if isOctal d && isOctal e then
      .ok fun _ => Char.ofNat (64 + 8 * (d.toNat - 48) + (e.toNat - 48)) :: rest
    else .error "invalid group reference"
  | [d] =>
    if d.isDigit = false then .ok fun group => group ++ value
    else .error "invalid group reference"
  | [] => .ok fun group => group ++ value

/-- One pass: `re.sub(pattern, template, text, flags=re.MULTILINE)`. -/
def patchVariable (text : List Char) (setting : Setting) : Except String (List Char) := do
  let expand ← groupTemplate setting.2
  return setting.1.pattern.sub expand 0 true text

/-- **`patch_build_flags`**, on a `.mk` file with some characters: what it holds then. -/
def patchMk (flags : Flags) (file : String) : Except String String := do
  let text := readText file
  let patched ← (requested flags).foldlM patchVariable text.toList
  return if String.ofList patched ≠ text then String.ofList patched else file

/-! ### A pass, line by line -/

/-- A line of blanks. -/
def isBlank (l : List Char) : Bool := l.all isSpace

/-- A line up to an equals sign with nothing but blanks before it, and what is behind. -/
def eqSplit (l : List Char) : Option (List Char × List Char) :=
  match l.dropWhile isSpace with
  | [] => none
  | c :: rest => if c = '=' then some (l.takeWhile isSpace ++ ['='], rest) else none

namespace MkVariable

variable (v : MkVariable)

/-- An assignment of the variable up to the equals sign, and what is behind. -/
def split (l : List Char) : Option (List Char × List Char) :=
  if v.name.isPrefixOf l then
    (eqSplit (l.drop v.name.length)).map fun parts => (v.name ++ parts.1, parts.2)
  else none

/-- A line with the name alone. -/
def alone (l : List Char) : Bool :=
  v.name.isPrefixOf l && isBlank (l.drop v.name.length)

/-- The blanks that are kept behind the equals sign. -/
def lead (rest : List Char) : List Char :=
  if v.keepsBlanks then rest.takeWhile isSpace else []

end MkVariable

/-- What a pass has read since the last line that was not blank. -/
inductive LineMode
  /-- Nothing of interest. -/
  | idle
  /-- The name alone. -/
  | named
  /-- An assignment, up to the blanks behind the equals sign. -/
  | filling
deriving DecidableEq, Repr

section Pass

variable (v : MkVariable) (value : List Char)

/-- Behind an equals sign: the value is put there, unless the blanks go on. -/
def fillIn (front rest : List Char) (isLast : Bool) : List Char × LineMode :=
  if v.keepsBlanks && isBlank rest && !isLast then (front ++ rest, .filling)
  else (front ++ v.lead rest ++ value, .idle)

/-- What a pass does to a line. -/
def lineStep (mode : LineMode) (l : List Char) (isLast : Bool) : List Char × LineMode :=
  if mode = .filling then fillIn v value [] l isLast
  else
    match v.split l with
    | some (front, rest) => fillIn v value front rest isLast
    | none =>
      match if mode = .named then eqSplit l else none with
      | some (front, rest) => fillIn v value front rest isLast
      | none => (l, if v.alone l || (mode = .named && isBlank l) then .named else .idle)

end Pass

/-- **A pass, as a machine** that reads lines, each with whether it is the last. -/
def lineMachine (setting : Setting) :
    Machine LineMode (List Char × Bool) (List Char × Bool) where
  step mode line :=
    let next := lineStep setting.1 setting.2 mode line.1 line.2
    ((next.1, line.2), next.2)

/-- Lines, each with whether it is the last. -/
def markLast : List (List Char) → List (List Char × Bool)
  | [] => []
  | l :: ls => (l, ls.isEmpty) :: markLast ls

/-- **A pass over some lines.** -/
def runLines (setting : Setting) (mode : LineMode) (ls : List (List Char)) :
    List (List Char) :=
  ((lineMachine setting).run mode (markLast ls)).1.map Prod.fst

end Apatchy
