import Apatchy.Foundations.FindAll

/-!
# The tags of a harness

What a harness is built from is written in the comment at its beginning: `@protos`,
`@converters` and `@extras` name files, `@ldflags` adds to the flags of the linker.
`HarnessBuilder._parse_harness_tags` reads the lines of the file up to the end of the comment,
and of each tag the last line counts (`Apatchy.parseHarnessTags`).

A comment that is made of lines with one tag each, and of lines without tags, is read as what
it says (`Apatchy.parseHarnessTags_commentText`), whatever follows it in the file. Its lines may
end in any way, and there may be any blanks around the names of a tag.
-/

namespace Apatchy

/-! ### Reading -/

/-- The lines of a file, each with its line feed. -/
def iterLines : List Char → List (List Char)
  | [] => []
  | c :: cs =>
    if c = '\n' then ['\n'] :: iterLines cs
    else match iterLines cs with
      | [] => [[c]]
      | line :: ls => (c :: line) :: ls

/-- `@name:\s*(.+)`. -/
def tagRe (name : String) : List PatternPart :=
  lit ("@" ++ name ++ ":") ++ [.many isSpace] ++ group (some1 (· ≠ '\n'))

/-- What a line says of a tag. -/
def tagValue (name : String) (line : List Char) : Option (List Char) :=
  (reSearch (tagRe name) line).map fun groups => groups.getD 0 []

/-- `[s.strip() for s in value.split(",")]`. -/
def splitNames (value : List Char) : List String :=
  (value.splitOn ',').map fun part => strip (String.ofList part)

/-- What the tags of a harness say. -/
structure HarnessTags where
  /-- `@protos`. -/
  protos : Option (List String) := none
  /-- `@converters`. -/
  converters : Option (List String) := none
  /-- `@ldflags`. -/
  ldflags : Option String := none
  /-- `@extras`. -/
  extras : Option (List String) := none
deriving DecidableEq, Repr

/-- One line of the comment: what it says takes the place of what was said. -/
def HarnessTags.read (tags : HarnessTags) (line : List Char) : HarnessTags where
  protos := ((tagValue "protos" line).map splitNames).or tags.protos
  converters := ((tagValue "converters" line).map splitNames).or tags.converters
  ldflags :=
    ((tagValue "ldflags" line).map fun value => strip (String.ofList value)).or tags.ldflags
  extras := ((tagValue "extras" line).map splitNames).or tags.extras

/-- The lines before the end of the comment. -/
def tagLines (text : String) : List (List Char) :=
  (iterLines (readText text).toList).takeWhile fun line => strip (String.ofList line) ≠ "*/"

/-- **`HarnessBuilder._parse_harness_tags`**, of the text of the harness, unless it cannot be
opened. -/
def parseHarnessTags (text : Option String) : HarnessTags :=
  match text with
  | none => {}
  | some text => (tagLines text).foldl HarnessTags.read {}

/-! ### Comments -/

/-- How a line of a file ends. -/
inductive LineEnd
  | lf
  | cr
  | crlf
deriving DecidableEq, Repr

/-- The characters at the end of a line. -/
def LineEnd.chars : LineEnd → List Char
  | lf => ['\n']
  | cr => ['\r']
  | crlf => ['\r', '\n']

/-- A name in the list of a tag, with the blanks around it. -/
structure ListedName where
  /-- The blanks before it. -/
  before : List Char := [' ']
  /-- The name. -/
  name : List Char
  /-- The blanks behind it. -/
  after : List Char := []
deriving DecidableEq, Repr

/-- How it is written. -/
def ListedName.text (entry : ListedName) : List Char := entry.before ++ entry.name ++ entry.after

/-- A tag, and what is written behind its colon. -/
inductive Tag
  | protos (names : List ListedName)
  | converters (names : List ListedName)
  | extras (names : List ListedName)
  /-- The flags, and the blanks behind them. -/
  | ldflags (flags after : List Char)
deriving DecidableEq, Repr

namespace Tag

/-- What a tag is called. -/
def label : Tag → String
  | protos _ => "protos"
  | converters _ => "converters"
  | extras _ => "extras"
  | ldflags _ _ => "ldflags"

/-- The value of a tag: names have commas between them. -/
def value : Tag → List Char
  | protos names | converters names | extras names =>
    List.intercalate [','] (names.map ListedName.text)
  | ldflags flags after => flags ++ after

end Tag

/-- What introduces a tag. -/
def tagMarker (label : String) : List Char := '@' :: (label.toList ++ [':'])

/-- A line with a tag. -/
structure TagLine where
  /-- What is before the tag. -/
  front : List Char := [' ', '*', ' ']
  /-- The blanks behind the colon. -/
  gap : List Char := [' ']
  /-- The tag. -/
  tag : Tag
deriving DecidableEq, Repr

/-- How it is written. -/
def TagLine.text (line : TagLine) : List Char :=
  line.front ++ tagMarker line.tag.label ++ line.gap ++ line.tag.value

/-- A line of the comment. -/
inductive HeaderLine
  | tagged (line : TagLine)
  /-- A line without tags. -/
  | plain (text : List Char)
deriving DecidableEq, Repr

namespace HeaderLine

/-- What a line looks like, without its end. -/
def text : HeaderLine → List Char
  | tagged line => line.text
  | plain text => text

/-- The tag of a line. -/
def tag? : HeaderLine → Option Tag
  | tagged line => some line.tag
  | plain _ => none

end HeaderLine

/-- The names that are listed. -/
def namesOf (names : List ListedName) : List String :=
  names.map fun entry => String.ofList entry.name

namespace Tag

/-- What a tag says, if it is one about the protos. -/
def protos? : Tag → Option (List String)
  | protos names => some (namesOf names)
  | _ => none

/-- What it says about the converters. -/
def converters? : Tag → Option (List String)
  | converters names => some (namesOf names)
  | _ => none

/-- What it says about the flags. -/
def ldflags? : Tag → Option String
  | ldflags flags _ => some (String.ofList flags)
  | _ => none

/-- What it says about the extras. -/
def extras? : Tag → Option (List String)
  | extras names => some (namesOf names)
  | _ => none

end Tag

/-- **What a comment says**: of each tag, the last line counts. -/
def tagsOf (tags : List Tag) : HarnessTags where
  protos := (tags.filterMap Tag.protos?).getLast?
  converters := (tags.filterMap Tag.converters?).getLast?
  ldflags := (tags.filterMap Tag.ldflags?).getLast?
  extras := (tags.filterMap Tag.extras?).getLast?

/-- A line of a file, and how it ends. -/
abbrev EndedLine := HeaderLine × LineEnd

/-- **The text of a comment** at the beginning of a file: its lines, each with its end, the line
that closes it, and the rest of the file. -/
def commentText (ls : List EndedLine) (closing rest : List Char) : String :=
  String.ofList
    (ls.flatMap (fun line => line.1.text ++ line.2.chars) ++ closing ++ rest)

/-! ### Comments that can be read -/

/-- What the tags are called. -/
def tagLabels : List String := ["protos", "converters", "ldflags", "extras"]

/-- **A name that can be listed.** -/
structure ListedName.Readable (entry : ListedName) : Prop where
  /-- There are blanks before it. -/
  before : ∀ c ∈ entry.before, isSpace c = true
  /-- It has no blanks at its ends. -/
  stripped : Stripped entry.name
  /-- It has no comma. -/
  comma : ',' ∉ entry.name
  /-- There are blanks behind it. -/
  after : ∀ c ∈ entry.after, isSpace c = true

/-- **A tag that can be read.** -/
def Tag.Readable : Tag → Prop
  | protos names | converters names | extras names => ∀ entry ∈ names, entry.Readable
  | ldflags flags after => Stripped flags ∧ ∀ c ∈ after, isSpace c = true

/-- **A line with a tag that can be read.** -/
structure TagLine.Readable (line : TagLine) : Prop where
  /-- The tag is not in what is before it. -/
  front : ¬ tagMarker line.tag.label <:+: line.front
  /-- There is no other tag. -/
  others : ∀ label ∈ tagLabels, tagMarker label <:+: line.text → label = line.tag.label
  /-- There are blanks behind the colon. -/
  gap : ∀ c ∈ line.gap, isSpace c = true
  /-- The value begins with a character that is not blank. -/
  value : line.tag.value.head?.any (fun c => !isSpace c) = true
  /-- The value can be read. -/
  tag : line.tag.Readable

/-- **A line that can be read.** -/
def HeaderLine.Readable : HeaderLine → Prop
  | tagged line => line.Readable
  | plain text => (∀ label ∈ tagLabels, ¬ tagMarker label <:+: text) ∧
      stripChars text ≠ ['*', '/']

/-- **A comment that can be read.** -/
structure ReadableComment (ls : List EndedLine) (closing rest : List Char) : Prop where
  /-- Its lines can be read. -/
  lines : ∀ line ∈ ls, line.1.Readable
  /-- They are lines. -/
  ends : ∀ line ∈ ls, '\n' ∉ line.1.text ∧ '\r' ∉ line.1.text
  /-- No line feed follows a carriage return that ends a line. -/
  apart : ls.IsChain fun line next => line.2 = .cr → next.1.text = [] → next.2 ≠ .lf
  /-- The line that closes it is a line. -/
  closingLine : '\n' ∉ closing ∧ '\r' ∉ closing
  /-- It has blanks around the end of the comment. -/
  closes : stripChars closing = ['*', '/']
  /-- It ends with the file or with a line end. -/
  rest : ∀ c ∈ rest.head?, c = '\n' ∨ c = '\r'

/-! ### Lines -/

theorem universalNewlines_append {a : List Char} (ha : '\r' ∉ a) (b : List Char) :
    universalNewlines (a ++ b) = a ++ universalNewlines b := by
  induction a with
  | nil => rfl
  | cons c a ih =>
    rw [List.mem_cons, not_or] at ha
    have hc : c ≠ '\r' := fun h => ha.1 h.symm
    have hrest := ih ha.2
    rw [List.cons_append, universalNewlines, hrest, List.cons_append]
    · exact fun _ h => absurd h hc
    · exact fun h => absurd h hc

/-- **Every line end is read as a line feed**, if none follows a carriage return. -/
theorem universalNewlines_lineEnd (ending : LineEnd) {cs : List Char}
    (h : ending = .cr → cs.head? ≠ some '\n') :
    universalNewlines (ending.chars ++ cs) = '\n' :: universalNewlines cs := by
  cases ending with
  | lf => exact universalNewlines_append (a := ['\n']) (by decide) cs
  | crlf => rfl
  | cr =>
    have hhead := h rfl
    rw [LineEnd.chars, List.singleton_append, universalNewlines]
    rintro rest rfl
    exact hhead rfl

theorem iterLines_append {l : List Char} (hl : '\n' ∉ l) (cs : List Char) :
    iterLines (l ++ '\n' :: cs) = (l ++ ['\n']) :: iterLines cs := by
  induction l with
  | nil => simp [iterLines]
  | cons c l ih =>
    rw [List.mem_cons, not_or] at hl
    rw [List.cons_append, iterLines, if_neg fun h => hl.1 h.symm, ih hl.2]
    rfl

theorem isSpace_lineFeed : ∀ c ∈ ['\n'], isSpace c = true := by
  rw [List.forall_mem_singleton]
  decide

/-- The first line of a text, up to its end. -/
theorem iterLines_of_rest {l : List Char} (hl : '\n' ∉ l) (hne : l ≠ []) {rest : List Char}
    (hrest : ∀ c ∈ rest.head?, c = '\n') :
    ∃ back later, (∀ c ∈ back, isSpace c = true) ∧
      iterLines (l ++ rest) = (l ++ back) :: later := by
  rcases rest with _ | ⟨c, rest⟩
  · refine ⟨[], [], by simp, ?_⟩
    rw [List.append_nil]
    clear hrest
    induction l with
    | nil => exact absurd rfl hne
    | cons c l ih =>
      rw [List.mem_cons, not_or] at hl
      rw [iterLines, if_neg fun h => hl.1 h.symm]
      rcases l with _ | ⟨d, l⟩
      · rfl
      · rw [ih hl.2 (List.cons_ne_nil d l)]
  · obtain rfl := hrest c rfl
    exact ⟨['\n'], iterLines rest, isSpace_lineFeed, iterLines_append hl rest⟩

/-- What a file without a first line feed is read as has none. -/
theorem head?_universalNewlines {cs : List Char} (h : ∀ c ∈ cs.head?, c = '\n' ∨ c = '\r') :
    ∀ c ∈ (universalNewlines cs).head?, c = '\n' := by
  fun_cases universalNewlines cs with
  | case1 => simp
  | case2 cs => simp
  | case3 cs => simp
  | case4 c cs _ hc =>
    intro d hd
    obtain rfl : c = d := by simpa using hd
    exact (h c rfl).resolve_right hc

/-- **The lines of a comment are read**, each with a line feed. -/
theorem iterLines_lines {ls : List EndedLine} (hends : ∀ line ∈ ls, '\n' ∉ line.1.text ∧
      '\r' ∉ line.1.text)
    (hapart : ls.IsChain fun line next => line.2 = .cr → next.1.text = [] → next.2 ≠ .lf)
    {cs : List Char} (hcs : cs.head? ≠ some '\n') :
    iterLines (universalNewlines
        (ls.flatMap (fun line => line.1.text ++ line.2.chars) ++ cs)) =
      ls.map (fun line => line.1.text ++ ['\n']) ++ iterLines (universalNewlines cs) := by
  induction ls with
  | nil => rfl
  | cons line ls ih =>
    obtain ⟨hline, hends⟩ := List.forall_mem_cons.mp hends
    -- what follows the end of the line is the next line, or what follows the lines
    have hnext : line.2 = .cr →
        (ls.flatMap (fun line => line.1.text ++ line.2.chars) ++ cs).head? ≠ some '\n' := by
      intro hcr
      rcases ls with _ | ⟨next, ls⟩
      · exact hcs
      · have hfollows := (List.isChain_cons_cons.mp hapart).1 hcr
        obtain ⟨hnextLine, -⟩ := List.forall_mem_cons.mp hends
        rcases htext : next.1.text with _ | ⟨c, text⟩
        · have hlf := hfollows htext
          rcases hending : next.2 with _ | _ | _
          · exact absurd hending hlf
          · simp [htext, hending, LineEnd.chars]
          · simp [htext, hending, LineEnd.chars]
        · intro hhead
          obtain rfl : c = '\n' := by simpa [htext] using hhead
          exact hnextLine.1 (by simp [htext])
    have hread := ih hends hapart.of_cons
    rw [List.flatMap_cons, List.append_assoc, List.append_assoc,
      universalNewlines_append hline.2, universalNewlines_lineEnd line.2 hnext,
      iterLines_append hline.1, hread]
    rfl

/-! ### Searches -/

/-- **What a search finds begins with the literal.** -/
theorem infix_of_reSearch_lit {s : String} {parts : List PatternPart} {cs : List Char}
    {groups : List (List Char)} (h : reSearch (lit s ++ parts) cs = some groups) :
    s.toList <:+: cs := by
  have hmatch : ∀ {cs groups}, reMatch (lit s ++ parts) cs = some groups → s.toList <:+: cs := by
    intro cs groups h
    obtain ⟨marks, hmarks, -⟩ := Option.map_eq_some_iff.mp h
    exact (prefix_of_matchParts_lit hmarks).isInfix
  induction cs with
  | nil => exact hmatch h
  | cons c cs ih =>
    rw [reSearch, Option.or_eq_some_iff] at h
    rcases h with h | ⟨-, h⟩
    · exact hmatch h
    · exact (ih h).trans (List.suffix_cons c cs).isInfix

/-- **A search passes over what is before the literal**, if the literal begins in no other
place: no occurrence is in the front, and none reaches over its end. -/
theorem reSearch_lit_append {s : String} {c : Char} {t : List Char} (hs : s.toList = c :: t)
    (hc : c ∉ t) {parts : List PatternPart} {front : List Char} (hfront : ¬ s.toList <:+: front)
    (cs : List Char) :
    reSearch (lit s ++ parts) (front ++ c :: cs) = reSearch (lit s ++ parts) (c :: cs) := by
  induction front with
  | nil => rfl
  | cons d front ih =>
    have hwithin : ¬ s.toList <:+: front := fun h =>
      hfront (h.trans (List.suffix_cons d front).isInfix)
    -- no match begins in the front
    have hnone : reMatch (lit s ++ parts) (d :: front ++ c :: cs) = none := by
      rcases hmatch : matchParts (lit s ++ parts) (d :: front ++ c :: cs) with _ | marks
      · rw [reMatch, hmatch]
        rfl
      · rcases List.prefix_or_prefix_of_prefix (prefix_of_matchParts_lit hmatch)
          (List.prefix_append (d :: front) (c :: cs)) with hprefix | ⟨back, hback⟩
        · exact absurd hprefix.isInfix hfront
        · -- an occurrence that reaches over the end has the next one's first character in it
          rcases back with _ | ⟨e, back⟩
          · rw [List.append_nil] at hback
            exact absurd (hback ▸ List.infix_rfl) hfront
          · have hprefix := prefix_of_matchParts_lit hmatch
            rw [← hback] at hprefix
            have hnext := (List.prefix_append_right_inj (d :: front)).mp hprefix
            obtain rfl : e = c := (List.cons_prefix_cons.mp hnext).1
            rw [hs, List.cons_append, List.cons.injEq] at hback
            exact absurd (hback.2 ▸ List.mem_append_right front (List.mem_cons_self ..)) hc
    rw [List.cons_append, reSearch, ← List.cons_append, hnone, Option.none_or, ih hwithin]

/-- A text without line feeds that is in a line and its end is in the line. -/
theorem infix_of_infix_concat {t l : List Char} (ht : '\n' ∉ t) (h : t <:+: l ++ ['\n']) :
    t <:+: l := by
  rcases List.infix_concat_iff.mp h with ⟨front, hfront⟩ | h
  · rcases List.eq_nil_or_concat t with rfl | ⟨t', c, rfl⟩
    · exact List.nil_infix
    · rw [List.concat_eq_append, ← List.append_assoc] at hfront
      obtain rfl : c = '\n' := by simpa using (List.append_inj' hfront rfl).2
      exact absurd (by simp) ht
  · exact h

/-! ### The tag of a line -/

theorem toList_marker (label : String) : ("@" ++ label ++ ":").toList = tagMarker label := by
  simp [tagMarker]

theorem Tag.label_mem (tag : Tag) : tag.label ∈ tagLabels := by
  cases tag <;> simp [label, tagLabels]

/-- No label has an at sign or a line feed. -/
theorem of_mem_tagLabels {label : String} (h : label ∈ tagLabels) :
    '@' ∉ label.toList ++ [':'] ∧ '\n' ∉ tagMarker label := by
  have hall : ∀ label ∈ tagLabels, '@' ∉ label.toList ++ [':'] ∧ '\n' ∉ tagMarker label := by
    decide +kernel
  exact hall label h

/-- **No tag is found** in a line without its marker. -/
theorem tagValue_eq_none {label : String} (hlabel : label ∈ tagLabels) {text : List Char}
    (h : ¬ tagMarker label <:+: text) : tagValue label (text ++ ['\n']) = none := by
  rcases hsearch : reSearch (tagRe label) (text ++ ['\n']) with _ | groups
  · rw [tagValue, hsearch]
    rfl
  · rw [tagRe, List.append_assoc] at hsearch
    have hinfix := infix_of_reSearch_lit hsearch
    rw [toList_marker] at hinfix
    exact absurd (infix_of_infix_concat (of_mem_tagLabels hlabel).2 hinfix) h

namespace TagLine

variable {line : TagLine}

/-- **The tag of a line is found**, with its value. -/
theorem Readable.tagValue_eq (hline : line.Readable) (hlf : '\n' ∉ line.text) :
    tagValue line.tag.label (line.text ++ ['\n']) = some line.tag.value := by
  obtain ⟨front, gap, tag⟩ := line
  obtain ⟨hfront, -, hgap, hfirst, -⟩ := hline
  simp only [text] at hfront hgap hfirst hlf ⊢
  obtain ⟨hat, -⟩ := of_mem_tagLabels tag.label_mem
  generalize tag.label = label at hfront hat hlf ⊢
  generalize tag.value = value at hfirst hlf ⊢
  obtain ⟨c, back, rfl⟩ : ∃ c back, value = c :: back := by
    rcases value with _ | ⟨c, back⟩
    · exact absurd hfirst (by simp)
    · exact ⟨c, back, rfl⟩
  have hc : isSpace c = false := by simpa using hfirst
  have hvalueLf : ∀ d ∈ c :: back, decide (d ≠ '\n') = true := by
    intro d hd
    simpa using fun heq : d = '\n' => hlf (heq ▸ List.mem_append_right _ hd)
  have hvalue : Takes (group (some1 (· ≠ '\n'))) (c :: back) (fun d => d ≠ '\n') [c :: back] :=
    (Takes.some1 (List.cons_ne_nil c back) hvalueLf).group
  -- the pattern takes the marker, the blanks and the rest of the line
  have hparts := ((Takes.lit ("@" ++ label ++ ":")).append (Takes.many hgap)
    fun _ _ => stops_false _).append hvalue fun rest _ => stops_cons hc (back ++ rest)
  obtain ⟨marks, hmarks, hgroups⟩ := hparts [] ['\n'] [] (stops_cons (by simp) []) rfl
  have hcaptures := hgroups []
  rw [List.append_nil, toList_marker] at hmarks
  have hmatch : reMatch (tagRe label) (tagMarker label ++ gap ++ c :: back ++ ['\n']) =
      some [c :: back] := by
    rw [reMatch, tagRe, hmarks, Option.map_some, hcaptures]
    rfl
  -- the front does not hold the marker, so that the search gets through it
  have hskip : ∀ cs, reSearch (tagRe label) (front ++ '@' :: cs) =
      reSearch (tagRe label) ('@' :: cs) := by
    intro cs
    rw [tagRe, List.append_assoc]
    exact reSearch_lit_append (toList_marker label) hat (toList_marker label ▸ hfront) cs
  have hsearch : reSearch (tagRe label)
      (front ++ tagMarker label ++ gap ++ c :: back ++ ['\n']) = some [c :: back] := by
    have htext : front ++ tagMarker label ++ gap ++ c :: back ++ ['\n'] =
        front ++ '@' :: (label.toList ++ [':'] ++ gap ++ c :: back ++ ['\n']) := by
      simp [tagMarker]
    have hbegin : '@' :: (label.toList ++ [':'] ++ gap ++ c :: back ++ ['\n']) =
        tagMarker label ++ gap ++ c :: back ++ ['\n'] := by simp [tagMarker]
    rw [htext, hskip, reSearch, hbegin, hmatch]
    rfl
  rw [tagValue, hsearch]
  rfl

/-- **No other tag is found.** -/
theorem Readable.tagValue_of_ne (hline : line.Readable) {label : String}
    (hlabel : label ∈ tagLabels) (hne : label ≠ line.tag.label) :
    tagValue label (line.text ++ ['\n']) = none :=
  tagValue_eq_none hlabel fun h => hne (hline.others label hlabel h)

end TagLine

/-! ### Names -/

/-- A name is read without the blanks around it. -/
theorem ListedName.Readable.strip_text {entry : ListedName} (h : entry.Readable) :
    strip (String.ofList entry.text) = String.ofList entry.name := by
  have hstrip := h.stripped.append_blanks h.after
  have hfront := stripChars_blanks_append h.before (entry.name ++ entry.after)
  rw [hstrip, ← List.append_assoc] at hfront
  rw [strip, String.toList_ofList]
  exact congrArg String.ofList hfront

/-- **Names that are listed are read back.** -/
theorem splitNames_intercalate {names : List ListedName} (hne : names ≠ [])
    (hnames : ∀ entry ∈ names, entry.Readable) :
    splitNames (List.intercalate [','] (names.map ListedName.text)) = namesOf names := by
  have hcomma : ∀ text ∈ names.map ListedName.text, ',' ∉ text := by
    rintro _ htext hmem
    obtain ⟨entry, hentry, rfl⟩ := List.mem_map.mp htext
    obtain ⟨hbefore, -, hname, hafter⟩ := hnames entry hentry
    rcases List.mem_append.mp hmem with hmem | hmem
    · rcases List.mem_append.mp hmem with hmem | hmem
      · exact absurd (hbefore _ hmem) (by decide)
      · exact hname hmem
    · exact absurd (hafter _ hmem) (by decide)
  rw [splitNames, List.splitOn_intercalate ',' hcomma (by simpa using hne), List.map_map]
  exact List.map_congr_left fun entry hentry => (hnames entry hentry).strip_text

/-- A tag whose value is not empty has names. -/
theorem ne_nil_of_intercalate {names : List ListedName}
    (h : (List.intercalate [','] (names.map ListedName.text)).head?.any
      (fun c => !isSpace c) = true) : names ≠ [] := by
  rintro rfl
  exact absurd h (by simp)

/-! ### The comment -/

/-- What one more tag says. -/
def Tag.said (tags : HarnessTags) (tag : Tag) : HarnessTags where
  protos := tag.protos?.or tags.protos
  converters := tag.converters?.or tags.converters
  ldflags := tag.ldflags?.or tags.ldflags
  extras := tag.extras?.or tags.extras

theorem tagsOf_concat (tags : List Tag) (tag : Tag) :
    tagsOf (tags ++ [tag]) = tag.said (tagsOf tags) := by
  cases tag <;> simp [tagsOf, Tag.said, Tag.protos?, Tag.converters?, Tag.ldflags?, Tag.extras?]

/-- **A line with a tag is read as what the tag says.** -/
theorem TagLine.Readable.read_eq {line : TagLine} (hline : line.Readable)
    (hlf : '\n' ∉ line.text) (tags : HarnessTags) :
    tags.read (line.text ++ ['\n']) = line.tag.said tags := by
  have hother : ∀ label ∈ tagLabels, label ≠ line.tag.label →
      tagValue label (line.text ++ ['\n']) = none := fun label => hline.tagValue_of_ne
  have hown := hline.tagValue_eq hlf
  have hvalue := hline.value
  have htag := hline.tag
  generalize line.text ++ ['\n'] = text at hother hown
  generalize line.tag = tag at hother hown hvalue htag ⊢
  -- the other tags keep what they were
  cases tag with
  | protos names =>
    simp only [Tag.label] at hother hown
    have hnames := splitNames_intercalate (ne_nil_of_intercalate hvalue) htag
    rw [HarnessTags.read, hother "converters" (by decide) (by decide),
      hother "ldflags" (by decide) (by decide), hother "extras" (by decide) (by decide)]
    rw [hown, Option.map_some, Tag.value, hnames]
    rfl
  | converters names =>
    simp only [Tag.label] at hother hown
    have hnames := splitNames_intercalate (ne_nil_of_intercalate hvalue) htag
    rw [HarnessTags.read, hother "protos" (by decide) (by decide),
      hother "ldflags" (by decide) (by decide), hother "extras" (by decide) (by decide)]
    rw [hown, Option.map_some, Tag.value, hnames]
    rfl
  | extras names =>
    simp only [Tag.label] at hother hown
    have hnames := splitNames_intercalate (ne_nil_of_intercalate hvalue) htag
    rw [HarnessTags.read, hother "protos" (by decide) (by decide),
      hother "converters" (by decide) (by decide), hother "ldflags" (by decide) (by decide)]
    rw [hown, Option.map_some, Tag.value, hnames]
    rfl
  | ldflags flags after =>
    simp only [Tag.label] at hother hown
    have hflags := htag.1.append_blanks htag.2
    rw [HarnessTags.read, hother "protos" (by decide) (by decide),
      hother "converters" (by decide) (by decide), hother "extras" (by decide) (by decide)]
    rw [hown, Option.map_some, Tag.value, strip, String.toList_ofList, ← stripChars, hflags]
    rfl

/-- **A line without tags says nothing.** -/
theorem read_plain {text : List Char} (h : ∀ label ∈ tagLabels, ¬ tagMarker label <:+: text)
    (tags : HarnessTags) : tags.read (text ++ ['\n']) = tags := by
  have hnone : ∀ label ∈ tagLabels, tagValue label (text ++ ['\n']) = none := fun label hlabel =>
    tagValue_eq_none hlabel (h label hlabel)
  rw [HarnessTags.read, hnone "protos" (by decide), hnone "converters" (by decide),
    hnone "ldflags" (by decide), hnone "extras" (by decide)]
  rfl

/-- **The lines of a comment are read as what their tags say.** -/
theorem foldl_read_lines {ls : List EndedLine} (hls : ∀ line ∈ ls, line.1.Readable)
    (hends : ∀ line ∈ ls, '\n' ∉ line.1.text ∧ '\r' ∉ line.1.text) :
    (ls.map fun line => line.1.text ++ ['\n']).foldl HarnessTags.read {} =
      tagsOf (ls.filterMap fun line => line.1.tag?) := by
  induction ls using List.reverseRecOn with
  | nil => rfl
  | append_singleton ls line ih =>
    obtain ⟨hinit, hline⟩ := List.forall_mem_append.mp hls
    obtain ⟨hinitEnds, hlineEnds⟩ := List.forall_mem_append.mp hends
    have hread := hline line (List.mem_singleton_self line)
    have hlf := (hlineEnds line (List.mem_singleton_self line)).1
    rw [List.map_append, List.foldl_append, ih hinit hinitEnds, List.filterMap_append]
    obtain ⟨tagged | text, ending⟩ := line
    · exact (TagLine.Readable.read_eq hread hlf _).trans (tagsOf_concat _ _).symm
    · refine (read_plain hread.1 _).trans ?_
      rw [List.filterMap_cons_none rfl, List.filterMap_nil, List.append_nil]

/-- A line that can be read does not close the comment. -/
theorem HeaderLine.Readable.strip_ne {line : HeaderLine} (hline : line.Readable) :
    strip (String.ofList (line.text ++ ['\n'])) ≠ "*/" := by
  have hback : stripChars (line.text ++ ['\n']) = stripChars line.text := by
    rw [stripChars, stripChars, List.dropWhile_append]
    split_ifs with hempty
    · rw [List.isEmpty_iff.mp hempty]
      rfl
    · exact rstripChars_append_blanks isSpace_lineFeed _
  have hclose : "*/" = String.ofList ['*', '/'] := rfl
  rw [strip, String.toList_ofList, ← stripChars, hback, hclose, Ne, String.ofList_inj]
  cases line with
  | plain text => exact hline.2
  | tagged line =>
    intro hend
    have hat : '@' ∈ stripChars line.text := by
      have hmem := mem_strip (s := String.ofList line.text) (by decide : isSpace '@' = false)
        (by simp [TagLine.text, tagMarker])
      rwa [strip, String.toList_ofList, ← stripChars, String.toList_ofList] at hmem
    have hempty : stripChars line.text = ['*', '/'] := hend
    rw [hempty] at hat
    exact absurd hat (by decide)

/-- The lines that are read are those of the comment. -/
theorem tagLines_commentText {ls : List EndedLine} {closing rest : List Char}
    (h : ReadableComment ls closing rest) :
    tagLines (commentText ls closing rest) = ls.map fun line => line.1.text ++ ['\n'] := by
  have hne : closing ≠ [] := by
    rintro rfl
    exact absurd h.closes (by decide)
  have hhead : (closing ++ rest).head? ≠ some '\n' := by
    obtain ⟨c, back, rfl⟩ := List.exists_cons_of_ne_nil hne
    intro hc
    obtain rfl : c = '\n' := by simpa using hc
    exact h.closingLine.1 (List.mem_cons_self ..)
  obtain ⟨back, later, hback, hlast⟩ := iterLines_of_rest h.closingLine.1 hne
    (head?_universalNewlines h.rest)
  rw [tagLines, readText, commentText, String.toList_ofList, String.toList_ofList,
    List.append_assoc, iterLines_lines h.ends h.apart hhead,
    universalNewlines_append h.closingLine.2, hlast,
    List.takeWhile_append_of_pos ?_, List.takeWhile_cons_of_neg ?_, List.append_nil]
  · -- the closing line ends the reading
    have hstrip : stripChars (closing ++ back) = ['*', '/'] := by
      rw [stripChars, List.dropWhile_append]
      split_ifs with hempty
      · have hclosing := h.closes
        rw [stripChars, List.isEmpty_iff.mp hempty] at hclosing
        exact absurd hclosing (by decide)
      · rw [rstripChars_append_blanks hback]
        exact h.closes
    rw [strip, String.toList_ofList, ← stripChars, hstrip]
    decide +kernel
  · -- no line before it does
    intro l hl
    obtain ⟨line, hline, rfl⟩ := List.mem_map.mp hl
    exact decide_eq_true (h.lines line hline).strip_ne

/-- **The comment of a harness is read as what it says**, however its lines end and whatever
follows it in the file. -/
theorem parseHarnessTags_commentText (ls : List EndedLine) (closing rest : List Char)
    (h : ReadableComment ls closing rest) :
    parseHarnessTags (some (commentText ls closing rest)) =
      tagsOf (ls.filterMap fun line => line.1.tag?) := by
  rw [parseHarnessTags, tagLines_commentText h]
  exact foldl_read_lines h.lines h.ends

/-! ### A comment -/

theorem stripped_iff_all (cs : List Char) :
    (cs.head?.all (fun c => !isSpace c) = true ∧ cs.getLast?.all (fun c => !isSpace c) = true) ↔
      Stripped cs := by
  simp only [Option.all_eq_true, Bool.not_eq_true']
  exact ⟨fun h => ⟨h.1, h.2⟩, fun h => ⟨h.first, h.last⟩⟩

instance : DecidablePred Stripped := fun cs => decidable_of_iff _ (stripped_iff_all cs)

instance : DecidablePred ListedName.Readable := fun entry =>
  decidable_of_iff (entry.before.all isSpace = true ∧ Stripped entry.name ∧
      ',' ∉ entry.name ∧ entry.after.all isSpace = true)
    ⟨fun ⟨h₁, h₂, h₃, h₄⟩ => ⟨List.all_eq_true.mp h₁, h₂, h₃, List.all_eq_true.mp h₄⟩,
      fun ⟨h₁, h₂, h₃, h₄⟩ => ⟨List.all_eq_true.mpr h₁, h₂, h₃, List.all_eq_true.mpr h₄⟩⟩

instance : DecidablePred Tag.Readable
  | .protos names | .converters names | .extras names =>
    inferInstanceAs (Decidable (∀ entry ∈ names, entry.Readable))
  | .ldflags flags after => decidable_of_iff (Stripped flags ∧ after.all isSpace = true)
    (and_congr_right fun _ => List.all_eq_true)

instance : DecidablePred TagLine.Readable := fun line =>
  decidable_of_iff (¬ tagMarker line.tag.label <:+: line.front ∧
      (∀ label ∈ tagLabels, tagMarker label <:+: line.text → label = line.tag.label) ∧
      line.gap.all isSpace = true ∧
      line.tag.value.head?.any (fun c => !isSpace c) = true ∧ line.tag.Readable)
    ⟨fun ⟨h₁, h₂, h₃, h₄, h₅⟩ => ⟨h₁, h₂, List.all_eq_true.mp h₃, h₄, h₅⟩,
      fun ⟨h₁, h₂, h₃, h₄, h₅⟩ => ⟨h₁, h₂, List.all_eq_true.mpr h₃, h₄, h₅⟩⟩

instance : DecidablePred HeaderLine.Readable
  | .tagged line => inferInstanceAs (Decidable line.Readable)
  | .plain text => inferInstanceAs (Decidable
      ((∀ label ∈ tagLabels, ¬ tagMarker label <:+: text) ∧ stripChars text ≠ ['*', '/']))

/-- The comment of `mod_fuzzy_proto_session.cc`, with lines that end in different ways and a
second line about the converters. -/
def sessionComment : List EndedLine :=
  [(.plain "/*".toList, .crlf),
    (.tagged { tag := .converters [{ before := [], name := "http".toList }] }, .lf),
    (.tagged { tag := .protos [{ before := [], name := "http_request".toList },
      { name := "session_crypto".toList }] }, .crlf),
    (.tagged { front := ['\t'], gap := [], tag := .converters [
        { before := [], name := "http".toList, after := [' '] },
        { before := [], name := "session_crypto".toList, after := ['\t'] }] }, .cr),
    (.plain " *".toList, .crlf)]

theorem readable_sessionHeader :
    ReadableComment sessionComment " */".toList "\r\n// @protos: none\r\n".toList where
  lines := by decide +kernel
  ends := by decide +kernel
  apart := by decide +kernel
  closingLine := by decide +kernel
  closes := by decide +kernel
  rest := by
    intro c hc
    exact Or.inr (Option.some.inj hc).symm

/-- What a comment says is read, and what the code says later is not. -/
theorem parseHarnessTags_sessionComment :
    parseHarnessTags (some ("/*\r\n * @converters: http\n" ++
        " * @protos: http_request, session_crypto\r\n\t@converters:http ,session_crypto\t\r" ++
        " *\r\n */\r\n// @protos: none\r\n")) =
      { protos := some ["http_request", "session_crypto"]
        converters := some ["http", "session_crypto"] } := by
  have hread := parseHarnessTags_commentText sessionComment _ _ readable_sessionHeader
  have htext : commentText sessionComment " */".toList "\r\n// @protos: none\r\n".toList =
      "/*\r\n * @converters: http\n" ++
        " * @protos: http_request, session_crypto\r\n\t@converters:http ,session_crypto\t\r" ++
        " *\r\n */\r\n// @protos: none\r\n" := by decide +kernel
  have htags : tagsOf (sessionComment.filterMap fun line => line.1.tag?) =
      { protos := some ["http_request", "session_crypto"]
        converters := some ["http", "session_crypto"] } := by decide +kernel
  rw [← htext, hread, htags]

end Apatchy
