import Apatchy.Foundations.ConfigFiles

/-!
# Configuration files that are read back

What a `ConfigParser` has read can be written and read back: the reader has made sure that
every name and every value can stand in a file (`Apatchy.wellFormed_readConfig`), and
whatever can stand in a file is read as it was written (`Apatchy.readConfig_write`).

That is not so of what a program puts in. A name with an equals sign, or one that begins like
a comment, is read as something else, and so is a value with a line end. What can stand in a
file is `Apatchy.Writable`.

The round trip goes line by line. The lines of a section are its header, the lines of its
options, and a blank line, which the reader takes for one more line of the last value and
drops in the end (`Apatchy.joinValue_concat_nil`).
-/

namespace Apatchy

/-! ### What can stand in a file -/

/-- A line without line ends. -/
def IsFileLine (cs : List Char) : Prop := '\n' ∉ cs ∧ '\r' ∉ cs

/-- A text that is read as the header of a section. -/
def IsHeader (cs : List Char) : Prop := cs.head? = some '[' ∧ ']' ∈ cs.drop 2

/-- **A name that can stand before a value.** -/
structure WritableName (kc : KeyCase) (key : List Char) : Prop where
  /-- It is not empty. -/
  ne_nil : key ≠ []
  /-- It has no blanks at its ends. -/
  stripped : Stripped key
  /-- It has no delimiter. -/
  delimiter : ∀ c ∈ key, isDelimiter c = false
  /-- It does not begin like a comment. -/
  comment : isComment key = false
  /-- It is one line. -/
  line : IsFileLine key
  /-- It is in lower case. -/
  lower : kc.lower key = key

/-- **A value that can stand behind a name**, by its lines. -/
structure WritableValue (value : List Char) : Prop where
  /-- It does not end with blanks. -/
  rstrip : rstripChars value = value
  /-- Its lines have no blanks at their ends. -/
  lines : ∀ l ∈ value.splitOn '\n', Stripped l
  /-- All but the first are no comments. -/
  comment : ∀ l ∈ (value.splitOn '\n').tail, isComment l = false
  /-- It has no other line ends. -/
  line : '\r' ∉ value

/-- The line of an option with the first line of its value. -/
def optionLine (key first : List Char) : List Char := key ++ " = ".toList ++ first

/-- **An option that can stand in a file.** -/
structure Writable (kc : KeyCase) (o : List Char × List Char) : Prop where
  /-- Its name. -/
  name : WritableName kc o.1
  /-- Its value. -/
  value : WritableValue o.2
  /-- It is not read as a header. -/
  header : ¬ IsHeader (optionLine o.1 (o.2.takeWhile (· ≠ '\n')))

/-- Options that can stand in a section. -/
structure WritableOptions (kc : KeyCase) (opts : Options (List Char)) : Prop where
  /-- Their names differ. -/
  nodup : opts.keys.Nodup
  /-- Each can stand in a file. -/
  option : ∀ o ∈ opts, Writable kc o

/-- The name of a section that can stand in a header. -/
structure WritableSection (name : List Char) : Prop where
  /-- It is not empty. -/
  ne_nil : name ≠ []
  /-- It is one line. -/
  line : IsFileLine name

/-- **A parser whose options can stand in a file.** -/
structure ConfigParser.WellFormed (kc : KeyCase) (cp : ConfigParser) : Prop where
  /-- The defaults. -/
  defaults : WritableOptions kc cp.defaults
  /-- The names of the sections differ. -/
  nodup : cp.sections.keys.Nodup
  /-- None of them is the default section. -/
  named : ∀ t ∈ cp.sections, t.1 ≠ defaultSect ∧ WritableSection t.1
  /-- Their options. -/
  options : ∀ t ∈ cp.sections, WritableOptions kc t.2

/-! ### Lines -/

/-- A part of a line is one. -/
theorem IsFileLine.of_subset {cs ds : List Char} (h : IsFileLine cs) (hsub : ∀ c ∈ ds, c ∈ cs) :
    IsFileLine ds :=
  ⟨fun hmem => h.1 (hsub _ hmem), fun hmem => h.2 (hsub _ hmem)⟩

theorem mem_intercalate {sep l : List Char} {ls : List (List Char)} (h : l ∈ ls) {c : Char}
    (hc : c ∈ l) : c ∈ List.intercalate sep ls := by
  induction ls with
  | nil => exact absurd h List.not_mem_nil
  | cons l' ls ih =>
    rcases ls with _ | ⟨l'', ls⟩
    · obtain rfl := List.mem_singleton.mp h
      simpa using hc
    · rw [List.intercalate_cons_cons]
      rcases List.mem_cons.mp h with rfl | h
      · exact List.mem_append_left _ (List.mem_append_left _ hc)
      · exact List.mem_append_right _ (ih h)

theorem of_mem_intercalate {sep : List Char} {ls : List (List Char)} {c : Char}
    (h : c ∈ List.intercalate sep ls) : c ∈ sep ∨ ∃ l ∈ ls, c ∈ l := by
  induction ls with
  | nil => exact absurd h List.not_mem_nil
  | cons l ls ih =>
    rcases ls with _ | ⟨l', ls⟩
    · rw [List.intercalate_singleton] at h
      exact Or.inr ⟨l, List.mem_singleton_self l, h⟩
    · rw [List.intercalate_cons_cons, List.mem_append, List.mem_append] at h
      rcases h with (h | h) | h
      · exact Or.inr ⟨l, List.mem_cons_self .., h⟩
      · exact Or.inl h
      · exact (ih h).imp_right fun ⟨l, hl, h⟩ => ⟨l, List.mem_cons_of_mem _ hl, h⟩

/-- One more part at the end. -/
theorem intercalate_concat {sep : List Char} {ls : List (List Char)} (hne : ls ≠ [])
    (l : List Char) :
    List.intercalate sep (ls ++ [l]) = List.intercalate sep ls ++ sep ++ l := by
  obtain ⟨first, more, rfl⟩ := List.exists_cons_of_ne_nil hne
  induction more generalizing first with
  | nil => simp
  | cons l' more ih =>
    rw [List.cons_append, List.cons_append, List.intercalate_cons_cons, ← List.cons_append,
      ih l' (List.cons_ne_nil _ _), List.intercalate_cons_cons]
    simp

/-- The parts of a text are in it. -/
theorem mem_of_mem_splitOn {x c : Char} {cs part : List Char} (h : part ∈ cs.splitOn x)
    (hc : c ∈ part) : c ∈ cs := by
  have hmem := @mem_intercalate [x] _ _ h _ hc
  rwa [List.intercalate_splitOn] at hmem

/-- Lines, each with a line feed. -/
def fileText (ls : List (List Char)) : List Char := ls.flatMap (· ++ ['\n'])

theorem splitOn_fileText {ls : List (List Char)} (h : ∀ l ∈ ls, '\n' ∉ l) :
    (fileText ls).splitOn '\n' = ls ++ [[]] := by
  induction ls with
  | nil => rfl
  | cons l ls ih =>
    obtain ⟨hl, hls⟩ := List.forall_mem_cons.mp h
    have hcons : fileText (l :: ls) = l ++ '\n' :: fileText ls := by simp [fileText]
    rw [hcons, List.splitOn_append_cons_self, List.splitOn_eq_singleton hl, ih hls]
    rfl

/-- **A file is read line by line.** -/
theorem fileLines_fileText {ls : List (List Char)} (h : ∀ l ∈ ls, IsFileLine l) :
    fileLines (fileText ls) = ls := by
  have hnot : '\r' ∉ fileText ls := by
    intro hmem
    obtain ⟨l, hl, hmem⟩ := List.mem_flatMap.mp hmem
    rcases List.mem_append.mp hmem with hmem | hmem
    · exact (h l hl).2 hmem
    · exact absurd hmem (by decide)
  rw [fileLines, universalNewlines_of_not_mem hnot, splitOn_fileText fun l hl => (h l hl).1]
  simp

/-- The lines of a file are lines. -/
theorem isFileLine_of_mem_fileLines {cs l : List Char} (h : l ∈ fileLines cs) : IsFileLine l := by
  have hmem : l ∈ (universalNewlines cs).splitOn '\n' := by
    rw [fileLines] at h
    split_ifs at h
    · exact List.mem_of_mem_dropLast h
    · exact h
  exact ⟨not_mem_of_mem_splitOn hmem,
    fun hr => not_mem_universalNewlines cs (mem_of_mem_splitOn hmem hr)⟩

/-! ### Headers -/

/-- The name in a header is what is before the last bracket. -/
theorem sectionHeader_append {x y : List Char} (hy : ']' ∉ y) :
    sectionHeader ('[' :: (x ++ ']' :: y)) = if x ≠ [] then some x else none := by
  have hall : ∀ c ∈ y.reverse, decide (c ≠ ']') = true := by
    intro c hc
    simpa using fun heq : c = ']' => hy (heq ▸ List.mem_reverse.mp hc)
  have hname : ((x ++ ']' :: y).reverse.dropWhile (· ≠ ']')).tail.reverse = x := by
    have hreverse : (x ++ ']' :: y).reverse = y.reverse ++ ']' :: x.reverse := by simp
    rw [hreverse, List.dropWhile_append_of_pos hall]
    simp
  have hmem : ']' ∈ x ++ ']' :: y := by simp
  rw [sectionHeader]
  simp only [hname, hmem, true_and]

/-- A text with a bracket, at the last one. -/
theorem exists_last {c : Char} {cs : List Char} (h : c ∈ cs) :
    ∃ x y, cs = x ++ c :: y ∧ c ∉ y := by
  obtain ⟨y, x, heq, hy⟩ := List.eq_append_cons_of_mem (List.mem_reverse.mpr h)
  refine ⟨x.reverse, y.reverse, ?_, fun hmem => hy (List.mem_reverse.mp hmem)⟩
  simpa using congrArg List.reverse heq

theorem sectionHeader_eq_none_iff {value : List Char} :
    sectionHeader value = none ↔ ¬ IsHeader value := by
  rcases value with _ | ⟨c, rest⟩
  · simp [sectionHeader, IsHeader]
  rcases eq_or_ne c '[' with rfl | hc
  · by_cases hmem : ']' ∈ rest
    · obtain ⟨x, y, rfl, hy⟩ := exists_last hmem
      rw [sectionHeader_append hy]
      rcases x with _ | ⟨a, x⟩
      · simp [IsHeader, hy]
      · simp [IsHeader]
    · have htail : ']' ∉ rest.tail := fun h => hmem (List.mem_of_mem_tail h)
      simp [sectionHeader, IsHeader, hmem, htail]
  · have hnone : sectionHeader (c :: rest) = none := by
      rw [sectionHeader.eq_def]
      split
      · next heq => exact absurd (List.cons.inj heq).1 hc
      · rfl
    simp [hnone, IsHeader, hc]

/-- What is in brackets. -/
theorem sectionHeader_brackets {name : List Char} (hne : name ≠ []) :
    sectionHeader (['['] ++ name ++ [']']) = some name := by
  have happend : ['['] ++ name ++ [']'] = '[' :: (name ++ ']' :: []) := by simp
  rw [happend, sectionHeader_append List.not_mem_nil, if_pos hne]

/-- **The name in a header** is not empty, and a part of it. -/
theorem of_sectionHeader {value name : List Char} (h : sectionHeader value = some name) :
    name ≠ [] ∧ ∀ c ∈ name, c ∈ value := by
  rcases value with _ | ⟨c, rest⟩
  · simp [sectionHeader] at h
  rcases eq_or_ne c '[' with rfl | hc
  · by_cases hmem : ']' ∈ rest
    · obtain ⟨x, y, rfl, hy⟩ := exists_last hmem
      rw [sectionHeader_append hy] at h
      split_ifs at h with hx
      obtain rfl := Option.some.inj h
      exact ⟨hx, fun c hc => by simp [hc]⟩
    · simp [sectionHeader, hmem] at h
  · have hnone : sectionHeader (c :: rest) = none :=
      sectionHeader_eq_none_iff.mpr fun hheader => hc (by simpa using hheader.1)
    rw [hnone] at h
    cases h

/-! ### The lines of an option -/

/-- The name and the value of an option are found in its line. -/
theorem optionParts_append {key bs : List Char} (hkey : Stripped key)
    (hdelimiter : ∀ c ∈ key, isDelimiter c = false) (hbs : ∀ c ∈ bs, isSpace c = true) {d : Char}
    (hd : isDelimiter d = true) (rest : List Char) :
    optionParts (key ++ bs ++ d :: rest) = some (key, stripChars rest) := by
  -- neither the name nor a blank is a delimiter
  have hall : ∀ c ∈ key ++ bs, (!isDelimiter c) = true := by
    intro c hc
    rcases List.mem_append.mp hc with hc | hc
    · rw [hdelimiter c hc]
      rfl
    · have hspace := hbs c hc
      have hne : isDelimiter c = false := by
        rw [isDelimiter]
        rcases eq_or_ne c '=' with rfl | hne
        · exact absurd hspace (by decide)
        · rcases eq_or_ne c ':' with rfl | hne'
          · exact absurd hspace (by decide)
          · simp [hne, hne']
      rw [hne]
      rfl
  have hname : (key ++ bs ++ d :: rest).takeWhile (!isDelimiter ·) = key ++ bs := by
    rw [List.takeWhile_append_of_pos hall, List.takeWhile_cons_of_neg (by simp [hd]),
      List.append_nil]
  have hvalue : (key ++ bs ++ d :: rest).dropWhile (!isDelimiter ·) = d :: rest := by
    rw [List.dropWhile_append_of_pos hall, List.dropWhile_cons_of_neg (by simp [hd])]
  rw [optionParts, hvalue, hname]
  show some (rstripChars (key ++ bs), stripChars rest) = _
  rw [rstripChars_append_blanks hbs, rstripChars_of_last hkey.last]

/-- The line of an option without the blanks at its end. -/
def strippedLine (key first : List Char) : List Char :=
  key ++ [' '] ++ '=' :: if first = [] then [] else ' ' :: first

section OptionLine

variable {kc : KeyCase} {key first : List Char}

theorem stripChars_optionLine (hkey : WritableName kc key) (hfirst : Stripped first) :
    stripChars (optionLine key first) = strippedLine key first := by
  have hhead : ∀ rest, ∀ c ∈ (key ++ rest).head?, isSpace c = false := by
    intro rest c hc
    rw [List.head?_append_of_ne_nil _ hkey.ne_nil] at hc
    exact hkey.stripped.first c hc
  rcases eq_or_ne first [] with rfl | hne
  · have hstripped : Stripped (key ++ [' ', '=']) := by
      refine ⟨hhead _, fun c hc => ?_⟩
      obtain rfl : '=' = c := by simpa using hc
      decide
    have hline : optionLine key [] = key ++ [' ', '='] ++ [' '] := by simp [optionLine]
    rw [hline, hstripped.append_blanks (List.forall_mem_singleton.mpr (by decide))]
    simp [strippedLine]
  · have hstripped : Stripped (optionLine key first) := by
      refine ⟨?_, fun c hc => ?_⟩
      · rw [optionLine, List.append_assoc]
        exact hhead _
      · rw [optionLine, List.getLast?_append_of_ne_nil _ hne] at hc
        exact hfirst.last c hc
    rw [hstripped.stripChars_eq, strippedLine, if_neg hne]
    simp [optionLine]

/-- The line without its blanks is the start of the line. -/
theorem strippedLine_start (key first : List Char) :
    strippedLine key first <+: optionLine key first := by
  rw [strippedLine, optionLine]
  split_ifs with hfirst
  · exact ⟨[' '], by simp [hfirst]⟩
  · exact ⟨[], by simp⟩

theorem head?_strippedLine (hne : key ≠ []) : (strippedLine key first).head? = key.head? := by
  rw [strippedLine, List.append_assoc, List.head?_append_of_ne_nil _ hne]

theorem head?_optionLine (hne : key ≠ []) : (optionLine key first).head? = key.head? := by
  rw [optionLine, List.append_assoc, List.head?_append_of_ne_nil _ hne]

theorem isComment_strippedLine (hkey : WritableName kc key) :
    isComment (strippedLine key first) = false := by
  rw [isComment, head?_strippedLine hkey.ne_nil]
  exact hkey.comment

theorem not_isHeader_strippedLine (hne : key ≠ []) (h : ¬ IsHeader (optionLine key first)) :
    ¬ IsHeader (strippedLine key first) := by
  rintro ⟨hhead, hmem⟩
  refine h ⟨?_, ?_⟩
  · rwa [head?_optionLine hne, ← head?_strippedLine hne]
  · exact (List.IsPrefix.drop (strippedLine_start key first) 2).subset hmem

theorem optionParts_strippedLine (hkey : WritableName kc key) (hfirst : Stripped first) :
    optionParts (strippedLine key first) = some (key, first) := by
  have hspace : ∀ c ∈ [' '], isSpace c = true := List.forall_mem_singleton.mpr (by decide)
  rw [strippedLine, optionParts_append hkey.stripped hkey.delimiter hspace (by decide)]
  split_ifs with hne
  · rw [hne]
    rfl
  · have hblank : stripChars (' ' :: first) = stripChars first :=
      stripChars_blanks_append hspace first
    rw [hblank, hfirst.stripChars_eq]

/-- A line that does not begin with a blank is not indented. -/
theorem takeWhile_isSpace {cs : List Char} (h : ∀ c ∈ cs.head?, isSpace c = false) :
    cs.takeWhile isSpace = [] := by
  rcases cs with _ | ⟨c, cs⟩
  · rfl
  · simp [h c rfl]

/-- Where a section is read: its options are the last. -/
structure InSection (st : ReadingState) (done : Options (Options (List (List Char))))
    (name : List Char) (opts : Options (List (List Char))) : Prop where
  /-- The options. -/
  tables : st.tables = done ++ [(name, opts)]
  /-- The section is new. -/
  new : name ∉ done.keys
  /-- It is the one that is read. -/
  sectname : st.sectname = some name

/-- **An option is read as it was written.** -/
theorem readConfigLine_optionLine {st : ReadingState} {done : Options (Options (List (List Char)))}
    {name : List Char} {opts : Options (List (List Char))} (hst : InSection st done name opts)
    (hkey : WritableName kc key) (hfirst : Stripped first)
    (hheader : ¬ IsHeader (optionLine key first)) (hnew : key ∉ opts.keys) :
    readConfigLine kc st (optionLine key first) = .ok
      { tables := done ++ [(name, opts ++ [(key, [first])])], sectname := some name,
        optname := some key, indent := 0, bogus := st.bogus } := by
  have hindent : (optionLine key first).takeWhile isSpace = [] := by
    refine takeWhile_isSpace ?_
    rw [head?_optionLine hkey.ne_nil]
    exact hkey.stripped.first
  have hvalue_ne : strippedLine key first ≠ [] := by simp [strippedLine]
  have hheader' := sectionHeader_eq_none_iff.mpr (not_isHeader_strippedLine hkey.ne_nil hheader)
  have hlookup : (done ++ [(name, opts)] : Options (Options (List (List Char)))).lookup name =
      some opts := Options.lookup_concat hst.new opts
  have hchange : Options.change name (· ++ [(key, [first])]) (done ++ [(name, opts)]) =
      done ++ [(name, opts ++ [(key, [first])])] := Options.change_concat hst.new _ opts
  have hempty : key.isEmpty = false := by simpa using hkey.ne_nil
  rw [readConfigLine, stripChars_optionLine hkey hfirst, isComment_strippedLine hkey, hindent]
  simp only [Bool.false_eq_true, if_false, hvalue_ne, List.length_nil, Nat.not_lt_zero, and_false]
  rw [readConfigEntry, hheader']
  simp only [hst.sectname, optionParts_strippedLine hkey hfirst, hkey.lower, hst.tables, hlookup,
    Option.getD_some, hnew, if_false, hchange, hkey.ne_nil, hempty, Bool.or_false]

/-- A line is added to the last option. -/
theorem append_inSection {st : ReadingState} {done : Options (Options (List (List Char)))}
    {name : List Char} {opts : Options (List (List Char))} {ls : List (List Char)}
    (hst : InSection st done name (opts ++ [(key, ls)])) (hopt : st.optname = some key)
    (hnew : key ∉ opts.keys) (line : List Char) :
    st.append line = { st with tables := done ++ [(name, opts ++ [(key, ls ++ [line])])] } := by
  have hinner : Options.change key (· ++ [line]) (opts ++ [(key, ls)]) =
      opts ++ [(key, ls ++ [line])] := Options.change_concat hnew _ ls
  have houter : Options.change name (Options.change key (· ++ [line]))
      (done ++ [(name, opts ++ [(key, ls)])]) =
        done ++ [(name, opts ++ [(key, ls ++ [line])])] := by
    rw [Options.change_concat hst.new, hinner]
  simp only [ReadingState.append, hst.sectname, hopt, hst.tables, houter]

/-- **One more line of a value** is read as one. -/
theorem readConfigLine_more {st : ReadingState} {done : Options (Options (List (List Char)))}
    {name : List Char} {opts : Options (List (List Char))} {ls : List (List Char)}
    (hst : InSection st done name (opts ++ [(key, ls)])) (hopt : st.optname = some key)
    (hindent : st.indent = 0) (hnew : key ∉ opts.keys) {line : List Char} (hline : Stripped line)
    (hcomment : isComment line = false) :
    readConfigLine kc st ('\t' :: line) =
      .ok { st with tables := done ++ [(name, opts ++ [(key, ls ++ [line])])] } := by
  have htab : ∀ c ∈ ['\t'], isSpace c = true := List.forall_mem_singleton.mpr (by decide)
  have hvalue : stripChars ('\t' :: line) = line := by
    have hblank : stripChars ('\t' :: line) = stripChars line := stripChars_blanks_append htab line
    rw [hblank, hline.stripChars_eq]
  rw [readConfigLine, hvalue, hcomment]
  rcases eq_or_ne line [] with rfl | hne
  · simp only [Bool.false_eq_true, if_false, if_true, append_inSection hst hopt hnew]
  · have hone : ('\t' :: line).takeWhile isSpace = ['\t'] := by
      rw [List.takeWhile_cons_of_pos (htab _ (List.mem_singleton_self _)),
        takeWhile_isSpace hline.first]
    have hmore : st.sectname.isSome ∧ st.optname.isSome ∧ st.indent < 1 := by
      rw [hst.sectname, hopt, hindent]
      exact ⟨rfl, rfl, Nat.one_pos⟩
    simp only [Bool.false_eq_true, if_false, hne, hone, List.length_singleton, if_pos hmore,
      append_inSection hst hopt hnew]

/-- All the lines of a value but the first. -/
theorem foldlM_readConfigLine_more {st : ReadingState}
    {done : Options (Options (List (List Char)))} {name : List Char}
    {opts : Options (List (List Char))} {ls : List (List Char)}
    (hst : InSection st done name (opts ++ [(key, ls)])) (hopt : st.optname = some key)
    (hindent : st.indent = 0) (hnew : key ∉ opts.keys) {more : List (List Char)}
    (hmore : ∀ l ∈ more, Stripped l ∧ isComment l = false) :
    (more.map ('\t' :: ·)).foldlM (readConfigLine kc) st =
      .ok { st with tables := done ++ [(name, opts ++ [(key, ls ++ more)])] } := by
  induction more generalizing st ls with
  | nil =>
    rw [List.append_nil, ← hst.tables]
    rfl
  | cons l more ih =>
    obtain ⟨⟨hl, hcomment⟩, hrest⟩ := List.forall_mem_cons.mp hmore
    have hnext : InSection
        { st with tables := done ++ [(name, opts ++ [(key, ls ++ [l])])] } done name
          (opts ++ [(key, ls ++ [l])]) := ⟨rfl, hst.new, hst.sectname⟩
    rw [List.map_cons, List.foldlM_cons,
      readConfigLine_more hst hopt hindent hnew hl hcomment]
    show List.foldlM (readConfigLine kc) _ (more.map ('\t' :: ·)) = _
    rw [ih hnext hopt hindent hrest]
    simp

end OptionLine

/-! ### The lines of a section -/

/-- The lines of an option. -/
def optionLines (o : List Char × List Char) : List (List Char) :=
  match o.2.splitOn '\n' with
  | [] => []
  | first :: more => optionLine o.1 first :: more.map ('\t' :: ·)

/-- The lines of a section. -/
def sectionLines (t : List Char × Options (List Char)) : List (List Char) :=
  (['['] ++ t.1 ++ [']']) :: (t.2.flatMap optionLines ++ [[]])

/-- The lines of a file. -/
def ConfigParser.lines (cp : ConfigParser) : List (List Char) :=
  (if cp.defaults = [] then [] else sectionLines (defaultSect, cp.defaults)) ++
    cp.sections.flatMap sectionLines

/-- The lines of the values of some options. -/
def linesOfValues (opts : Options (List Char)) : Options (List (List Char)) :=
  opts.mapValues (List.splitOn '\n')

/-- The first line of a value. -/
theorem splitOn_newline (value : List Char) : ∃ more,
    value.splitOn '\n' = value.takeWhile (· ≠ '\n') :: more := by
  have hall : ∀ a : List Char, '\n' ∉ a → ∀ c ∈ a, decide (c ≠ '\n') = true := fun a ha c hc => by
    simpa using fun heq : c = '\n' => ha (heq ▸ hc)
  by_cases hmem : '\n' ∈ value
  · obtain ⟨a, b, rfl, ha⟩ := List.eq_append_cons_of_mem hmem
    refine ⟨b.splitOn '\n', ?_⟩
    rw [List.splitOn_append_cons_self, List.splitOn_eq_singleton ha,
      List.takeWhile_append_of_pos (hall a ha)]
    simp
  · have htake : value.takeWhile (· ≠ '\n') = value :=
      List.takeWhile_eq_self_iff.mpr (hall value hmem)
    exact ⟨[], by rw [List.splitOn_eq_singleton hmem, htake]⟩

section Section

variable {kc : KeyCase}

/-- **An option is read**: its lines are those of its value. -/
theorem foldlM_optionLines {st : ReadingState} {done : Options (Options (List (List Char)))}
    {name : List Char} {opts : Options (List (List Char))} (hst : InSection st done name opts)
    {o : List Char × List Char} (ho : Writable kc o) (hnew : o.1 ∉ opts.keys) :
    (optionLines o).foldlM (readConfigLine kc) st = .ok
      { tables := done ++ [(name, opts ++ [(o.1, o.2.splitOn '\n')])], sectname := some name,
        optname := some o.1, indent := 0, bogus := st.bogus } := by
  obtain ⟨more, hmore⟩ := splitOn_newline o.2
  have hlines := ho.value.lines
  have hcomment := ho.value.comment
  rw [hmore] at hlines hcomment
  obtain ⟨hfirst, hrest⟩ := List.forall_mem_cons.mp hlines
  rw [optionLines, hmore]
  show List.foldlM _ _ (optionLine _ _ :: _) = _
  have hfirstRead : InSection
      { tables := done ++ [(name, opts ++ [(o.1, [o.2.takeWhile (· ≠ '\n')])])],
        sectname := some name, optname := some o.1, indent := 0, bogus := st.bogus } done name
      (opts ++ [(o.1, [o.2.takeWhile (· ≠ '\n')])]) := ⟨rfl, hst.new, rfl⟩
  rw [List.foldlM_cons, readConfigLine_optionLine hst ho.name hfirst ho.header hnew]
  exact foldlM_readConfigLine_more hfirstRead rfl rfl hnew fun l hl =>
    ⟨hrest l hl, hcomment l hl⟩

/-- **The options of a section are read**, one after the other. -/
theorem foldlM_flatMap_optionLines {st : ReadingState}
    {done : Options (Options (List (List Char)))} {name : List Char}
    {opts : Options (List (List Char))} (hst : InSection st done name opts)
    {new : Options (List Char)} (hnew : ∀ o ∈ new, Writable kc o)
    (hkeys : (opts.keys ++ new.keys).Nodup) :
    ∃ st', (new.flatMap optionLines).foldlM (readConfigLine kc) st = .ok st' ∧
      InSection st' done name (opts ++ linesOfValues new) ∧ st'.bogus = st.bogus := by
  induction new generalizing st opts with
  | nil => exact ⟨st, rfl, by simpa [linesOfValues, Options.mapValues] using hst, rfl⟩
  | cons o new ih =>
    obtain ⟨ho, hrest⟩ := List.forall_mem_cons.mp hnew
    -- the option is new in its section, which is no error
    have hfresh : o.1 ∉ opts.keys := fun hmem =>
      (List.nodup_append.mp hkeys).2.2 _ hmem _ (List.mem_cons_self ..) rfl
    have hread := foldlM_optionLines hst ho hfresh
    have hnext : InSection
        { tables := done ++ [(name, opts ++ [(o.1, o.2.splitOn '\n')])], sectname := some name,
          optname := some o.1, indent := 0, bogus := st.bogus } done name
        (opts ++ [(o.1, o.2.splitOn '\n')]) := ⟨rfl, hst.new, rfl⟩
    have hkeys' : (Options.keys (opts ++ [(o.1, o.2.splitOn '\n')]) ++
        Options.keys new).Nodup := by
      rw [Options.keys_append, Options.keys_singleton, List.append_assoc]
      exact hkeys
    obtain ⟨st', hfold, hin, hbogus⟩ := ih hnext hrest hkeys'
    refine ⟨st', ?_, ?_, hbogus⟩
    · rw [List.flatMap_cons, List.foldlM_append, hread]
      exact hfold
    · rw [List.append_assoc] at hin
      exact hin

/-- **The header of a new section is read.** -/
theorem readConfigLine_header {st : ReadingState} {name : List Char} (hname : WritableSection name)
    (hnew : name ∉ st.tables.keys) : readConfigLine kc st (['['] ++ name ++ [']']) = .ok
      { tables := st.tables ++ [(name, [])], sectname := some name, optname := none, indent := 0,
        bogus := st.bogus } := by
  have hstripped : Stripped (['['] ++ name ++ [']']) := by
    refine ⟨fun c hc => ?_, fun c hc => ?_⟩
    · obtain rfl : '[' = c := by simpa using hc
      decide
    · rw [List.getLast?_append_of_ne_nil _ (List.cons_ne_nil _ _)] at hc
      obtain rfl : ']' = c := by simpa using hc
      decide
  have hcomment : isComment (['['] ++ name ++ [']']) = false := by simp [isComment]
  have hindent := takeWhile_isSpace hstripped.first
  have hne : ['['] ++ name ++ [']'] ≠ [] := by simp
  rw [readConfigLine, hstripped.stripChars_eq, hcomment, hindent]
  simp only [Bool.false_eq_true, if_false, hne, List.length_nil, Nat.not_lt_zero, and_false]
  rw [readConfigEntry, sectionHeader_brackets hname.ne_nil]
  simp only [hnew, if_false]

end Section

/-! ### Joined values -/

/-- **A blank line behind a value is dropped** when its lines are joined. -/
theorem joinValue_concat_nil (ls : List (List Char)) : joinValue (ls ++ [[]]) = joinValue ls := by
  have hblank : ∀ c ∈ ['\n'], isSpace c = true := List.forall_mem_singleton.mpr (by decide)
  rcases eq_or_ne ls [] with rfl | hne
  · rfl
  · rw [joinValue, intercalate_concat hne, List.append_nil, rstripChars_append_blanks hblank,
      joinValue]

theorem joinValue_splitOn {value : List Char} (h : WritableValue value) :
    joinValue (value.splitOn '\n') = value := by
  rw [joinValue, List.intercalate_splitOn, h.rstrip]

theorem mapValues_change {β γ : Type} {f : β → β} {g : β → γ} (hg : ∀ b, g (f b) = g b)
    (key : List Char) (opts : Options β) :
    Options.mapValues g (Options.change key f opts) = Options.mapValues g opts := by
  rw [Options.mapValues, Options.change, List.map_map]
  refine List.map_congr_left fun o _ => ?_
  show ((if o.1 = key then (o.1, f o.2) else o).1, g (if o.1 = key then (o.1, f o.2) else o).2) = _
  split_ifs
  · rw [hg]
  · rfl

theorem joinTables_append_nil (st : ReadingState) :
    joinTables (st.append []).tables = joinTables st.tables := by
  rw [ReadingState.append]
  split
  · exact mapValues_change (fun opts => mapValues_change joinValue_concat_nil _ opts) _ _
  · rfl

theorem bogus_append (st : ReadingState) (line : List Char) :
    (st.append line).bogus = st.bogus := by
  rw [ReadingState.append]
  split <;> rfl

theorem joinTables_append (tables tables' : Options (Options (List (List Char)))) :
    joinTables (tables ++ tables') = joinTables tables ++ joinTables tables' :=
  Options.mapValues_append _ _ _

theorem keys_joinTables (tables : Options (Options (List (List Char)))) :
    (joinTables tables).keys = tables.keys := Options.keys_mapValues _ _

theorem joinTables_linesOfValues {kc : KeyCase} {t : List Char × Options (List Char)}
    (h : WritableOptions kc t.2) : joinTables [(t.1, linesOfValues t.2)] = [t] := by
  have hvalues : Options.mapValues joinValue (linesOfValues t.2) = t.2 := by
    rw [Options.mapValues, linesOfValues, Options.mapValues, List.map_map]
    refine (List.map_congr_left fun o ho => ?_).trans (List.map_id _)
    show (o.1, joinValue (o.2.splitOn '\n')) = o
    rw [joinValue_splitOn (h.option o ho).value]
  show [(t.1, Options.mapValues joinValue (linesOfValues t.2))] = [t]
  rw [hvalues]

/-! ### The sections of a file -/

section Sections

variable {kc : KeyCase}

/-- **A section is read as it was written.** -/
theorem foldlM_sectionLines {st : ReadingState} {t : List Char × Options (List Char)}
    (hname : WritableSection t.1) (hnew : t.1 ∉ st.tables.keys) (hopts : WritableOptions kc t.2) :
    ∃ st', (sectionLines t).foldlM (readConfigLine kc) st = .ok st' ∧
      joinTables st'.tables = joinTables st.tables ++ [t] ∧ st'.bogus = st.bogus := by
  have hstart : InSection
      { tables := st.tables ++ [(t.1, [])], sectname := some t.1, optname := none, indent := 0,
        bogus := st.bogus } st.tables t.1 [] := ⟨rfl, hnew, rfl⟩
  obtain ⟨st', hfold, hin, hbogus⟩ :=
    foldlM_flatMap_optionLines hstart hopts.option (by simpa using hopts.nodup)
  have hblank : readConfigLine kc st' [] = .ok (st'.append []) := rfl
  refine ⟨st'.append [], ?_, ?_, ?_⟩
  · rw [sectionLines, List.foldlM_cons, readConfigLine_header hname hnew]
    show List.foldlM (readConfigLine kc) _ (_ ++ [[]]) = _
    rw [List.foldlM_append, hfold]
    show List.foldlM (readConfigLine kc) st' [[]] = _
    rw [List.foldlM_cons, hblank]
    rfl
  · rw [joinTables_append_nil, hin.tables, joinTables_append, List.nil_append,
      joinTables_linesOfValues hopts]
  · rw [bogus_append, hbogus]

/-- **The sections of a file are read as they were written.** -/
theorem foldlM_flatMap_sectionLines {st : ReadingState} {ts : Options (Options (List Char))}
    (hts : ∀ t ∈ ts, WritableSection t.1 ∧ WritableOptions kc t.2)
    (hkeys : (st.tables.keys ++ ts.keys).Nodup) :
    ∃ st', (ts.flatMap sectionLines).foldlM (readConfigLine kc) st = .ok st' ∧
      joinTables st'.tables = joinTables st.tables ++ ts ∧ st'.bogus = st.bogus := by
  induction ts generalizing st with
  | nil => exact ⟨st, rfl, by simp, rfl⟩
  | cons t ts ih =>
    obtain ⟨⟨hname, hopts⟩, hrest⟩ := List.forall_mem_cons.mp hts
    have hnew : t.1 ∉ st.tables.keys := fun hmem =>
      (List.nodup_append.mp hkeys).2.2 _ hmem _ (List.mem_cons_self ..) rfl
    obtain ⟨st₁, hfold₁, htables₁, hbogus₁⟩ := foldlM_sectionLines hname hnew hopts
    have hkeys₁ : (st₁.tables.keys ++ Options.keys ts).Nodup := by
      rw [← keys_joinTables, htables₁, Options.keys_append, keys_joinTables, List.append_assoc]
      exact hkeys
    obtain ⟨st₂, hfold₂, htables₂, hbogus₂⟩ := ih hrest hkeys₁
    refine ⟨st₂, ?_, ?_, hbogus₂.trans hbogus₁⟩
    · rw [List.flatMap_cons, List.foldlM_append, hfold₁]
      exact hfold₂
    · rw [htables₂, htables₁, List.append_assoc]
      rfl

/-- A line that is read before the first header and says nothing. -/
def IsPreamble (line : List Char) : Prop :=
  stripChars line = [] ∨ isComment (stripChars line) = true

theorem foldlM_preamble {front : List (List Char)} (h : ∀ l ∈ front, IsPreamble l) :
    front.foldlM (readConfigLine kc) {} = .ok {} := by
  refine foldlM_eq_self fun l hl => ?_
  rw [readConfigLine]
  rcases h l hl with hl | hl
  · rw [hl]
    rfl
  · rw [hl]
    rfl

/-- The sections with the defaults, where there are some. -/
def ConfigParser.tables (cp : ConfigParser) : Options (Options (List Char)) :=
  (if cp.defaults = [] then [] else [(defaultSect, cp.defaults)]) ++ cp.sections

theorem lines_eq (cp : ConfigParser) : cp.lines = cp.tables.flatMap sectionLines := by
  rw [ConfigParser.lines, ConfigParser.tables, List.flatMap_append]
  split_ifs <;> simp

/-- The name of the default section. -/
theorem writableSection_default : WritableSection defaultSect :=
  ⟨by decide, by decide, by decide⟩

theorem writable_tables {cp : ConfigParser} (h : cp.WellFormed kc) :
    (∀ t ∈ cp.tables, WritableSection t.1 ∧ WritableOptions kc t.2) ∧ cp.tables.keys.Nodup := by
  have hnot : defaultSect ∉ cp.sections.keys := by
    intro hmem
    obtain ⟨t, ht, heq⟩ := List.mem_map.mp hmem
    exact (h.named t ht).1 heq
  rw [ConfigParser.tables]
  constructor
  · intro t ht
    rcases List.mem_append.mp ht with ht | ht
    · split_ifs at ht
      · exact absurd ht List.not_mem_nil
      · obtain rfl := List.mem_singleton.mp ht
        exact ⟨writableSection_default, h.defaults⟩
    · exact ⟨(h.named t ht).2, h.options t ht⟩
  · rw [Options.keys_append]
    split_ifs
    · exact h.nodup
    · exact List.nodup_cons.mpr ⟨hnot, h.nodup⟩

/-- The parser with given sections. -/
theorem parser_eq {st : ReadingState} {cp : ConfigParser}
    (hnames : ∀ t ∈ cp.sections, t.1 ≠ defaultSect)
    (htables : joinTables st.tables = cp.tables) : st.parser = cp := by
  have hfilter : cp.sections.filter (fun t => t.1 ≠ defaultSect) = cp.sections :=
    List.filter_eq_self.mpr fun t ht => by simpa using hnames t ht
  have hnone : cp.sections.lookup defaultSect = none := by
    refine Options.lookup_eq_none fun hmem => ?_
    obtain ⟨t, ht, heq⟩ := List.mem_map.mp hmem
    exact hnames t ht heq
  obtain ⟨defaults, sections⟩ := cp
  rw [ReadingState.parser, htables, ConfigParser.tables]
  simp only at hfilter hnone ⊢
  split_ifs with hempty
  · simp only [List.nil_append, hnone, hfilter, Option.getD_none, hempty]
  · simp only [List.singleton_append, List.lookup_cons_self, Option.getD_some]
    rw [List.filter_cons_of_neg (by simp), hfilter]

end Sections

/-! ### The text of a file -/

theorem fileText_append (ls ls' : List (List Char)) :
    fileText (ls ++ ls') = fileText ls ++ fileText ls' := List.flatMap_append

theorem replaceChars_newline (cs : List Char) : replaceChars ['\n'] ['\n', '\t'] 0 cs =
    cs.flatMap fun c => if c = '\n' then ['\n', '\t'] else [c] := by
  induction cs with
  | nil => rfl
  | cons c cs ih =>
    rw [replaceChars, List.flatMap_cons, ← ih]
    rcases eq_or_ne c '\n' with rfl | hc
    · rfl
    · have hnot : ['\n'].isPrefixOf (c :: cs) = false := by
        simp [List.isPrefixOf, hc.symm]
      rw [hnot, if_neg hc]
      rfl

/-- **Further lines are indented.** -/
theorem replaceChars_intercalate {first : List Char} {more : List (List Char)}
    (h : ∀ l ∈ first :: more, '\n' ∉ l) :
    replaceChars ['\n'] ['\n', '\t'] 0 (List.intercalate ['\n'] (first :: more)) =
      first ++ more.flatMap fun l => '\n' :: '\t' :: l := by
  have hplain : ∀ l : List Char, '\n' ∉ l →
      (l.flatMap fun c => if c = '\n' then ['\n', '\t'] else [c]) = l := by
    intro l hl
    refine (List.flatMap_congr fun c hc => ?_).trans (List.flatMap_singleton' l)
    exact if_neg fun heq : c = '\n' => hl (heq ▸ hc)
  rw [replaceChars_newline]
  induction more generalizing first with
  | nil =>
    rw [List.intercalate_singleton, hplain _ (h _ (List.mem_cons_self ..))]
    simp
  | cons l more ih =>
    obtain ⟨hfirst, hmore⟩ := List.forall_mem_cons.mp h
    rw [List.intercalate_cons_cons, List.flatMap_append, List.flatMap_append, hplain _ hfirst,
      ih hmore]
    simp

/-- The lines of an option make up its text. -/
theorem fileText_optionLines (o : List Char × List Char) :
    fileText (optionLines o) = writeOption o := by
  obtain ⟨more, hmore⟩ := splitOn_newline o.2
  have hlines : ∀ l ∈ o.2.takeWhile (· ≠ '\n') :: more, '\n' ∉ l := by
    rw [← hmore]
    exact fun l hl => not_mem_of_mem_splitOn hl
  have hvalue := replaceChars_intercalate hlines
  rw [← hmore, List.intercalate_splitOn] at hvalue
  have hlast : ∀ ls : List (List Char), fileText (ls.map ('\t' :: ·)) =
      (ls.flatMap fun l => '\t' :: (l ++ ['\n'])) := fun ls => by
    simp [fileText, List.flatMap_map]
  have hshift : ∀ ls : List (List Char), '\n' :: (ls.flatMap fun l => '\t' :: (l ++ ['\n'])) =
      (ls.flatMap fun l => '\n' :: '\t' :: l) ++ ['\n'] := fun ls => by
    induction ls with
    | nil => rfl
    | cons l ls ih => simp [ih]
  rw [writeOption, hvalue, optionLines, hmore]
  show optionLine _ _ ++ ['\n'] ++ fileText (more.map ('\t' :: ·)) = _
  rw [hlast, optionLine, List.append_assoc _ ['\n'], List.singleton_append, hshift]
  simp

theorem fileText_sectionLines (t : List Char × Options (List Char)) :
    fileText (sectionLines t) = writeSection t := by
  have hopts : fileText (t.2.flatMap optionLines) = t.2.flatMap writeOption := by
    rw [fileText, List.flatMap_assoc]
    exact List.flatMap_congr fun o _ => fileText_optionLines o
  have hcons : ∀ (l : List Char) (ls : List (List Char)),
      fileText (l :: ls) = l ++ ['\n'] ++ fileText ls := fun l ls => rfl
  rw [sectionLines, hcons, fileText_append, hopts, writeSection]
  simp [fileText]

/-- **A parser is written line by line.** -/
theorem fileText_lines (cp : ConfigParser) : fileText cp.lines = cp.write := by
  have hsections : ∀ ts : Options (Options (List Char)),
      fileText (ts.flatMap sectionLines) = ts.flatMap writeSection := fun ts => by
    rw [fileText, List.flatMap_assoc]
    exact List.flatMap_congr fun t _ => fileText_sectionLines t
  rw [ConfigParser.lines, fileText_append, hsections, ConfigParser.write]
  split_ifs
  · rfl
  · rw [fileText_sectionLines]

section Text

variable {kc : KeyCase}

theorem isFileLine_append {a b : List Char} (ha : IsFileLine a) (hb : IsFileLine b) :
    IsFileLine (a ++ b) :=
  ⟨by simp [ha.1, hb.1], by simp [ha.2, hb.2]⟩

theorem isFileLine_optionLines {o : List Char × List Char} (ho : Writable kc o) :
    ∀ l ∈ optionLines o, IsFileLine l := by
  obtain ⟨more, hmore⟩ := splitOn_newline o.2
  have hlines : ∀ l ∈ o.2.takeWhile (· ≠ '\n') :: more, IsFileLine l := by
    rw [← hmore]
    exact fun l hl => ⟨not_mem_of_mem_splitOn hl,
      fun hr => ho.value.line (mem_of_mem_splitOn hl hr)⟩
  obtain ⟨hfirst, hrest⟩ := List.forall_mem_cons.mp hlines
  rw [optionLines, hmore]
  intro l hl
  rcases List.mem_cons.mp hl with rfl | hl
  · exact isFileLine_append (isFileLine_append ho.name.line ⟨by decide, by decide⟩) hfirst
  · obtain ⟨l, hmem, rfl⟩ := List.mem_map.mp hl
    have htab : IsFileLine ['\t'] := ⟨by decide, by decide⟩
    exact isFileLine_append htab (hrest l hmem)

theorem isFileLine_sectionLines {t : List Char × Options (List Char)} (hname : WritableSection t.1)
    (hopts : WritableOptions kc t.2) : ∀ l ∈ sectionLines t, IsFileLine l := by
  intro l hl
  rcases List.mem_cons.mp hl with rfl | hl
  · exact isFileLine_append (isFileLine_append ⟨by decide, by decide⟩ hname.line)
      ⟨by decide, by decide⟩
  · rcases List.mem_append.mp hl with hl | hl
    · obtain ⟨o, ho, hl⟩ := List.mem_flatMap.mp hl
      exact isFileLine_optionLines (hopts.option o ho) l hl
    · obtain rfl := List.mem_singleton.mp hl
      exact ⟨List.not_mem_nil, List.not_mem_nil⟩

/-- **What is written is read back**, behind a preamble. -/
theorem readConfig_write {cp : ConfigParser} (h : cp.WellFormed kc) {front : List (List Char)}
    (hfront : ∀ l ∈ front, IsPreamble l ∧ IsFileLine l) :
    readConfig kc (some (fileText front ++ cp.write)) = .ok cp := by
  obtain ⟨htables, hnodup⟩ := writable_tables h
  have hlines : ∀ l ∈ front ++ cp.lines, IsFileLine l := by
    intro l hl
    rcases List.mem_append.mp hl with hl | hl
    · exact (hfront l hl).2
    · rw [lines_eq] at hl
      obtain ⟨t, ht, hl⟩ := List.mem_flatMap.mp hl
      exact isFileLine_sectionLines (htables t ht).1 (htables t ht).2 l hl
  have hkeys : (Options.keys ({} : ReadingState).tables ++ cp.tables.keys).Nodup := hnodup
  obtain ⟨st, hfold, hread, hbogus⟩ := foldlM_flatMap_sectionLines htables hkeys
  have hall : (front ++ cp.lines).foldlM (readConfigLine kc) {} = .ok st := by
    rw [List.foldlM_append, foldlM_preamble fun l hl => (hfront l hl).1, lines_eq]
    exact hfold
  have hparser : st.parser = cp :=
    parser_eq (fun t ht => (h.named t ht).1) (by rw [hread]; rfl)
  rw [← fileText_lines, ← fileText_append, readConfig, fileLines_fileText hlines, hall]
  show (if st.bogus then _ else Except.ok st.parser) = _
  rw [hbogus, hparser]
  rfl

end Text

end Apatchy
