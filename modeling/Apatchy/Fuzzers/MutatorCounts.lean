import Apatchy.Fuzzers.LibFuzzerUI

/-!
# The counts of mutators

A status line of libFuzzer ends with the mutators that made the new input, each followed by
a hyphen, and the entries of the dictionary they used, in quotes and each followed by a
hyphen too (`Apatchy.sequenceText`). The last group of `_STATUS_RE` takes all of that
(`Apatchy.reMatch_statusText`), and what is between two hyphens is counted if it is the name
of a mutator.

An entry may have hyphens of its own, and then what is between two of them is counted as
well: the counters grow by the mutators of the line exactly if no entry has a mutator there
(`Apatchy.countsMutators_iff`).
-/

namespace Apatchy

/-! ### The head of a status line -/

/-- A value in a status line, with the blanks before and behind it. -/
structure StatusField where
  /-- The blanks behind the name. -/
  before : List Char := [' ']
  /-- The value. -/
  value : List Char
  /-- The blanks behind the value. -/
  behind : List Char := [' ']

/-- Blanks, and at least one. -/
def IsGap (cs : List Char) : Prop := cs ≠ [] ∧ ∀ c ∈ cs, isSpace c = true

/-- Characters of a kind, and at least one. -/
def IsRun (p : Char → Bool) (cs : List Char) : Prop := cs ≠ [] ∧ ∀ c ∈ cs, p c = true

namespace StatusField

/-- What a field spells, with its name. -/
def text (name : String) (f : StatusField) : List Char :=
  name.toList ++ f.before ++ f.value ++ f.behind

/-- **A field with a value of a kind**: there are only blanks before it, and at least one
behind it. -/
structure Of (p : Char → Bool) (f : StatusField) : Prop where
  /-- Blanks before the value. -/
  before : ∀ c ∈ f.before, isSpace c = true
  /-- The value. -/
  value : IsRun p f.value
  /-- Blanks behind the value. -/
  behind : IsGap f.behind

/-- A field with more behind its value. -/
def extend (f : StatusField) (more : List Char) : StatusField := { f with value := f.value ++ more }

end StatusField

/-- What is in the status line of a new input before the mutators. -/
structure StatusHead where
  /-- The number of executions. -/
  run : List Char
  /-- The blanks behind it. -/
  runGap : List Char := ['\t']
  /-- The blanks behind the event. -/
  eventGap : List Char := [' ']
  /-- The edges. -/
  cov : StatusField
  /-- The features. -/
  ft : StatusField
  /-- The number of files of the corpus. -/
  corp : StatusField
  /-- Their size. -/
  corpSize : List Char
  /-- The limit of the length. -/
  limit : StatusField
  /-- The executions per second. -/
  execS : StatusField
  /-- The memory in megabytes. -/
  rss : StatusField
  /-- The length of the input. -/
  length : StatusField
  /-- The number of mutators. -/
  ms : StatusField

namespace StatusHead

/-- **The fields are what they should be**: numbers, and two texts without blanks. -/
structure WellFormed (kinds : CharKinds) (h : StatusHead) : Prop where
  /-- A number. -/
  run : IsRun kinds.isDigit h.run
  /-- Blanks. -/
  runGap : IsGap h.runGap
  /-- Blanks. -/
  eventGap : IsGap h.eventGap
  /-- A number. -/
  cov : h.cov.Of kinds.isDigit
  /-- A number. -/
  ft : h.ft.Of kinds.isDigit
  /-- A number. -/
  corp : h.corp.Of kinds.isDigit
  /-- A text without blanks. -/
  corpSize : IsRun (fun c => !isSpace c) h.corpSize
  /-- A number. -/
  limit : h.limit.Of kinds.isDigit
  /-- A number. -/
  execS : h.execS.Of kinds.isDigit
  /-- A number. -/
  rss : h.rss.Of kinds.isDigit
  /-- A text without blanks. -/
  length : h.length.Of fun c => !isSpace c
  /-- A number. -/
  ms : h.ms.Of kinds.isDigit

/-- The line up to the number of mutators. -/
def front (h : StatusHead) : List Char :=
  "#".toList ++ h.run ++ h.runGap ++ "NEW".toList ++ h.eventGap ++ h.cov.text "cov:" ++
    h.ft.text "ft:" ++ (h.corp.extend ('/' :: h.corpSize)).text "corp:" ++
    h.limit.text "lim:" ++ h.execS.text "exec/s:" ++ (h.rss.extend ['M', 'b']).text "rss:" ++
    h.length.text "L:"

/-- **The line up to the mutators.** -/
def text (h : StatusHead) : List Char := h.front ++ h.ms.text "MS:"

/-- Its groups. -/
def groups (h : StatusHead) : List (List Char) :=
  [h.run, "NEW".toList, h.cov.value, h.ft.value, h.corp.value, h.corpSize, h.limit.value,
    h.execS.value, h.rss.value ++ ['M', 'b'], h.length.value]

end StatusHead

/-! ### The status line is matched -/

section Match

theorem takes_gap {cs : List Char} (h : IsGap cs) : Takes blanks1 cs isSpace [] :=
  Takes.some1 h.1 h.2

theorem takes_run {p : Char → Bool} {cs : List Char} (h : IsRun p cs) : Takes (some1 p) cs p [] :=
  Takes.some1 h.1 h.2

/-- What is not empty stops what none of its characters goes on with. -/
theorem stops_run {p q : Char → Bool} {cs : List Char} (h : IsRun p cs)
    (hpq : ∀ c, p c = true → q c = false) (rest : List Char) : Stops q (cs ++ rest) :=
  stops_append h.1 (fun c hc => hpq c (h.2 c hc)) rest

/-- **A field is taken**, if its value is, and the value does not begin with a blank nor go
on with one. -/
theorem takes_field {parts : List PatternPart} {p : Char → Bool} {groups : List (List Char)}
    {name : String} {f : StatusField} (hbefore : ∀ c ∈ f.before, isSpace c = true)
    (hvalue : Takes parts f.value p groups) (hne : ∀ rest, Stops isSpace (f.value ++ rest))
    (hp : ∀ c, isSpace c = true → p c = false) (hbehind : IsGap f.behind) :
    Takes (lit name ++ blanks ++ parts ++ blanks1) (f.text name) isSpace groups := by
  have hblanks : Takes blanks f.before isSpace [] := Takes.many hbefore
  have hfront : Takes (lit name ++ blanks) (name.toList ++ f.before) isSpace [] :=
    (Takes.lit name).append hblanks fun _ _ => stops_false _
  have hmiddle :
      Takes (lit name ++ blanks ++ parts) (name.toList ++ f.before ++ f.value) p groups :=
    hfront.append hvalue fun rest _ => hne rest
  have hall := hmiddle.append (takes_gap hbehind) fun rest _ => stops_run hbehind hp rest
  rwa [List.append_nil] at hall

variable {kinds : CharKinds}

/-- A field with one group. -/
theorem takes_groupField {p : Char → Bool} (name : String) {f : StatusField} (hf : f.Of p)
    (hp : ∀ c, isSpace c = true → p c = false) :
    Takes (lit name ++ blanks ++ group (some1 p) ++ blanks1) (f.text name) isSpace [f.value] := by
  refine takes_field hf.before (takes_run hf.value).group (fun rest => ?_) hp hf.behind
  refine stops_run hf.value (fun c hc => ?_) rest
  by_contra hspace
  simp [hp c (by simpa using hspace)] at hc

theorem digit_of_isSpace (kinds : CharKinds) (c : Char) (h : isSpace c = true) :
    kinds.isDigit c = false := kinds.isDigit_of_isSpace h

theorem nonBlank_of_isSpace (c : Char) (h : isSpace c = true) : (!isSpace c) = false := by
  simp [h]

/-- The field of the corpus has two groups. -/
theorem takes_corp {h : StatusHead} (hwf : h.WellFormed kinds) :
    Takes (lit "corp:" ++ blanks ++ group (digits kinds) ++ lit "/" ++ group nonBlanks ++ blanks1)
      ((h.corp.extend ('/' :: h.corpSize)).text "corp:") isSpace [h.corp.value, h.corpSize] := by
  have hslash : kinds.isDigit '/' = false := kinds.isDigit_ascii '/' (by decide)
  have hnumber : Takes (group (digits kinds) ++ lit "/") (h.corp.value ++ ['/'])
      (fun _ => false) [h.corp.value] :=
    (takes_run hwf.corp.value).group.append (Takes.lit "/") fun rest _ => stops_cons hslash rest
  have hboth := hnumber.append (takes_run hwf.corpSize).group fun _ _ => stops_false _
  have hfield : Takes (lit "corp:" ++ blanks ++ (group (digits kinds) ++ lit "/" ++
      group nonBlanks) ++ blanks1) ((h.corp.extend ('/' :: h.corpSize)).text "corp:") isSpace
        [h.corp.value, h.corpSize] := by
    refine takes_field hwf.corp.before (by simpa [StatusField.extend, nonBlanks] using hboth) ?_
      nonBlank_of_isSpace hwf.corp.behind
    intro rest
    simp only [StatusField.extend, List.append_assoc]
    exact stops_run hwf.corp.value (fun c => kinds.isSpace_of_isDigit) _
  simpa [List.append_assoc] using hfield

/-- The field of the memory has its unit in the group. -/
theorem takes_rss {h : StatusHead} (hwf : h.WellFormed kinds) :
    Takes (lit "rss:" ++ blanks ++ group (digits kinds ++ lit "Mb") ++ blanks1)
      ((h.rss.extend ['M', 'b']).text "rss:") isSpace [h.rss.value ++ ['M', 'b']] := by
  have hunit : kinds.isDigit 'M' = false := kinds.isDigit_ascii 'M' (by decide)
  have hvalue : Takes (digits kinds ++ lit "Mb") (h.rss.value ++ ['M', 'b']) (fun _ => false) [] :=
    (takes_run hwf.rss.value).append (Takes.lit "Mb") fun rest _ => stops_cons hunit _
  refine takes_field hwf.rss.before hvalue.group ?_ (fun _ _ => rfl) hwf.rss.behind
  intro rest
  simp only [StatusField.extend, List.append_assoc]
  exact stops_run hwf.rss.value (fun c => kinds.isSpace_of_isDigit) _

/-- What a field spells begins with its name. -/
theorem stops_text {name : String} (hname : name.toList.head?.map isSpace = some false)
    (f : StatusField) (rest : List Char) : Stops isSpace (f.text name ++ rest) := by
  obtain ⟨c, hc, hspace⟩ := Option.map_eq_some_iff.mp hname
  obtain ⟨cs, hcs⟩ := List.head?_eq_some_iff.mp hc
  simp only [StatusField.text, List.append_assoc, hcs, List.cons_append]
  exact stops_cons hspace _

/-- **The status line of a new input is matched**, and its last group is what comes behind
the number of mutators. -/
theorem reMatch_text {h : StatusHead} (hwf : h.WellFormed kinds) {seq : List Char}
    (hnewline : '\n' ∉ seq) (hstops : Stops isSpace seq) :
    reMatch (statusRe kinds) (h.text ++ seq) = some (h.groups ++ [seq]) := by
  have hspace := digit_of_isSpace kinds
  have hword : IsRun kinds.isWord "NEW".toList := by
    refine ⟨by decide, fun c hc => ?_⟩
    have hascii : c.toNat < 128 ∧ (c.isAlphanum || c == '_') = true := by
      have hall :
          ("NEW".toList.all fun c => c.toNat < 128 && (c.isAlphanum || c == '_')) = true := by
        decide
      simpa using List.all_eq_true.mp hall c hc
    rw [kinds.isWord_ascii c hascii.1, hascii.2]
  have hlast : Takes (group [.many (· ≠ '\n')]) seq (fun c => c ≠ '\n') [seq] := by
    refine (Takes.many fun c hc => ?_).group
    have hne : c ≠ '\n' := fun heq => hnewline (heq ▸ hc)
    simpa using hne
  have hms : Takes (lit "MS:" ++ blanks ++ digits kinds ++ blanks1) (h.ms.text "MS:") isSpace [] :=
    takes_field hwf.ms.before (takes_run hwf.ms.value)
      (fun rest => stops_run hwf.ms.value (fun c => kinds.isSpace_of_isDigit) rest) hspace
      hwf.ms.behind
  -- one part after another: what is behind a part cannot go on with it, so that none gives back
  have hnumber := (Takes.lit "#").append (takes_run hwf.run).group fun _ _ => stops_false _
  have hrun := hnumber.append (takes_gap hwf.runGap) fun rest _ => stops_run hwf.runGap hspace rest
  have hnew := hrun.append (takes_run hword).group fun rest _ =>
    stops_run hword (fun c hc => kinds.not_isSpace_of_isWord c hc) rest
  have hevent := hnew.append (takes_gap hwf.eventGap) fun rest _ =>
    stops_run hwf.eventGap (fun c hc => kinds.isWord_of_isSpace hc) rest
  have hcov := hevent.append (takes_groupField "cov:" hwf.cov hspace) fun rest _ =>
    stops_text (by decide) _ rest
  have hft := hcov.append (takes_groupField "ft:" hwf.ft hspace) fun rest _ =>
    stops_text (by decide) _ rest
  have hcorp := hft.append (takes_corp hwf) fun rest _ => stops_text (by decide) _ rest
  have hlimit := hcorp.append (takes_groupField "lim:" hwf.limit hspace) fun rest _ =>
    stops_text (by decide) _ rest
  have hexec := hlimit.append (takes_groupField "exec/s:" hwf.execS hspace)
    fun rest _ => stops_text (by decide) _ rest
  have hrss := hexec.append (takes_rss hwf) fun rest _ => stops_text (by decide) _ rest
  have hlength := hrss.append (takes_groupField "L:" hwf.length nonBlank_of_isSpace)
    fun rest _ => stops_text (by decide) _ rest
  -- the sequence is what is left of the line
  have hback : Takes (lit "MS:" ++ blanks ++ digits kinds ++ blanks1 ++ group [.many (· ≠ '\n')])
      (h.ms.text "MS:" ++ seq) (fun _ => true) [seq] := by
    refine hms.append hlast.atEnd fun rest hrest => ?_
    rw [eq_nil_of_stops hrest, List.append_nil]
    exact hstops
  have hall := (hlength.append hback fun rest _ => by
    rw [List.append_assoc]
    exact stops_text (by decide) _ _).reMatch
  have htext : h.text ++ seq = h.front ++ (h.ms.text "MS:" ++ seq) := List.append_assoc ..
  rw [htext]
  exact hall

/-- Blanks behind the number of mutators belong to the gap. -/
theorem reMatch_statusText {h : StatusHead} (hwf : h.WellFormed kinds) {seq : List Char}
    (hnewline : '\n' ∉ seq) :
    reMatch (statusRe kinds) (h.text ++ seq) = some (h.groups ++ [seq.dropWhile isSpace]) := by
  have hsplit : seq.takeWhile isSpace ++ seq.dropWhile isSpace = seq :=
    List.takeWhile_append_dropWhile
  -- the head of the line with all the blanks behind the number
  let h' : StatusHead :=
    { h with ms := { h.ms with behind := h.ms.behind ++ seq.takeWhile isSpace } }
  have hwf' : h'.WellFormed kinds := by
    refine { hwf with ms := ⟨hwf.ms.before, hwf.ms.value, ?_, ?_⟩ }
    · exact List.append_ne_nil_of_left_ne_nil hwf.ms.behind.1 _
    · intro c hc
      rcases List.mem_append.mp hc with hc | hc
      · exact hwf.ms.behind.2 c hc
      · exact List.mem_takeWhile_imp hc
  have htext : h.text ++ seq = h'.text ++ seq.dropWhile isSpace := by
    have hms : h'.ms.text "MS:" = h.ms.text "MS:" ++ seq.takeWhile isSpace := by
      simp [h', StatusField.text]
    have hfront : h'.front = h.front := rfl
    rw [StatusHead.text, StatusHead.text, hms, hfront, List.append_assoc, List.append_assoc,
      List.append_assoc, hsplit]
  have hgroups : h'.groups = h.groups := rfl
  rw [htext, ← hgroups]
  exact reMatch_text hwf' (fun hmem => hnewline ((List.dropWhile_suffix _).subset hmem))
    (stops_dropWhile isSpace seq)

end Match

/-! ### Mutators and entries -/

/-- The name of a mutator: it is not empty, and has no hyphen and no blank. -/
structure IsMutatorName (m : List Char) : Prop where
  /-- It is not empty. -/
  ne_nil : m ≠ []
  /-- It has no hyphen. -/
  hyphen : '-' ∉ m
  /-- It has no blank. -/
  blank : ∀ c ∈ m, isSpace c = false

/-- The mutators, each followed by a hyphen. -/
def mutatorText (ms : List (List Char)) : List Char := ms.flatMap fun m => m ++ ['-']

/-- An entry of a dictionary, in quotes. -/
def quoted (e : List Char) : List Char := ['"'] ++ e ++ ['"']

/-- The entries, each in quotes and followed by a hyphen. -/
def entriesText (es : List (List Char)) : List Char := es.flatMap fun e => quoted e ++ ['-']

/-- **The mutators, and the entries of the dictionary if there are any.** -/
def sequenceText (ms : List (List Char)) (de : Option (List (List Char))) : List Char :=
  mutatorText ms ++ match de with
    | none => []
    | some es => " DE: ".toList ++ entriesText es

/-- What is between two hyphens and is counted. -/
def countedParts (cs : List Char) : List String :=
  ((cs.splitOn '-').map fun part => strip (String.ofList part)).filter (· ∈ knownMutators)

/-- The mutators that stand between two hyphens of an entry. -/
def straysOf (e : List Char) : List String :=
  ((innerParts '-' e).map fun part => strip (String.ofList part)).filter (· ∈ knownMutators)

/-- The names that are mutators. -/
def knownOf (ms : List (List Char)) : List String :=
  (ms.map String.ofList).filter (· ∈ knownMutators)

theorem not_known_of_mem_quote {s : String} (h : '"' ∈ s.toList) : strip s ∉ knownMutators := by
  intro hknown
  have hquote : '"' ∈ (strip s).toList := mem_strip (by decide) h
  have hall : knownMutators.all (fun name => !name.toList.contains '"') = true := by decide
  have hname := List.all_eq_true.mp hall _ hknown
  simp [hquote] at hname

/-- The parts of a text behind mutators are theirs and its own. -/
theorem splitOn_mutatorText {ms : List (List Char)} (hms : ∀ m ∈ ms, IsMutatorName m)
    (cs : List Char) : (mutatorText ms ++ cs).splitOn '-' = ms ++ cs.splitOn '-' := by
  induction ms with
  | nil => rfl
  | cons m ms ih =>
    have hm := hms m (List.mem_cons_self ..)
    have hcons : mutatorText (m :: ms) ++ cs = m ++ '-' :: (mutatorText ms ++ cs) := by
      simp [mutatorText]
    rw [hcons, List.splitOn_append_cons_self, List.splitOn_eq_singleton hm.hyphen,
      ih fun m hm => hms m (List.mem_cons_of_mem _ hm)]
    rfl

theorem countedParts_mutatorText {ms : List (List Char)} (hms : ∀ m ∈ ms, IsMutatorName m)
    (cs : List Char) : countedParts (mutatorText ms ++ cs) = knownOf ms ++ countedParts cs := by
  have hstrip : ms.map (fun part => strip (String.ofList part)) = ms.map String.ofList := by
    refine List.map_congr_left fun m hm => ?_
    exact strip_of_notSpace (by simpa using (hms m hm).blank)
  rw [countedParts, splitOn_mutatorText hms, List.map_append, List.filter_append, hstrip]
  rfl

/-- **A quoted entry is counted by what is between its hyphens**: its first and its last part
have a quote. -/
theorem countedParts_quoted {lead : List Char} (hlead : '-' ∉ lead) (e : List Char) :
    countedParts (lead ++ quoted e) = straysOf e := by
  have hfront : '-' ∉ lead ++ ['"'] := by simp [hlead]
  have hback : '-' ∉ ['"'] := by decide
  have hshape : lead ++ quoted e = (lead ++ ['"']) ++ e ++ ['"'] := by simp [quoted]
  rw [countedParts, straysOf, hshape]
  rcases splitOn_surround hfront hback e with ⟨hinner, hsplit⟩ | ⟨first, last, hsplit⟩
  · rw [hsplit, hinner]
    have hquote := not_known_of_mem_quote (s := String.ofList (lead ++ ['"'] ++ e ++ ['"']))
      (by simp)
    simp only [List.map_cons, List.map_nil]
    rw [List.filter_cons_of_neg (by simpa using hquote)]
  · have hfirst := not_known_of_mem_quote (s := String.ofList (lead ++ ['"'] ++ first)) (by simp)
    have hlast := not_known_of_mem_quote (s := String.ofList (last ++ ['"'])) (by simp)
    rw [hsplit, List.map_cons, List.filter_cons_of_neg (by simpa using hfirst), List.map_append,
      List.filter_append, List.map_cons, List.map_nil,
      List.filter_cons_of_neg (by simpa using hlast)]
    simp

/-- The entries of a dictionary, joined by hyphens. -/
theorem countedParts_entries {lead : List Char} (hlead : '-' ∉ lead) (e : List Char)
    (es : List (List Char)) :
    countedParts (lead ++ entriesText es ++ quoted e) = (es ++ [e]).flatMap straysOf := by
  induction es generalizing lead with
  | nil => simpa [entriesText] using countedParts_quoted hlead e
  | cons e' es ih =>
    have hcons : lead ++ entriesText (e' :: es) ++ quoted e =
        (lead ++ quoted e') ++ '-' :: ([] ++ entriesText es ++ quoted e) := by
      simp [entriesText]
    have hfirst := countedParts_quoted hlead e'
    have hrest := @ih [] (by simp)
    rw [countedParts] at hfirst hrest ⊢
    rw [hcons, List.splitOn_append_cons_self, List.map_append, List.filter_append, hfirst, hrest]
    simp

/-! ### The strategy -/

/-- A text that the trims leave as it is. -/
structure IsTrimmed (cs : List Char) : Prop where
  /-- It does not begin with a blank. -/
  first : ∀ c ∈ cs.head?, isSpace c = false
  /-- Nor does it end with one. -/
  last : ∀ c ∈ cs.getLast?, isSpace c = false
  /-- Nor with a hyphen. -/
  last_ne : ∀ c ∈ cs.getLast?, c ≠ '-'

theorem rstripChar_of_last {x : Char} {cs : List Char} (h : ∀ c ∈ cs.getLast?, c ≠ x) :
    rstripChar x cs = cs := by
  have hdrop : cs.reverse.dropWhile (fun c => decide (c = x)) = cs.reverse := by
    refine dropWhile_of_head fun c hc => ?_
    rw [List.head?_reverse] at hc
    simpa using h c hc
  rw [rstripChar, hdrop, List.reverse_reverse]

namespace IsTrimmed

variable {cs : List Char} (h : IsTrimmed cs)
include h

theorem strategyOf_hyphen : strategyOf (cs ++ ['-']) = String.ofList cs := by
  have hstrip : rstripChar '-' (cs ++ ['-']) = cs := by
    have hone : rstripChar '-' (cs ++ ['-']) = rstripChar '-' cs := by simp [rstripChar]
    rw [hone, rstripChar_of_last h.last_ne]
  rw [strategyOf, hstrip, strip_of_ends h.first h.last]

theorem strategyOf_blank (hne : cs ≠ []) : strategyOf (cs ++ [' ']) = String.ofList cs := by
  have hstrip : rstripChar '-' (cs ++ [' ']) = cs ++ [' '] := by
    refine rstripChar_of_last fun c hc => ?_
    obtain rfl : ' ' = c := by simpa using hc
    decide
  have hfirst : (cs ++ [' ']).dropWhile isSpace = cs ++ [' '] := by
    refine dropWhile_of_head fun c hc => ?_
    rw [List.head?_append_of_ne_nil _ hne] at hc
    exact h.first c hc
  have hlast : rstripChars (cs ++ [' ']) = cs := by
    have hblank : isSpace ' ' = true := by decide
    have hback : cs.reverse.dropWhile isSpace = cs.reverse :=
      dropWhile_of_head (by simpa [List.head?_reverse] using h.last)
    simp [rstripChars, hblank, hback]
  rw [strategyOf, hstrip, strip, String.toList_ofList, hfirst, hlast]

end IsTrimmed

/-- What begins with mutators does not begin with a blank. -/
theorem first_mutatorText {ms : List (List Char)} (hms : ∀ m ∈ ms, IsMutatorName m) (hne : ms ≠ [])
    (rest : List Char) : ∀ c ∈ (mutatorText ms ++ rest).head?, isSpace c = false := by
  obtain ⟨m, ms, rfl⟩ := List.exists_cons_of_ne_nil hne
  have hm := hms m (List.mem_cons_self ..)
  obtain ⟨c, m, rfl⟩ := List.exists_cons_of_ne_nil hm.ne_nil
  intro d hd
  obtain rfl : c = d := by simpa [mutatorText] using hd
  exact hm.blank c (List.mem_cons_self ..)

/-- The mutators alone. -/
theorem countedParts_strategy_none {ms : List (List Char)} (hms : ∀ m ∈ ms, IsMutatorName m) :
    countedParts (strategyOf ((mutatorText ms).dropWhile isSpace)).toList = knownOf ms := by
  rcases ms.eq_nil_or_concat' with rfl | ⟨init, m, rfl⟩
  · decide
  · have hm := hms m (by simp)
    have hinit : ∀ m ∈ init, IsMutatorName m := fun m hm => hms m (by simp [hm])
    have htext : mutatorText (init ++ [m]) = (mutatorText init ++ m) ++ ['-'] := by
      simp [mutatorText]
    have hlast : ∀ c ∈ (mutatorText init ++ m).getLast?, c ∈ m := by
      intro c hc
      rw [List.getLast?_append_of_ne_nil _ hm.ne_nil] at hc
      exact List.mem_of_getLast? hc
    -- the last hyphen is stripped, and nothing else
    have htrimmed : IsTrimmed (mutatorText init ++ m) := by
      refine ⟨?_, fun c hc => hm.blank c (hlast c hc), ?_⟩
      · have hfirst := first_mutatorText hms (by simp) []
        rw [List.append_nil, htext] at hfirst
        rwa [List.head?_append_of_ne_nil _ (by simp [hm.ne_nil])] at hfirst
      · rintro c hc rfl
        exact hm.hyphen (hlast _ hc)
    have hdrop : (mutatorText (init ++ [m])).dropWhile isSpace = mutatorText (init ++ [m]) := by
      refine dropWhile_of_head ?_
      simpa using first_mutatorText hms (by simp) []
    have hone : countedParts m = knownOf [m] := by
      have hstrip : strip (String.ofList m) = String.ofList m :=
        strip_of_notSpace (by simpa using hm.blank)
      rw [countedParts, List.splitOn_eq_singleton hm.hyphen]
      simp [knownOf, hstrip]
    rw [hdrop, htext, htrimmed.strategyOf_hyphen, String.toList_ofList,
      countedParts_mutatorText hinit, hone]
    simp [knownOf]

/-- What is between the mutators and the first entry, once the blanks at the start of the
sequence are gone. -/
def leadOf (ms : List (List Char)) : List Char := if ms = [] then "DE:".toList else " DE:".toList

theorem dropWhile_sequence {ms : List (List Char)} (hms : ∀ m ∈ ms, IsMutatorName m)
    (rest : List Char) :
    (mutatorText ms ++ (" DE:".toList ++ rest)).dropWhile isSpace =
      mutatorText ms ++ (leadOf ms ++ rest) := by
  rcases eq_or_ne ms [] with rfl | hne
  · simp [mutatorText, leadOf, isSpace]
  · rw [leadOf, if_neg hne]
    exact dropWhile_of_head (first_mutatorText hms hne _)

theorem first_leadOf {ms : List (List Char)} (hms : ∀ m ∈ ms, IsMutatorName m)
    (rest : List Char) :
    ∀ c ∈ (mutatorText ms ++ (leadOf ms ++ rest)).head?, isSpace c = false := by
  rcases eq_or_ne ms [] with rfl | hne
  · simp [mutatorText, leadOf, isSpace]
  · exact first_mutatorText hms hne _

/-- What begins with mutators is trimmed, by its last character. -/
theorem isTrimmed_of_getLast? {ms : List (List Char)} (hms : ∀ m ∈ ms, IsMutatorName m)
    {rest : List Char} {c : Char}
    (hlast : (mutatorText ms ++ (leadOf ms ++ rest)).getLast? = some c) (hblank : isSpace c = false)
    (hne : c ≠ '-') : IsTrimmed (mutatorText ms ++ (leadOf ms ++ rest)) := by
  refine ⟨first_leadOf hms rest, ?_, ?_⟩
  · rintro d hd
    obtain rfl := Option.some.inj (hlast.symm.trans hd)
    exact hblank
  · rintro d hd
    obtain rfl := Option.some.inj (hlast.symm.trans hd)
    exact hne

/-- The mutators, and no entries of a dictionary. -/
theorem countedParts_strategy_nil {ms : List (List Char)} (hms : ∀ m ∈ ms, IsMutatorName m) :
    countedParts (strategyOf ((sequenceText ms (some [])).dropWhile isSpace)).toList =
      knownOf ms := by
  have hseq : sequenceText ms (some []) = mutatorText ms ++ (" DE:".toList ++ [' ']) := by
    simp [sequenceText, entriesText]
  have hlast : (mutatorText ms ++ (leadOf ms ++ [])).getLast? = some ':' := by
    rw [leadOf]
    split_ifs <;> simp
  have htrimmed := isTrimmed_of_getLast? hms hlast (by decide) (by decide)
  have hnone : countedParts (leadOf ms) = [] := by
    rw [leadOf]
    split_ifs <;> decide
  have hne : mutatorText ms ++ leadOf ms ≠ [] := by
    rw [leadOf]
    split_ifs <;> simp
  rw [List.append_nil] at htrimmed
  rw [hseq, dropWhile_sequence hms, ← List.append_assoc, htrimmed.strategyOf_blank hne,
    String.toList_ofList, countedParts_mutatorText hms, hnone, List.append_nil]

/-- The mutators, and some entries. -/
theorem countedParts_strategy_concat {ms : List (List Char)} (hms : ∀ m ∈ ms, IsMutatorName m)
    (init : List (List Char)) (e : List Char) :
    countedParts (strategyOf ((sequenceText ms (some (init ++ [e]))).dropWhile isSpace)).toList =
      knownOf ms ++ (init ++ [e]).flatMap straysOf := by
  have hseq : sequenceText ms (some (init ++ [e])) =
      mutatorText ms ++ (" DE:".toList ++ ([' '] ++ entriesText init ++ quoted e ++ ['-'])) := by
    simp [sequenceText, entriesText]
  have hlast : (mutatorText ms ++ (leadOf ms ++ ([' '] ++ entriesText init ++
      quoted e))).getLast? = some '"' := by
    simp [quoted, List.getLast?_append, List.getLast?_cons]
  have htrimmed := isTrimmed_of_getLast? hms hlast (by decide) (by decide)
  have hcut : mutatorText ms ++ (leadOf ms ++ ([' '] ++ entriesText init ++ quoted e ++ ['-'])) =
      mutatorText ms ++ (leadOf ms ++ ([' '] ++ entriesText init ++ quoted e)) ++ ['-'] := by
    simp
  have hspaced : '-' ∉ leadOf ms ++ [' '] := by
    rw [leadOf]
    split_ifs <;> decide
  have hentries := countedParts_entries hspaced e init
  have hassoc : leadOf ms ++ ([' '] ++ entriesText init ++ quoted e) =
      leadOf ms ++ [' '] ++ entriesText init ++ quoted e := by simp
  rw [hseq, dropWhile_sequence hms, hcut, htrimmed.strategyOf_hyphen, String.toList_ofList,
    countedParts_mutatorText hms, hassoc, hentries]

/-- The mutators, and entries of a dictionary. -/
theorem countedParts_strategy_some {ms : List (List Char)} (hms : ∀ m ∈ ms, IsMutatorName m)
    (es : List (List Char)) :
    countedParts (strategyOf ((sequenceText ms (some es)).dropWhile isSpace)).toList =
      knownOf ms ++ es.flatMap straysOf := by
  rcases es.eq_nil_or_concat' with rfl | ⟨init, e, rfl⟩
  · rw [countedParts_strategy_nil hms, List.flatMap_nil, List.append_nil]
  · exact countedParts_strategy_concat hms init e

/-- **What is counted of a sequence**: the mutators of the line, and those that stand between
two hyphens of an entry. -/
theorem countedParts_strategy {ms : List (List Char)} (hms : ∀ m ∈ ms, IsMutatorName m)
    (de : Option (List (List Char))) :
    countedParts (strategyOf ((sequenceText ms de).dropWhile isSpace)).toList =
      knownOf ms ++ (de.getD []).flatMap straysOf := by
  cases de with
  | none =>
    have hseq : sequenceText ms none = mutatorText ms := by simp [sequenceText]
    rw [hseq, countedParts_strategy_none hms]
    simp
  | some es => exact countedParts_strategy_some hms es

/-! ### The counters -/

/-- The counter of a mutator. -/
def mutatorCount (ms : List (String × ℕ)) (name : String) : ℕ := (ms.lookup name).getD 0

@[simp] theorem mutatorCount_nil (name : String) : mutatorCount [] name = 0 := rfl

@[simp] theorem mutatorCount_cons (n : String) (k : ℕ) (ms : List (String × ℕ)) (name : String) :
    mutatorCount ((n, k) :: ms) name = if n = name then k else mutatorCount ms name := by
  rcases eq_or_ne n name with rfl | hne
  · simp [mutatorCount]
  · have hlookup : ((n, k) :: ms).lookup name = ms.lookup name := by
      rw [List.lookup_cons, beq_eq_false_iff_ne.mpr hne.symm]
    rw [mutatorCount, hlookup, if_neg hne, mutatorCount]

theorem mutatorCount_countMutator (name : String) (ms : List (String × ℕ)) (name' : String) :
    mutatorCount (countMutator name ms) name' =
      mutatorCount ms name' + if name = name' then 1 else 0 := by
  induction ms with
  | nil => simp [countMutator]
  | cons p ms ih =>
    obtain ⟨n, k⟩ := p
    rcases eq_or_ne n name with rfl | hn
    · by_cases heq : n = name' <;> simp [countMutator, heq]
    · rw [countMutator, if_neg hn, mutatorCount_cons, mutatorCount_cons, ih]
      by_cases heq : n = name'
      · have hname : name ≠ name' := fun hname => hn (heq.trans hname.symm)
        simp [heq, hname]
      · simp [heq]

/-- **`record_mutators` counts the parts that are mutators.** -/
theorem mutatorCount_countMutators (strategy : String) (ms : List (String × ℕ)) (name : String) :
    mutatorCount (countMutators strategy ms) name =
      mutatorCount ms name + (countedParts strategy.toList).count name := by
  simp only [countMutators, countedParts]
  generalize strategy.toList.splitOn '-' = parts
  induction parts generalizing ms with
  | nil => simp
  | cons part parts ih =>
    rw [List.foldl_cons, ih, List.map_cons, List.filter_cons]
    by_cases hknown : strip (String.ofList part) ∈ knownMutators
    · simp only [mutatorCount_countMutator, hknown, decide_true, if_true, List.count_cons,
        beq_iff_eq]
      omega
    · simp [hknown]

/-- The state of an exporter after some calls. -/
def runCalls (calls : List ExporterCall) (st : ExporterState) : ExporterState :=
  calls.foldl (fun st call => (call.method.run st).2) st

/-- The counter of a mutator in the session of an exporter. -/
def ExporterState.count (st : ExporterState) (name : String) : ℕ :=
  mutatorCount st.exporter.session.mutators name

/-- The call that a status line makes. -/
theorem statusLine_calls (ui : LibFuzzerUI) (groups : List (List Char)) :
    (statusLine ui groups).2 =
      if groupText groups 2 = "NEW" ∧ ui.hasExporter = true ∧ strategyOf (groups.getD 10 []) ≠ ""
      then [.recordMutators (strategyOf (groups.getD 10 []))] else [] := rfl

/-- What a status line counts. -/
theorem count_statusLine {ui : LibFuzzerUI} (hexporter : ui.hasExporter = true)
    {groups : List (List Char)} (hnew : groupText groups 2 = "NEW") (st : ExporterState)
    (name : String) :
    (runCalls (statusLine ui groups).2 st).count name =
      st.count name + (countedParts (strategyOf (groups.getD 10 [])).toList).count name := by
  rw [statusLine_calls]
  generalize strategyOf (groups.getD 10 []) = strategy
  rcases eq_or_ne strategy "" with rfl | hne
  · have hnone : countedParts "".toList = [] := by decide
    have hstop : ¬ (groupText groups 2 = "NEW" ∧ ui.hasExporter = true ∧ "" ≠ "") :=
      fun h => h.2.2 rfl
    rw [if_neg hstop, hnone]
    rfl
  · rw [if_pos ⟨hnew, hexporter, hne⟩]
    exact mutatorCount_countMutators strategy st.exporter.session.mutators name

/-- **What the status line of a new input counts.** -/
theorem count_parseLine {kinds : CharKinds} {h : StatusHead} (hwf : h.WellFormed kinds)
    {ms : List (List Char)} (hms : ∀ m ∈ ms, IsMutatorName m) {de : Option (List (List Char))}
    (hde : ∀ e ∈ de.getD [], '\n' ∉ e) {ui : LibFuzzerUI} (hexporter : ui.hasExporter = true)
    {line : OutputLine} (hline : line.text = String.ofList (h.text ++ sequenceText ms de))
    (st : ExporterState) (name : String) :
    (runCalls (parseLine kinds ui line).2 st).count name =
      st.count name + (knownOf ms).count name +
        ((de.getD []).flatMap straysOf).count name := by
  -- the line is one line, since no name and no entry has a line end
  have hnewline : '\n' ∉ sequenceText ms de := by
    have hmutators : '\n' ∉ mutatorText ms := by
      intro hmem
      obtain ⟨m, hm, hmem⟩ := List.mem_flatMap.mp hmem
      rcases List.mem_append.mp hmem with hmem | hmem
      · exact absurd ((hms m hm).blank _ hmem) (by decide)
      · exact absurd hmem (by decide)
    cases de with
    | none => simpa [sequenceText] using hmutators
    | some es =>
      simp only [sequenceText, List.mem_append, not_or]
      refine ⟨hmutators, by decide, fun hmem => ?_⟩
      obtain ⟨e, he, hmem⟩ := List.mem_flatMap.mp hmem
      have hentry := hde e (by simpa using he)
      simp [quoted, hentry] at hmem
  have hmatch := reMatch_statusText hwf hnewline
  have hparse : parseLine kinds ui line =
      statusLine ui (h.groups ++ [(sequenceText ms de).dropWhile isSpace]) := by
    rw [parseLine, hline, String.toList_ofList, hmatch]
  have hgroup : (h.groups ++ [(sequenceText ms de).dropWhile isSpace]).getD 10 [] =
      (sequenceText ms de).dropWhile isSpace := rfl
  rw [hparse, count_statusLine hexporter rfl, hgroup, countedParts_strategy hms, List.count_append,
    Nat.add_assoc]

/-- **The mutators of the line are counted**: the counter of each known mutator grows by the
number of times it is in the line, and no other counter changes. -/
def CountsMutators (ms : List (List Char)) (before after : ExporterState) : Prop :=
  ∀ name, after.count name =
    before.count name + if name ∈ knownMutators then (ms.map String.ofList).count name else 0

/-- An entry that has the name of a mutator between two of its hyphens. -/
def HidesMutator (e : List Char) : Prop :=
  ∃ part ∈ innerParts '-' e, strip (String.ofList part) ∈ knownMutators

theorem straysOf_eq_nil_iff (e : List Char) : straysOf e = [] ↔ ¬ HidesMutator e := by
  simp [straysOf, HidesMutator, List.filter_eq_nil_iff]

theorem count_knownOf (ms : List (List Char)) (name : String) :
    (knownOf ms).count name =
      if name ∈ knownMutators then (ms.map String.ofList).count name else 0 := by
  rw [knownOf]
  split_ifs with hknown
  · exact List.count_filter (by simpa using hknown)
  · refine List.count_eq_zero_of_not_mem fun hmem => hknown ?_
    simpa using List.of_mem_filter hmem

variable {kinds : CharKinds}

/-- **When the status line of a new input counts its mutators**: exactly if no entry of the
dictionary has a mutator between two of its hyphens. -/
theorem countsMutators_iff {h : StatusHead} (hwf : h.WellFormed kinds) {ms : List (List Char)}
    (hms : ∀ m ∈ ms, IsMutatorName m) {de : Option (List (List Char))}
    (hde : ∀ e ∈ de.getD [], '\n' ∉ e) {ui : LibFuzzerUI} (hexporter : ui.hasExporter = true)
    {line : OutputLine} (hline : line.text = String.ofList (h.text ++ sequenceText ms de))
    (st : ExporterState) :
    CountsMutators ms st (runCalls (parseLine kinds ui line).2 st) ↔
      ∀ e ∈ de.getD [], ¬ HidesMutator e := by
  have hcount := count_parseLine hwf hms hde hexporter hline st
  have hstrays : CountsMutators ms st (runCalls (parseLine kinds ui line).2 st) ↔
      (de.getD []).flatMap straysOf = [] := by
    constructor
    · intro hcounts
      refine List.eq_nil_iff_forall_not_mem.mpr fun name hname => ?_
      have hpos := List.count_pos_iff.mpr hname
      have heq := hcounts name
      rw [hcount name, count_knownOf] at heq
      omega
    · intro hnil name
      rw [hcount name, hnil, count_knownOf]
      simp
  rw [hstrays, List.flatMap_eq_nil_iff]
  exact forall₂_congr fun e _ => straysOf_eq_nil_iff e

/-! ### Two status lines -/

/-- The head of a status line with one mutator. -/
def oneMutatorHead : StatusHead where
  run := "5".toList
  cov := { value := "8".toList }
  ft := { value := "9".toList }
  corp := { value := "2".toList }
  corpSize := "3b".toList
  limit := { value := "4".toList }
  execS := { value := "0".toList }
  rss := { value := "31".toList }
  length := { value := "2/2".toList }
  ms := { value := "1".toList }

theorem isRun_of_all {p : Char → Bool} {cs : List Char} (hne : cs ≠ []) (h : cs.all p = true) :
    IsRun p cs := ⟨hne, List.all_eq_true.mp h⟩

/-- A field with one blank before its value and one behind it. -/
theorem StatusField.of_value {p : Char → Bool} {cs : List Char} (h : IsRun p cs) :
    StatusField.Of p { value := cs } := by
  have hblank : IsGap [' '] := isRun_of_all (by decide) (by decide)
  exact ⟨hblank.2, h, hblank⟩

theorem wellFormed_oneMutatorHead : oneMutatorHead.WellFormed CharKinds.ascii where
  run := isRun_of_all (by decide) (by decide)
  runGap := isRun_of_all (by decide) (by decide)
  eventGap := isRun_of_all (by decide) (by decide)
  cov := StatusField.of_value (isRun_of_all (by decide) (by decide))
  ft := StatusField.of_value (isRun_of_all (by decide) (by decide))
  corp := StatusField.of_value (isRun_of_all (by decide) (by decide))
  corpSize := isRun_of_all (by decide) (by decide)
  limit := StatusField.of_value (isRun_of_all (by decide) (by decide))
  execS := StatusField.of_value (isRun_of_all (by decide) (by decide))
  rss := StatusField.of_value (isRun_of_all (by decide) (by decide))
  length := StatusField.of_value (isRun_of_all (by decide) (by decide))
  ms := StatusField.of_value (isRun_of_all (by decide) (by decide))

theorem isMutatorName_of_mem {m : List Char} (h : String.ofList m ∈ knownMutators) :
    IsMutatorName m := by
  have hall : knownMutators.all (fun name => !name.toList.isEmpty && !name.toList.contains '-' &&
      name.toList.all fun c => !isSpace c) = true := by decide
  have hname := List.all_eq_true.mp hall _ h
  simp only [String.toList_ofList, Bool.and_eq_true, Bool.not_eq_true', List.all_eq_true] at hname
  refine ⟨?_, ?_, hname.2⟩
  · rintro rfl
    simp at hname
  · intro hmem
    simp [hmem] at hname

/-- An exporter at the start of a session. -/
def newExporter : ExporterState := ⟨{ session := ⟨"", 1, [], [], []⟩ }, .absent⟩

/-- The line of one mutator, with an entry that has a hyphen but no mutator. -/
theorem countsMutators_iff_oneEntry :
    CountsMutators ["ChangeByte".toList] newExporter
      (runCalls (parseLine CharKinds.ascii {} { text := String.ofList (oneMutatorHead.text ++
        sequenceText ["ChangeByte".toList] (some ["a-b".toList])) }).2 newExporter) := by
  have hms : ∀ m ∈ ["ChangeByte".toList], IsMutatorName m := by
    intro m hm
    obtain rfl := List.mem_singleton.mp hm
    exact isMutatorName_of_mem (by decide)
  have hde : ∀ e ∈ (some ["a-b".toList]).getD [], '\n' ∉ e := by
    intro e he
    obtain rfl : e = "a-b".toList := List.mem_singleton.mp he
    decide
  refine (countsMutators_iff wellFormed_oneMutatorHead hms hde rfl rfl newExporter).mpr
    fun e he => ?_
  obtain rfl : e = "a-b".toList := List.mem_singleton.mp he
  rintro ⟨part, hpart, -⟩
  have hnone : innerParts '-' "a-b".toList = [] := by decide
  rw [hnone] at hpart
  exact List.not_mem_nil hpart

/-- An entry with a mutator between two hyphens is counted like the mutators of the line. -/
theorem not_countsMutators :
    ¬ ∀ (kinds : CharKinds) (h : StatusHead), h.WellFormed kinds →
      ∀ ms : List (List Char), (∀ m ∈ ms, IsMutatorName m) →
      ∀ de : Option (List (List Char)), (∀ e ∈ de.getD [], '\n' ∉ e) →
      ∀ st : ExporterState, CountsMutators ms st (runCalls (parseLine kinds {}
        { text := String.ofList (h.text ++ sequenceText ms de) }).2 st) := by
  intro hclaim
  have hms : ∀ m ∈ ["ChangeByte".toList], IsMutatorName m := by
    intro m hm
    obtain rfl := List.mem_singleton.mp hm
    exact isMutatorName_of_mem (by decide)
  have hde : ∀ e ∈ (some ["x-CMP-y".toList]).getD [], '\n' ∉ e := by
    intro e he
    obtain rfl : e = "x-CMP-y".toList := List.mem_singleton.mp he
    decide
  have hcounts :=
    hclaim CharKinds.ascii oneMutatorHead wellFormed_oneMutatorHead _ hms _ hde newExporter
  have hcmp := hcounts "CMP"
  rw [count_parseLine wellFormed_oneMutatorHead hms hde rfl rfl newExporter] at hcmp
  have hstray : ((some ["x-CMP-y".toList]).getD [] |>.flatMap straysOf).count "CMP" = 1 := by
    decide
  have hline : (knownOf ["ChangeByte".toList]).count "CMP" = 0 := by decide
  rw [hstray, hline] at hcmp
  simp at hcmp

end Apatchy
