import Apatchy.Foundations.ConfigRoundTrip

/-!
# Configuration files that have been read

What `read` returns can stand in a file again (`Apatchy.wellFormed_readConfig`), whatever the
file was. The reader takes a name from in front of a delimiter, without blanks and in lower
case, and it takes values without blanks, line by line; what begins like a comment or is a
header it takes for that. The lower case could spoil a name only by making a sign out of
something else (`Apatchy.Lowers.mem`).

The invariant is that of the lines read so far (`Apatchy.ReadingState.WellFormed`). It is about
the lines of a value before they are joined, and the join drops blank lines at the end
(`Apatchy.exists_joinValue`).

Sections can be added to such a parser, and options put in that can stand in a file.
-/

namespace Apatchy

/-! ### The parts of a line -/

/-- **The name and the value in a line** are what they are around a delimiter. -/
theorem of_optionParts {value name optval : List Char}
    (h : optionParts value = some (name, optval)) : ∃ bs d rest,
      value = name ++ bs ++ d :: rest ∧ optval = stripChars rest ∧
      (∀ c ∈ name, isDelimiter c = false) ∧ (∀ c ∈ name.getLast?, isSpace c = false) := by
  rw [optionParts] at h
  split at h
  · next d rest hrest =>
    obtain ⟨rfl, rfl⟩ := Prod.mk.inj (Option.some.inj h)
    obtain ⟨bs, -, hbs⟩ := exists_rstripChars (value.takeWhile (!isDelimiter ·))
    refine ⟨bs, d, rest, ?_, rfl, fun c hc => ?_, last_rstripChars _⟩
    · rw [← hbs, ← hrest, List.takeWhile_append_dropWhile]
    · simpa using List.mem_takeWhile_imp (mem_of_mem_rstripChars hc)
  · cases h

/-- A delimiter is a sign. -/
theorem isSign_of_isDelimiter {c : Char} (h : isDelimiter c = true) : isSign c = true := by
  rw [isDelimiter, Bool.or_eq_true, decide_eq_true_iff, decide_eq_true_iff] at h
  rcases h with rfl | rfl <;> decide

theorem isComment_iff {cs : List Char} :
    isComment cs = true ↔ ∃ c, cs.head? = some c ∧ (c = '#' ∨ c = ';') := by
  rw [isComment, Bool.or_eq_true, decide_eq_true_iff, decide_eq_true_iff]
  constructor
  · rintro (h | h)
    · exact ⟨_, h, Or.inl rfl⟩
    · exact ⟨_, h, Or.inr rfl⟩
  · rintro ⟨c, h, rfl | rfl⟩
    · exact Or.inl h
    · exact Or.inr h

section Entry

variable {kc : KeyCase} {value name optval : List Char}

/-- **The name of an option that was read can stand in a file.** -/
theorem writableName_of_optionParts (hvalue : Stripped value) (hline : IsFileLine value)
    (hcomment : isComment value = false) (hparts : optionParts value = some (name, optval))
    (hne : name ≠ []) : WritableName kc (kc.lower name) := by
  obtain ⟨bs, d, rest, heq, -, hdelimiter, hlast⟩ := of_optionParts hparts
  have hlowers := kc.lowers name
  have hhead : ∀ c, name.head? = some c → value.head? = some c := by
    intro c hc
    rw [heq, List.append_assoc, List.head?_append_of_ne_nil _ hne, hc]
  have hmem : ∀ c ∈ name, c ∈ value := fun c hc => by simp [heq, hc]
  -- A sign in the lower case is one in the name, and the line has been looked at for it.
  refine ⟨fun hnil => ?_, ⟨fun c hc => ?_, fun c hc => ?_⟩, fun c hc => ?_, ?_, ⟨?_, ?_⟩,
    kc.lower_lower name⟩
  · rw [hnil] at hlowers
    exact hne hlowers.eq_nil
  · rw [Bool.eq_false_iff]
    intro hspace
    have hc' := hhead c (hlowers.head? hc (isSign_of_isSpace hspace))
    rw [hvalue.first c hc'] at hspace
    cases hspace
  · rw [Bool.eq_false_iff]
    intro hspace
    rw [hlast c (hlowers.getLast? hc (isSign_of_isSpace hspace))] at hspace
    cases hspace
  · rw [Bool.eq_false_iff]
    intro hd
    rw [hdelimiter c (hlowers.mem hc (isSign_of_isDelimiter hd))] at hd
    cases hd
  · rw [Bool.eq_false_iff, Ne, isComment_iff]
    rintro ⟨c, hc, hsign⟩
    have hc' : value.head? = some c := by
      refine hhead c (hlowers.head? hc ?_)
      rcases hsign with rfl | rfl <;> decide
    rw [isComment_iff.mpr ⟨c, hc', hsign⟩] at hcomment
    cases hcomment
  · exact fun hc => hline.1 (hmem _ (hlowers.mem hc (by decide)))
  · exact fun hc => hline.2 (hmem _ (hlowers.mem hc (by decide)))

theorem mem_drop_append {α : Type} {a : α} {xs ys : List α} {n : ℕ} (h : a ∈ (xs ++ ys).drop n) :
    a ∈ xs.drop n ∨ a ∈ ys := by
  rw [List.drop_append] at h
  exact (List.mem_append.mp h).imp_right List.mem_of_mem_drop

/-- **An option that was read is not read as a header.** -/
theorem not_isHeader_of_optionParts (hheader : sectionHeader value = none)
    (hparts : optionParts value = some (name, optval)) (hne : name ≠ []) :
    ¬ IsHeader (optionLine (kc.lower name) optval) := by
  obtain ⟨bs, d, rest, heq, rfl, -, -⟩ := of_optionParts hparts
  have hlowers := kc.lowers name
  have hlower_ne : kc.lower name ≠ [] := fun hnil => by
    rw [hnil] at hlowers
    exact hne hlowers.eq_nil
  -- the line begins with a bracket; the one that closes it was in what was read already
  rintro ⟨hhead, hmem⟩
  rw [head?_optionLine hlower_ne] at hhead
  refine sectionHeader_eq_none_iff.mp hheader ⟨?_, ?_⟩
  · rw [heq, List.append_assoc, List.head?_append_of_ne_nil _ hne]
    exact hlowers.head? hhead (by decide)
  · rcases mem_drop_append hmem with hmem | hmem
    · rcases mem_drop_append hmem with hmem | hmem
      · -- In the name: the lower case has no new brackets.
        have hname := hlowers.mem_drop_two hhead (by decide) hmem (by decide)
        rw [heq, List.append_assoc, List.drop_append]
        exact List.mem_append_left _ hname
      · exact absurd hmem (by decide)
    · -- In the value, which is behind a name and a delimiter.
      have hrest := mem_of_mem_stripChars hmem
      have hlong : (name ++ bs ++ [d]).drop 2 ++ rest = value.drop 2 := by
        have hlength : 2 ≤ (name ++ bs ++ [d]).length := by
          have hpos := List.length_pos_iff.mpr hne
          simp only [List.length_append, List.length_singleton]
          omega
        rw [heq, ← List.drop_append_of_le_length hlength]
        simp
      rw [← hlong]
      exact List.mem_append_right _ hrest

end Entry

/-! ### The lines of a value -/

/-- **The lines of a value, joined**, are its lines without the blank ones at the end. -/
theorem exists_joinValue {first : List Char} {more : List (List Char)}
    (h : ∀ l ∈ first :: more, Stripped l) : ∃ more', more' <+: more ∧
      joinValue (first :: more) = List.intercalate ['\n'] (first :: more') := by
  induction more using List.reverseRecOn with
  | nil =>
    refine ⟨[], List.prefix_rfl, ?_⟩
    rw [joinValue, List.intercalate_singleton,
      rstripChars_of_last (h first (List.mem_cons_self ..)).last]
  | append_singleton more l ih =>
    -- A blank line at the end is dropped, and any other one ends the value.
    rcases eq_or_ne l [] with rfl | hne
    · obtain ⟨more', hstart, hjoin⟩ := ih fun l hl => h l (by
        rcases List.mem_cons.mp hl with rfl | hl
        · exact List.mem_cons_self ..
        · exact List.mem_cons_of_mem _ (List.mem_append_left _ hl))
      refine ⟨more', hstart.trans (List.prefix_append _ _), ?_⟩
      rw [← hjoin]
      exact joinValue_concat_nil (first :: more)
    · refine ⟨more ++ [l], List.prefix_rfl, rstripChars_of_last ?_⟩
      have hlast : (List.intercalate ['\n'] (first :: (more ++ [l]))).getLast? = l.getLast? := by
        rw [← List.cons_append, intercalate_concat (List.cons_ne_nil _ _),
          List.getLast?_append_of_ne_nil _ hne]
      rw [hlast]
      exact (h l (by simp)).last

/-- **What has been read of an option**, by its lines. -/
structure OptionLines (kc : KeyCase) (o : List Char × List (List Char)) : Prop where
  /-- Its name. -/
  name : WritableName kc o.1
  /-- Its lines have no blanks at their ends, and no line ends. -/
  lines : ∀ l ∈ o.2, Stripped l ∧ IsFileLine l
  /-- There is a first one, with which it is not a header. -/
  first : ∃ first, o.2.head? = some first ∧ ¬ IsHeader (optionLine o.1 first)
  /-- The others are no comments. -/
  comment : ∀ l ∈ o.2.tail, isComment l = false

/-- **An option that was read can stand in a file.** -/
theorem OptionLines.writable {kc : KeyCase} {key : List Char} {ls : List (List Char)}
    (h : OptionLines kc (key, ls)) : Writable kc (key, joinValue ls) := by
  obtain ⟨first, hhead, hheader⟩ := h.first
  obtain ⟨more, rfl⟩ := List.head?_eq_some_iff.mp hhead
  obtain ⟨more', hstart, hjoin⟩ := exists_joinValue fun l hl => (h.lines l hl).1
  have hlines : ∀ l ∈ first :: more', l ∈ first :: more := fun l hl =>
    (List.cons_prefix_cons.mpr ⟨rfl, hstart⟩).subset hl
  -- what is split again is what was joined, but for empty lines at the end
  have hsplit : (joinValue (first :: more)).splitOn '\n' = first :: more' := by
    rw [hjoin]
    exact List.splitOn_intercalate '\n' (fun l hl => (h.lines l (hlines l hl)).2.1)
      (List.cons_ne_nil _ _)
  refine ⟨h.name, ⟨?_, ?_, ?_, ?_⟩, ?_⟩
  · exact rstripChars_of_last (last_rstripChars _)
  · show ∀ l ∈ (joinValue (first :: more)).splitOn '\n', Stripped l
    rw [hsplit]
    exact fun l hl => (h.lines l (hlines l hl)).1
  · show ∀ l ∈ ((joinValue (first :: more)).splitOn '\n').tail, isComment l = false
    rw [hsplit]
    exact fun l hl => h.comment l (hstart.subset hl)
  · intro hmem
    rcases of_mem_intercalate (mem_of_mem_rstripChars hmem) with hmem | ⟨l, hl, hmem⟩
    · exact absurd hmem (by decide)
    · exact (h.lines l hl).2.2 hmem
  · obtain ⟨more'', hmore⟩ := splitOn_newline (joinValue (first :: more))
    rw [hsplit] at hmore
    show ¬ IsHeader (optionLine key ((joinValue (first :: more)).takeWhile (· ≠ '\n')))
    rw [← (List.cons.inj hmore).1]
    exact hheader

/-- **One more line of a value.** -/
theorem OptionLines.append {kc : KeyCase} {key line : List Char} {ls : List (List Char)}
    (h : OptionLines kc (key, ls)) (hstripped : Stripped line) (hline : IsFileLine line)
    (hcomment : isComment line = false) : OptionLines kc (key, ls ++ [line]) := by
  obtain ⟨first, hhead, hheader⟩ := h.first
  obtain ⟨more, rfl⟩ := List.head?_eq_some_iff.mp hhead
  refine ⟨h.name, fun l hl => ?_, ⟨first, rfl, hheader⟩, fun l hl => ?_⟩
  · rcases List.mem_append.mp hl with hl | hl
    · exact h.lines l hl
    · obtain rfl := List.mem_singleton.mp hl
      exact ⟨hstripped, hline⟩
  · rcases List.mem_append.mp hl with hl | hl
    · exact h.comment l hl
    · obtain rfl := List.mem_singleton.mp hl
      exact hcomment

/-! ### The lines of a file -/

/-- What has been read of a section. -/
structure SectionLines (kc : KeyCase) (t : List Char × Options (List (List Char))) : Prop where
  /-- Its name. -/
  name : WritableSection t.1
  /-- The names of its options differ. -/
  nodup : t.2.keys.Nodup
  /-- Its options. -/
  option : ∀ o ∈ t.2, OptionLines kc o

/-- **What has been read of a file.** -/
structure FileSections (kc : KeyCase) (tables : Options (Options (List (List Char)))) : Prop where
  /-- The names of the sections differ. -/
  nodup : tables.keys.Nodup
  /-- The sections. -/
  table : ∀ t ∈ tables, SectionLines kc t

section Lines

variable {kc : KeyCase} {tables : Options (Options (List (List Char)))}

/-- One section is changed. -/
theorem FileSections.change (h : FileSections kc tables) {name : List Char}
    {f : Options (List (List Char)) → Options (List (List Char))}
    (hf : ∀ opts, (name, opts) ∈ tables → SectionLines kc (name, f opts)) :
    FileSections kc (tables.change name f) := by
  refine ⟨by simpa using h.nodup, fun t ht => ?_⟩
  rcases Options.mem_change ht with ht | ⟨opts, hopts, rfl⟩
  · exact h.table t ht
  · exact hf opts hopts

/-- **One more line of the last value.** -/
theorem FileSections.append {st : ReadingState} (h : FileSections kc st.tables) {line : List Char}
    (hstripped : Stripped line) (hline : IsFileLine line) (hcomment : isComment line = false) :
    FileSections kc (st.append line).tables := by
  rw [ReadingState.append]
  split
  · next name key _ _ =>
    refine h.change fun opts hopts => ?_
    have hold := h.table _ hopts
    refine ⟨hold.name, by simpa using hold.nodup, fun o ho => ?_⟩
    have ho' : o ∈ opts.change key (· ++ [line]) := ho
    rcases Options.mem_change ho' with ho | ⟨ls, hls, rfl⟩
    · exact hold.option o ho
    · exact (hold.option _ hls).append hstripped hline hcomment
  · exact h

/-- **A new section.** -/
theorem FileSections.concat (h : FileSections kc tables) {name : List Char}
    (hname : WritableSection name) (hnew : name ∉ tables.keys) :
    FileSections kc (tables ++ [(name, [])]) := by
  constructor
  · exact Options.nodup_keys_concat h.nodup hnew []
  · intro t ht
    rcases List.mem_append.mp ht with ht | ht
    · exact h.table t ht
    · obtain rfl := List.mem_singleton.mp ht
      exact ⟨hname, List.nodup_nil, fun o ho => absurd ho List.not_mem_nil⟩

/-- **A new option.** -/
theorem FileSections.option (h : FileSections kc tables) {name key value : List Char}
    (hoption : OptionLines kc (key, [value]))
    (hnew : key ∉ ((tables.lookup name).getD []).keys) :
    FileSections kc (tables.change name (· ++ [(key, [value])])) := by
  refine h.change fun opts hopts => ?_
  have hold := h.table _ hopts
  rw [Options.lookup_of_mem h.nodup hopts, Option.getD_some] at hnew
  refine ⟨hold.name, Options.nodup_keys_concat hold.nodup hnew [value], fun o ho => ?_⟩
  rcases List.mem_append.mp ho with ho | ho
  · exact hold.option o ho
  · obtain rfl := List.mem_singleton.mp ho
    exact hoption

/-- **A header or an option is read.** -/
theorem fileSections_readConfigEntry {st st' : ReadingState} {value : List Char}
    (hvalue : Stripped value) (hline : IsFileLine value) (hcomment : isComment value = false)
    (hread : readConfigEntry kc st value = .ok st') (hbogus : st'.bogus = false) :
    st.bogus = false ∧ (FileSections kc st.tables → FileSections kc st'.tables) := by
  rw [readConfigEntry] at hread
  split at hread
  · next name hheader =>
    obtain ⟨hne, hsub⟩ := of_sectionHeader hheader
    split_ifs at hread with hold hdefault
    · -- Only the default section can be opened twice.
      obtain rfl := Except.ok.inj hread
      exact ⟨hbogus, id⟩
    · obtain rfl := Except.ok.inj hread
      exact ⟨hbogus, fun h => h.concat ⟨hne, hline.of_subset hsub⟩ hold⟩
  · next hheader =>
    split at hread
    · cases hread
    · next name hname =>
      split at hread
      · obtain rfl := Except.ok.inj hread
        cases hbogus
      · next optname optval hparts =>
        by_cases hold : kc.lower optname ∈ ((st.tables.lookup name).getD []).keys
        · simp [hold] at hread
        simp only [hold, if_false] at hread
        obtain rfl := Except.ok.inj hread
        simp only [Bool.or_eq_false_iff] at hbogus
        -- An option without a name has been noted as bogus.
        have hne : optname ≠ [] := by simpa using hbogus.2
        refine ⟨hbogus.1, fun h => h.option ⟨?_, ?_, ⟨optval, rfl, ?_⟩, ?_⟩ hold⟩
        · exact writableName_of_optionParts hvalue hline hcomment hparts hne
        · intro l hl
          obtain rfl := List.mem_singleton.mp hl
          obtain ⟨bs, d, rest, heq, rfl, -, -⟩ := of_optionParts hparts
          refine ⟨stripped_stripChars rest, hline.of_subset fun c hc => ?_⟩
          rw [heq]
          exact List.mem_append_right _ (List.mem_cons_of_mem _ (mem_of_mem_stripChars hc))
        · exact not_isHeader_of_optionParts hheader hparts hne
        · exact fun l hl => absurd hl List.not_mem_nil

/-- **A line is read.** -/
theorem fileSections_readConfigLine {st st' : ReadingState} {line : List Char}
    (hline : IsFileLine line) (hread : readConfigLine kc st line = .ok st')
    (hbogus : st'.bogus = false) :
    st.bogus = false ∧ (FileSections kc st.tables → FileSections kc st'.tables) := by
  have hvalue : IsFileLine (stripChars line) := hline.of_subset fun c hc => mem_of_mem_stripChars hc
  rw [readConfigLine] at hread
  simp only at hread
  split_ifs at hread with hcomment hempty hmore
  · -- A comment.
    obtain rfl := Except.ok.inj hread
    exact ⟨hbogus, id⟩
  · -- A blank line, which belongs to the last value.
    obtain rfl := Except.ok.inj hread
    rw [bogus_append] at hbogus
    exact ⟨hbogus, fun h => h.append stripped_nil ⟨List.not_mem_nil, List.not_mem_nil⟩ rfl⟩
  · -- An indented line, which does too.
    obtain rfl := Except.ok.inj hread
    rw [bogus_append] at hbogus
    exact ⟨hbogus, fun h =>
      h.append (stripped_stripChars line) hvalue (Bool.eq_false_iff.mpr hcomment)⟩
  · have hentry := fileSections_readConfigEntry (stripped_stripChars line) hvalue
      (Bool.eq_false_iff.mpr hcomment) hread hbogus
    exact hentry

/-- **A file is read.** -/
theorem fileSections_foldlM {lines : List (List Char)} (hlines : ∀ l ∈ lines, IsFileLine l)
    {st st' : ReadingState} (hread : lines.foldlM (readConfigLine kc) st = .ok st')
    (hbogus : st'.bogus = false) :
    st.bogus = false ∧ (FileSections kc st.tables → FileSections kc st'.tables) := by
  induction lines generalizing st with
  | nil =>
    obtain rfl := Except.ok.inj hread
    exact ⟨hbogus, id⟩
  | cons l lines ih =>
    obtain ⟨hl, hrest⟩ := List.forall_mem_cons.mp hlines
    rw [List.foldlM_cons] at hread
    obtain ⟨st₁, hnext, hread⟩ := bind_eq_ok.mp hread
    obtain ⟨hbogus₁, hkeep⟩ := ih hrest hread
    obtain ⟨hbogus₀, hkeep₀⟩ := fileSections_readConfigLine hl hnext hbogus₁
    exact ⟨hbogus₀, fun h => hkeep (hkeep₀ h)⟩

end Lines

/-! ### What has been read -/

section Reading

variable {kc : KeyCase}

theorem writableOptions_mapValues {t : List Char × Options (List (List Char))}
    (h : SectionLines kc t) : WritableOptions kc (t.2.mapValues joinValue) := by
  refine ⟨by simpa using h.nodup, fun o ho => ?_⟩
  obtain ⟨o', ho', rfl⟩ := List.mem_map.mp ho
  exact (h.option o' ho').writable

/-- **What was read can stand in a file.** -/
theorem FileSections.wellFormed {st : ReadingState} (h : FileSections kc st.tables) :
    st.parser.WellFormed kc := by
  have htables : ∀ t ∈ joinTables st.tables, WritableSection t.1 ∧ WritableOptions kc t.2 := by
    intro t ht
    obtain ⟨t', ht', rfl⟩ := List.mem_map.mp ht
    exact ⟨(h.table t' ht').name, writableOptions_mapValues (h.table t' ht')⟩
  have hnodup : (joinTables st.tables).keys.Nodup := by
    rw [keys_joinTables]
    exact h.nodup
  have hsections : ∀ t ∈ st.parser.sections, t ∈ joinTables st.tables ∧ t.1 ≠ defaultSect := by
    intro t ht
    obtain ⟨hmem, hne⟩ := List.mem_filter.mp ht
    exact ⟨hmem, by simpa using hne⟩
  refine ⟨?_, ?_, fun t ht => ?_, fun t ht => (htables t (hsections t ht).1).2⟩
  · rw [ReadingState.parser]
    rcases hlookup : (joinTables st.tables).lookup defaultSect with _ | opts
    · exact ⟨List.nodup_nil, fun o ho => absurd ho List.not_mem_nil⟩
    · exact (htables _ (Options.mem_of_lookup hlookup)).2
  · exact hnodup.sublist (List.filter_sublist.map Prod.fst)
  · exact ⟨(hsections t ht).2, (htables t (hsections t ht).1).1⟩

/-- **Whatever was read can stand in a file.** -/
theorem wellFormed_readConfig {file : Option (List Char)} {cp : ConfigParser}
    (h : readConfig kc file = .ok cp) : cp.WellFormed kc := by
  rcases file with _ | text
  · obtain rfl := Except.ok.inj h
    have hnone : WritableOptions kc [] := ⟨List.nodup_nil, fun o ho => absurd ho List.not_mem_nil⟩
    exact ⟨hnone, List.nodup_nil, fun t ht => absurd ht List.not_mem_nil,
      fun t ht => absurd ht List.not_mem_nil⟩
  · obtain ⟨st, hread, h⟩ := bind_eq_ok.mp h
    split_ifs at h with hbogus
    obtain rfl := Except.ok.inj h
    have hstart : FileSections kc ({} : ReadingState).tables :=
      ⟨List.nodup_nil, fun t ht => absurd ht List.not_mem_nil⟩
    have hkeep := fileSections_foldlM (fun l hl => isFileLine_of_mem_fileLines hl) hread
      (Bool.eq_false_iff.mpr hbogus)
    exact (hkeep.2 hstart).wellFormed

end Reading

/-- **No other names are found** than those that can stand in a file. -/
theorem ConfigParser.WellFormed.raw_eq_none {kc : KeyCase} {cp : ConfigParser}
    (h : cp.WellFormed kc) {key : List Char} (hkey : ¬ WritableName kc key) (sect : List Char) :
    cp.raw sect key = none := by
  have hnone : ∀ opts : Options (List Char), WritableOptions kc opts → opts.lookup key = none := by
    intro opts hopts
    refine Options.lookup_eq_none fun hmem => ?_
    obtain ⟨o, ho, rfl⟩ := List.mem_map.mp hmem
    exact hkey (hopts.option o ho).name
  rw [ConfigParser.raw]
  rcases hsect : cp.sections.lookup sect with _ | opts
  · show (if sect = defaultSect then _ else _) = none
    rw [hnone _ h.defaults, ite_self]
  · show (opts.lookup key).or _ = none
    rw [hnone opts (h.options _ (Options.mem_of_lookup hsect)), hnone _ h.defaults]
    rfl

/-! ### What is put in -/

section PutIn

variable {kc : KeyCase} {cp : ConfigParser}

/-- **A section is added.** -/
theorem ConfigParser.WellFormed.addSection (h : cp.WellFormed kc) {sect : List Char}
    (hsect : WritableSection sect) {cp' : ConfigParser} (hadd : cp.addSection sect = .ok cp') :
    cp'.WellFormed kc := by
  rw [ConfigParser.addSection] at hadd
  split_ifs at hadd with hdefault hold
  obtain rfl := Except.ok.inj hadd
  refine ⟨h.defaults, Options.nodup_keys_concat h.nodup hold [], fun t ht => ?_, fun t ht => ?_⟩
  · rcases List.mem_append.mp ht with ht | ht
    · exact h.named t ht
    · obtain rfl := List.mem_singleton.mp ht
      exact ⟨hdefault, hsect⟩
  · rcases List.mem_append.mp ht with ht | ht
    · exact h.options t ht
    · obtain rfl := List.mem_singleton.mp ht
      exact ⟨List.nodup_nil, fun o ho => absurd ho List.not_mem_nil⟩

theorem WritableOptions.put {opts : Options (List Char)} (h : WritableOptions kc opts)
    {key value : List Char} (ho : Writable kc (key, value)) :
    WritableOptions kc (opts.put key value) := by
  constructor
  · rw [Options.keys_put]
    split_ifs with hold
    · exact h.nodup
    · rw [← Options.keys_singleton key value, ← Options.keys_append]
      exact Options.nodup_keys_concat h.nodup hold value
  · intro o hmem
    rcases Options.mem_put hmem with hmem | rfl
    · exact h.option o hmem
    · exact ho

theorem WritableOptions.putAll {new opts : Options (List Char)} (h : WritableOptions kc opts)
    (hnew : ∀ o ∈ new, Writable kc o) : WritableOptions kc (Options.putAll new opts) := by
  induction new using List.reverseRecOn with
  | nil => exact h
  | append_singleton new o ih =>
    rw [Options.putAll_concat]
    exact (ih fun o ho => hnew o (List.mem_append_left _ ho)).put (hnew o (by simp))

/-- **Options are put in.** -/
theorem ConfigParser.WellFormed.putAll (h : cp.WellFormed kc) (sect : List Char)
    {new : Options (List Char)} (hnew : ∀ o ∈ new, Writable kc o) :
    (cp.putAll sect new).WellFormed kc := by
  refine ⟨h.defaults, by simpa using h.nodup, fun t ht => ?_, fun t ht => ?_⟩
  · rcases Options.mem_change ht with ht | ⟨opts, hopts, rfl⟩
    · exact h.named t ht
    · exact h.named (sect, opts) hopts
  · rcases Options.mem_change ht with ht | ⟨opts, hopts, rfl⟩
    · exact h.options t ht
    · exact (h.options _ hopts).putAll hnew

/-- **An option with a value of one line.** -/
theorem writable_of_line {key value : List Char} (hkey : WritableName kc key)
    (hline : IsFileLine value) (hstripped : Stripped value)
    (hheader : ¬ IsHeader (optionLine key value)) : Writable kc (key, value) := by
  have hsplit := List.splitOn_eq_singleton hline.1
  have htake : value.takeWhile (· ≠ '\n') = value := by
    refine List.takeWhile_eq_self_iff.mpr fun c hc => ?_
    simpa using fun heq : c = '\n' => hline.1 (heq ▸ hc)
  refine ⟨hkey, ⟨rstripChars_of_last hstripped.last, fun l hl => ?_, fun l hl => ?_, hline.2⟩, ?_⟩
  · rw [hsplit] at hl
    obtain rfl := List.mem_singleton.mp hl
    exact hstripped
  · rw [hsplit] at hl
    exact absurd hl List.not_mem_nil
  · show ¬ IsHeader (optionLine key (value.takeWhile (· ≠ '\n')))
    rw [htake]
    exact hheader

end PutIn

end Apatchy
