import Apatchy.Foundations.Patterns
import Apatchy.Foundations.Script
import Mathlib.Data.List.Nodup

/-!
# Configuration files

Python's `ConfigParser` keeps options in sections, and options in a section `DEFAULT` that
stand in for those that a section does not have (`Apatchy.ConfigParser`). The names of
options are taken in lower case. A file is read line by line: a line can be a comment, the
header of a section, an option, or, if it is indented, one more line of the value of the
option before it (`Apatchy.readConfigLine`). Writing puts the options back, and indents the
further lines of a value (`Apatchy.ConfigParser.write`).

Values are looked up with their references to other options filled in
(`Apatchy.interpolateSome`). A value without a percent sign is what it is, and one that has some
depends on the options it refers to, directly or through others (`Apatchy.Refers`,
`Apatchy.interpolateSome_congr`).

How names are taken in lower case is a parameter (`Apatchy.KeyCase`).
-/

namespace Apatchy

/-! ### Names -/

/-- The characters that no lower case changes: blanks, and the signs of a file. -/
def isSign (c : Char) : Bool := isSpace c || ['=', ':', '#', ';', '[', ']'].contains c

/-- What a character becomes in lower case: a sign stays, and nothing else becomes one. -/
def IsLowerOf (c : Char) (piece : List Char) : Prop :=
  if isSign c then piece = [c] else piece ≠ [] ∧ ∀ d ∈ piece, isSign d = false

/-- Each character of a text has become one or more. -/
inductive Lowers : List Char → List Char → Prop
  /-- Nothing is left. -/
  | nil : Lowers [] []
  /-- One more character. -/
  | cons {c : Char} {cs piece ds : List Char} : IsLowerOf c piece → Lowers cs ds →
      Lowers (c :: cs) (piece ++ ds)

/-- **The lower case of names.** -/
structure KeyCase where
  /-- `str.lower`. -/
  lower : List Char → List Char
  /-- What is in lower case stays as it is. -/
  lower_lower : ∀ cs, lower (lower cs) = lower cs
  /-- The characters, one by one. -/
  lowers : ∀ cs, Lowers cs (lower cs)

/-! ### Options -/

/-- Names with values, in order. -/
abbrev Options (β : Type) : Type := List (List Char × β)

namespace Options

variable {β : Type}

/-- The names. -/
def keys (opts : Options β) : List (List Char) := opts.map Prod.fst

/-- `opts[key] = value`. -/
def put (key : List Char) (value : β) : Options β → Options β
  | [] => [(key, value)]
  | (k, v) :: opts => if k = key then (k, value) :: opts else (k, v) :: put key value opts

/-- Put in several values, one after the other. -/
def putAll (new opts : Options β) : Options β := new.foldl (fun opts o => opts.put o.1 o.2) opts

/-- Change the value of a name. -/
def change (key : List Char) (f : β → β) (opts : Options β) : Options β :=
  opts.map fun o => if o.1 = key then (o.1, f o.2) else o

/-- Change all values. -/
def mapValues {γ : Type} (f : β → γ) (opts : Options β) : Options γ :=
  opts.map fun o => (o.1, f o.2)

end Options

/-- **A `ConfigParser`**: the options of each section, with the values as they are in the
file. -/
structure ConfigParser where
  /-- The options that stand in for others. -/
  defaults : Options (List Char) := []
  /-- The sections. -/
  sections : Options (Options (List Char)) := []

/-- `DEFAULTSECT`. -/
def defaultSect : List Char := "DEFAULT".toList

/-! ### Reading -/

/-- The lines of a file that is read. -/
def fileLines (cs : List Char) : List (List Char) :=
  let parts := (universalNewlines cs).splitOn '\n'
  if parts.getLast? = some [] then parts.dropLast else parts

/-- Where `_read` is. The options of all sections, `DEFAULT` among them, are in one list, and
their values are lists of lines. -/
structure ReadingState where
  /-- The sections so far. -/
  tables : Options (Options (List (List Char))) := []
  /-- `sectname`, after the first header. -/
  sectname : Option (List Char) := none
  /-- `optname`, unless it is empty. -/
  optname : Option (List Char) := none
  /-- `indent_level`. -/
  indent : ℕ := 0
  /-- Whether there were lines that could not be parsed. -/
  bogus : Bool := false

/-- A text that begins like a comment. -/
def isComment (cs : List Char) : Bool := cs.head? = some '#' || cs.head? = some ';'

/-- The name in a header, `\[(.+)\]`: up to the last bracket. -/
def sectionHeader (value : List Char) : Option (List Char) :=
  match value with
  | '[' :: rest =>
    let name := (rest.reverse.dropWhile (· ≠ ']')).tail.reverse
    if ']' ∈ rest ∧ name ≠ [] then some name else none
  | _ => none

/-- The characters between a name and a value. -/
def isDelimiter (c : Char) : Bool := c = '=' || c = ':'

/-- The name and the value in the line of an option, `(.*?)\s*(?:=|:)\s*(.*)$`. -/
def optionParts (value : List Char) : Option (List Char × List Char) :=
  match value.dropWhile (!isDelimiter ·) with
  | _ :: rest => some (rstripChars (value.takeWhile (!isDelimiter ·)), stripChars rest)
  | [] => none

namespace ReadingState

/-- `cursect[optname].append(line)`, if there is an option. -/
def append (st : ReadingState) (line : List Char) : ReadingState :=
  match st.sectname, st.optname with
  | some s, some o => { st with tables := st.tables.change s (Options.change o (· ++ [line])) }
  | _, _ => st

end ReadingState

section Reading

variable (kc : KeyCase)

/-- A header or an option, at a new indentation. -/
def readConfigEntry (st : ReadingState) (value : List Char) : Except String ReadingState :=
  match sectionHeader value with
  | some name =>
    if name ∈ st.tables.keys then
      if name = defaultSect then .ok { st with sectname := some name, optname := none }
      else .error "DuplicateSectionError"
    else .ok { st with tables := st.tables ++ [(name, [])], sectname := some name, optname := none }
  | none =>
    match st.sectname with
    | none => .error "MissingSectionHeaderError"
    | some s =>
      match optionParts value with
      | none => .ok { st with bogus := true }
      | some (name, optval) =>
        let key := kc.lower name
        -- names that differ only in case are the same option
        if key ∈ ((st.tables.lookup s).getD []).keys then .error "DuplicateOptionError"
        else .ok { st with
          tables := st.tables.change s (· ++ [(key, [optval])])
          optname := if key = [] then none else some key
          bogus := st.bogus || name.isEmpty }

/-- **One line of `_read`.** -/
def readConfigLine (st : ReadingState) (line : List Char) : Except String ReadingState :=
  let value := stripChars line
  if isComment value then .ok st
  else if value = [] then .ok (st.append [])
  else
    let indent := (line.takeWhile isSpace).length
    -- What is indented more than its option is one more line of the value.
    if st.sectname.isSome ∧ st.optname.isSome ∧ st.indent < indent then .ok (st.append value)
    else readConfigEntry kc { st with indent } value

/-- `_join_multiline_values`, for one value. -/
def joinValue (ls : List (List Char)) : List Char := rstripChars (List.intercalate ['\n'] ls)

/-- `_join_multiline_values`. -/
def joinTables (tables : Options (Options (List (List Char)))) : Options (Options (List Char)) :=
  tables.mapValues fun opts => opts.mapValues joinValue

/-- The parser after all lines. -/
def ReadingState.parser (st : ReadingState) : ConfigParser where
  defaults := ((joinTables st.tables).lookup defaultSect).getD []
  sections := (joinTables st.tables).filter fun t => t.1 ≠ defaultSect

/-- **`read`**, of a file that is there or not. -/
def readConfig (file : Option (List Char)) : Except String ConfigParser :=
  match file with
  | none => .ok {}
  | some text => do
    let st ← (fileLines text).foldlM (readConfigLine kc) {}
    if st.bogus then .error "ParsingError" else .ok st.parser

end Reading

/-! ### Writing -/

/-- The lines of an option. -/
def writeOption (o : List Char × List Char) : List Char :=
  o.1 ++ " = ".toList ++ replaceChars ['\n'] ['\n', '\t'] 0 o.2 ++ ['\n']

/-- `_write_section`. -/
def writeSection (t : List Char × Options (List Char)) : List Char :=
  ['['] ++ t.1 ++ [']', '\n'] ++ t.2.flatMap writeOption ++ ['\n']

/-- **`write`.** -/
def ConfigParser.write (cp : ConfigParser) : List Char :=
  (if cp.defaults = [] then [] else writeSection (defaultSect, cp.defaults)) ++
    cp.sections.flatMap writeSection

/-! ### Looking up -/

/-- The name in a reference, behind `%(`. -/
def reference (rest : List Char) : Option (List Char) :=
  let name := rest.takeWhile (· ≠ ')')
  if name ≠ [] ∧ [')', 's'] <+: rest.drop name.length then some name else none

/-- The characters of a value, with the references filled in; `skip` of them belong to one
that was. -/
def fillRefs (value : List Char → Except String (List Char)) :
    ℕ → List Char → Except String (List Char)
  | _, [] => .ok []
  | skip + 1, _ :: cs => fillRefs value skip cs
  | 0, c :: cs =>
    if c ≠ '%' then do return c :: (← fillRefs value 0 cs)
    else
      match cs with
      -- a doubled percent sign stands for one
      | '%' :: _ => do return '%' :: (← fillRefs value 1 cs)
      | '(' :: rest =>
        match reference rest with
        | some name => do
          let filled ← value name
          return filled ++ (← fillRefs value (name.length + 3) cs)
        | none => .error "InterpolationSyntaxError"
      | _ => .error "InterpolationSyntaxError"

/-- **`_interpolate_some`**, over what the options have: values that are referred to can refer
to others, up to a depth. -/
def interpolateSome (kc : KeyCase) (raw : List Char → Option (List Char)) :
    ℕ → List Char → Except String (List Char)
  | 0, _ => .error "InterpolationDepthError"
  | depth + 1, rest => fillRefs (fun name =>
      match raw (kc.lower name) with
      | none => .error "InterpolationMissingOptionError"
      | some value => if '%' ∈ value then interpolateSome kc raw depth value else .ok value) 0 rest

/-- `MAX_INTERPOLATION_DEPTH`. -/
def maxInterpolationDepth : ℕ := 10

/-- Whether each percent sign is doubled, or begins a reference. -/
def percentsMeanSomething (value : List Char) : Bool :=
  !(reRemove (lit "%(" ++ some1 (· ≠ ')') ++ lit ")s") 0
    (replaceChars ['%', '%'] [] 0 value)).contains '%'

namespace ConfigParser

variable (cp : ConfigParser)

/-- `add_section`. -/
def addSection (sect : List Char) : Except String ConfigParser :=
  if sect = defaultSect then .error "ValueError"
  else if sect ∈ cp.sections.keys then .error "DuplicateSectionError"
  else .ok { cp with sections := cp.sections ++ [(sect, [])] }

/-- The value of an option as it is in the file, or of the one that stands in for it. -/
def raw (sect key : List Char) : Option (List Char) :=
  match cp.sections.lookup sect with
  | some opts => (opts.lookup key).or (cp.defaults.lookup key)
  | none => if sect = defaultSect then cp.defaults.lookup key else none

/-- `get`, with `None` for an option that is not there. -/
def get (kc : KeyCase) (sect name : List Char) : Except String (Option (List Char)) :=
  match cp.raw sect (kc.lower name) with
  | none => .ok none
  | some value => some <$> interpolateSome kc (cp.raw sect) maxInterpolationDepth value

/-- `set`. -/
def set (kc : KeyCase) (sect name value : List Char) : Except String ConfigParser :=
  if value ≠ [] ∧ ¬ percentsMeanSomething value then .error "ValueError"
  else if sect = [] ∨ sect = defaultSect then
    .ok { cp with defaults := cp.defaults.put (kc.lower name) value }
  else if sect ∈ cp.sections.keys then
    .ok { cp with sections := cp.sections.change sect (Options.put (kc.lower name) value) }
  else .error "NoSectionError"

/-- Options of a section that are put in, one after the other. -/
def putAll (sect : List Char) (new : Options (List Char)) : ConfigParser :=
  { cp with sections := cp.sections.change sect (Options.putAll new) }

end ConfigParser

/-! ### What the lower case keeps -/

theorem isSign_of_isSpace {c : Char} (h : isSpace c = true) : isSign c = true := by
  simp [isSign, h]

/-- A sign in what a character became is the character. -/
theorem IsLowerOf.eq_of_mem {c d : Char} {piece : List Char} (h : IsLowerOf c piece)
    (hd : d ∈ piece) (hsign : isSign d = true) : piece = [c] ∧ d = c := by
  rw [IsLowerOf] at h
  split_ifs at h
  · subst h
    exact ⟨rfl, List.mem_singleton.mp hd⟩
  · simp [h.2 d hd] at hsign

theorem IsLowerOf.ne_nil {c : Char} {piece : List Char} (h : IsLowerOf c piece) : piece ≠ [] := by
  rw [IsLowerOf] at h
  split_ifs at h
  · simp [h]
  · exact h.1

namespace Lowers

variable {cs ds : List Char} {d : Char}

theorem eq_nil (h : Lowers cs []) : cs = [] := by
  generalize hds : ([] : List Char) = ds at h
  cases h with
  | nil => rfl
  | cons hpiece _ => exact absurd (List.append_eq_nil_iff.mp hds.symm).1 hpiece.ne_nil

/-- **No sign is new.** -/
theorem mem (h : Lowers cs ds) (hd : d ∈ ds) (hsign : isSign d = true) : d ∈ cs := by
  induction h with
  | nil => exact hd
  | cons hpiece _ ih =>
    rcases List.mem_append.mp hd with hd | hd
    · rw [(hpiece.eq_of_mem hd hsign).2]
      exact List.mem_cons_self ..
    · exact List.mem_cons_of_mem _ (ih hd)

/-- Nor is one behind the first character. -/
theorem mem_tail (h : Lowers cs ds) (hd : d ∈ ds.tail) (hsign : isSign d = true) : d ∈ cs.tail := by
  cases h with
  | nil => exact hd
  | cons hpiece h =>
    obtain ⟨c, piece, rfl⟩ := List.exists_cons_of_ne_nil hpiece.ne_nil
    rw [List.cons_append, List.tail_cons] at hd
    rcases List.mem_append.mp hd with hd | hd
    · have hone := (hpiece.eq_of_mem (List.mem_cons_of_mem _ hd) hsign).1
      obtain rfl : piece = [] := (List.cons.inj hone).2
      exact absurd hd List.not_mem_nil
    · exact h.mem hd hsign

/-- A sign at the start was there. -/
theorem head? (h : Lowers cs ds) (hd : ds.head? = some d) (hsign : isSign d = true) :
    cs.head? = some d := by
  cases h with
  | nil => exact hd
  | cons hpiece h =>
    rw [List.head?_append_of_ne_nil _ hpiece.ne_nil] at hd
    rw [(hpiece.eq_of_mem (List.mem_of_head? hd) hsign).2]
    rfl

/-- So was one at the end. -/
theorem getLast? (h : Lowers cs ds) (hd : ds.getLast? = some d) (hsign : isSign d = true) :
    cs.getLast? = some d := by
  induction h with
  | nil => exact hd
  | @cons c cs piece ds hpiece h ih =>
    rcases eq_or_ne ds [] with rfl | hne
    · obtain rfl := h.eq_nil
      rw [List.append_nil] at hd
      rw [(hpiece.eq_of_mem (List.mem_of_getLast? hd) hsign).2]
      rfl
    · rw [List.getLast?_append_of_ne_nil _ hne] at hd
      have hcs := ih hd
      have hne' : cs ≠ [] := by
        rintro rfl
        simp at hcs
      rw [List.getLast?_cons_of_ne_nil hne', hcs]

/-- A sign behind the first two characters was there, if the first is a sign. -/
theorem mem_drop_two (h : Lowers cs ds) {c : Char} (hc : ds.head? = some c)
    (hcsign : isSign c = true) (hd : d ∈ ds.drop 2) (hsign : isSign d = true) : d ∈ cs.drop 2 := by
  cases h with
  | nil => exact hd
  | @cons c' cs piece ds hpiece h =>
    rw [List.head?_append_of_ne_nil _ hpiece.ne_nil] at hc
    obtain ⟨rfl, rfl⟩ := hpiece.eq_of_mem (List.mem_of_head? hc) hcsign
    rw [List.singleton_append, List.drop_succ_cons, List.drop_one] at hd
    rw [List.drop_succ_cons, List.drop_one]
    exact h.mem_tail hd hsign

end Lowers

/-! ### The lower case of ASCII -/

namespace KeyCase

/-- A capital letter is no sign, and becomes none. -/
theorem of_toLower_ne {c : Char} (h : c.toLower ≠ c) : isSign c = false ∧
    isSign c.toLower = false ∧ c.toLower.toLower = c.toLower := by
  have hrange : 65 ≤ c.toNat ∧ c.toNat ≤ 90 := by
    by_contra hnot
    refine h (dif_neg ?_)
    rintro ⟨hle, hge⟩
    exact hnot ⟨hle, hge⟩
  have hall : ∀ n < 91, 65 ≤ n → isSign (Char.ofNat n) = false ∧
      isSign (Char.ofNat n).toLower = false ∧
      (Char.ofNat n).toLower.toLower = (Char.ofNat n).toLower := by decide
  have hc := hall c.toNat (by omega) hrange.1
  rwa [Char.ofNat_toNat] at hc

theorem toLower_toLower (c : Char) : c.toLower.toLower = c.toLower := by
  rcases eq_or_ne c.toLower c with h | h
  · rw [h, h]
  · exact (of_toLower_ne h).2.2

theorem isLowerOf_toLower (c : Char) : IsLowerOf c [c.toLower] := by
  rw [IsLowerOf]
  rcases eq_or_ne c.toLower c with h | h
  · rw [h]
    split_ifs with hsign
    · rfl
    · exact ⟨List.cons_ne_nil _ _, by simpa using hsign⟩
  · obtain ⟨hsign, hlower, -⟩ := of_toLower_ne h
    rw [hsign]
    exact ⟨List.cons_ne_nil _ _, by simpa using hlower⟩

theorem lowers_map_toLower (cs : List Char) : Lowers cs (cs.map Char.toLower) := by
  induction cs with
  | nil => exact .nil
  | cons c cs ih => exact .cons (isLowerOf_toLower c) ih

/-- The letters of ASCII alone. -/
def ascii : KeyCase where
  lower := List.map Char.toLower
  lower_lower cs := by
    rw [List.map_map]
    exact List.map_congr_left fun c _ => toLower_toLower c
  lowers := lowers_map_toLower

end KeyCase

/-! ### Options, as dictionaries -/

namespace Options

variable {β γ : Type} {key : List Char} {opts : Options β}

@[simp] theorem keys_nil : Options.keys ([] : Options β) = [] := rfl

@[simp] theorem keys_cons (k : List Char) (b : β) (opts : Options β) :
    Options.keys ((k, b) :: opts) = k :: opts.keys := rfl

@[simp] theorem keys_append (opts opts' : Options β) :
    Options.keys (opts ++ opts') = opts.keys ++ opts'.keys := List.map_append

@[simp] theorem keys_singleton (k : List Char) (b : β) : Options.keys [(k, b)] = [k] := rfl

@[simp] theorem keys_mapValues (f : β → γ) (opts : Options β) :
    (opts.mapValues f).keys = opts.keys := by
  simp [Options.keys, Options.mapValues]

@[simp] theorem mapValues_append (f : β → γ) (opts opts' : Options β) :
    Options.mapValues f (opts ++ opts') = opts.mapValues f ++ opts'.mapValues f := List.map_append

@[simp] theorem keys_change (key : List Char) (f : β → β) (opts : Options β) :
    (opts.change key f).keys = opts.keys := by
  rw [Options.keys, Options.change, List.map_map]
  refine List.map_congr_left fun o _ => ?_
  show (if o.1 = key then (o.1, f o.2) else o).1 = o.1
  split_ifs <;> rfl

theorem lookup_eq_none (h : key ∉ opts.keys) : opts.lookup key = none := by
  refine List.lookup_eq_none_iff.mpr fun o ho => ?_
  rw [bne_iff_ne]
  rintro rfl
  exact h (List.mem_map_of_mem ho)

/-- What is new is found. -/
theorem lookup_concat (h : key ∉ opts.keys) (b : β) :
    (opts ++ [(key, b)]).lookup key = some b := by
  rw [List.lookup_append, lookup_eq_none h]
  simp

/-- To change what is not there changes nothing. -/
theorem change_of_notMem (h : key ∉ opts.keys) (f : β → β) : opts.change key f = opts := by
  refine (List.map_congr_left fun o ho => ?_).trans (List.map_id _)
  have hne : o.1 ≠ key := fun heq => h (heq ▸ List.mem_map_of_mem ho)
  rw [if_neg hne]
  rfl

/-- To change what is new. -/
theorem change_concat (h : key ∉ opts.keys) (f : β → β) (b : β) :
    Options.change key f (opts ++ [(key, b)]) = opts ++ [(key, f b)] := by
  have hold : (opts.map fun o => if o.1 = key then (o.1, f o.2) else o) = opts :=
    change_of_notMem h f
  rw [Options.change, List.map_append, hold]
  simp

/-- A name is looked up from the front. -/
theorem lookup_cons (k key : List Char) (b : β) (opts : Options β) :
    List.lookup key ((k, b) :: opts) = if key = k then some b else opts.lookup key := by
  rw [List.lookup_cons]
  rcases eq_or_ne key k with rfl | hne
  · rw [beq_self_eq_true, if_pos rfl]
  · rw [beq_eq_false_iff_ne.mpr hne, if_neg hne]

theorem lookup_change (key key' : List Char) (f : β → β) (opts : Options β) :
    (opts.change key f).lookup key' =
      if key' = key then (opts.lookup key').map f else opts.lookup key' := by
  induction opts with
  | nil => simp [Options.change]
  | cons o opts ih =>
    obtain ⟨k, b⟩ := o
    show ((if k = key then (k, f b) else (k, b)) :: Options.change key f opts).lookup key' = _
    rcases eq_or_ne k key with rfl | hk
    · rw [if_pos rfl, lookup_cons, lookup_cons, ih]
      split_ifs <;> rfl
    · rw [if_neg hk, lookup_cons, lookup_cons, ih]
      rcases eq_or_ne key' k with rfl | hk'
      · rw [if_pos rfl, if_neg hk, if_pos rfl]
      · rw [if_neg hk', if_neg hk']

theorem mem_change {o : List Char × β} {f : β → β} (h : o ∈ opts.change key f) :
    o ∈ opts ∨ ∃ b, (key, b) ∈ opts ∧ o = (key, f b) := by
  obtain ⟨⟨k, b⟩, hmem, rfl⟩ := List.mem_map.mp h
  rcases eq_or_ne k key with rfl | hk
  · exact Or.inr ⟨b, hmem, if_pos rfl⟩
  · exact Or.inl (by rwa [if_neg hk])

theorem mem_of_lookup {b : β} (h : opts.lookup key = some b) : (key, b) ∈ opts := by
  obtain ⟨before, after, rfl, -⟩ := List.lookup_eq_some_iff.mp h
  exact List.mem_append_right _ (List.mem_cons_self ..)

/-- What is there is found, if the names differ. -/
theorem lookup_of_mem {b : β} (hnodup : opts.keys.Nodup) (h : (key, b) ∈ opts) :
    opts.lookup key = some b := by
  induction opts with
  | nil => exact absurd h List.not_mem_nil
  | cons o opts ih =>
    obtain ⟨k, b'⟩ := o
    obtain ⟨hnew, hrest⟩ := List.nodup_cons.mp hnodup
    rw [lookup_cons]
    rcases List.mem_cons.mp h with heq | hmem
    · obtain ⟨rfl, rfl⟩ := Prod.mk.inj heq
      rw [if_pos rfl]
    · have hkey : key ∈ Options.keys opts := List.mem_map_of_mem (f := Prod.fst) hmem
      have hne : key ≠ k := fun heq => hnew (heq ▸ hkey)
      rw [if_neg hne, ih hrest hmem]

theorem exists_lookup_of_mem_keys (h : key ∈ opts.keys) : ∃ b, opts.lookup key = some b := by
  rcases hlookup : opts.lookup key with _ | b
  · obtain ⟨o, ho, rfl⟩ := List.mem_map.mp h
    exact absurd rfl (bne_iff_ne.mp (List.lookup_eq_none_iff.mp hlookup o ho))
  · exact ⟨b, rfl⟩

/-- Names still differ when one that is new is added. -/
theorem nodup_keys_concat (hnodup : opts.keys.Nodup) (hnew : key ∉ opts.keys) (b : β) :
    (Options.keys (opts ++ [(key, b)])).Nodup := by
  rw [keys_append, keys_singleton, ← List.concat_eq_append]
  exact List.Nodup.concat hnew hnodup

/-- **What was put in is found**, and nothing else is touched. -/
theorem lookup_put (key key' : List Char) (b : β) (opts : Options β) :
    (opts.put key b).lookup key' = if key' = key then some b else opts.lookup key' := by
  induction opts with
  | nil => exact lookup_cons key key' b []
  | cons o opts ih =>
    obtain ⟨k, b'⟩ := o
    rw [Options.put]
    rcases eq_or_ne k key with rfl | hk
    · rw [if_pos rfl, lookup_cons, lookup_cons]
      split_ifs <;> rfl
    · rw [if_neg hk, lookup_cons, lookup_cons, ih]
      have hother : key' = k → ¬ key' = key := by
        rintro rfl
        exact hk
      exact ite_ite_comm _ _ _ _ hother

/-- To put in what is there already changes nothing. -/
theorem put_of_lookup {b : β} (h : opts.lookup key = some b) : opts.put key b = opts := by
  induction opts with
  | nil => simp at h
  | cons o opts ih =>
    obtain ⟨k, b'⟩ := o
    rw [lookup_cons] at h
    rw [Options.put]
    split_ifs at h with hk
    · rw [if_pos hk.symm, Option.some.inj h]
    · rw [if_neg (Ne.symm hk), ih h]

theorem keys_put (key : List Char) (b : β) (opts : Options β) :
    (opts.put key b).keys = if key ∈ opts.keys then opts.keys else opts.keys ++ [key] := by
  induction opts with
  | nil => rfl
  | cons o opts ih =>
    obtain ⟨k, b'⟩ := o
    rw [Options.put]
    rcases eq_or_ne k key with rfl | hk
    · rw [if_pos rfl, keys_cons, keys_cons, if_pos (List.mem_cons_self ..)]
    · have hmem : key ∈ Options.keys ((k, b') :: opts) ↔ key ∈ Options.keys opts := by
        rw [keys_cons, List.mem_cons, or_iff_right hk.symm]
      rw [if_neg hk, keys_cons, keys_cons, ih]
      split_ifs with hold hold' hold'
      · rfl
      · exact absurd (hmem.mpr hold) hold'
      · exact absurd (hmem.mp hold') hold
      · rfl

theorem mem_put {o : List Char × β} {b : β} (h : o ∈ opts.put key b) :
    o ∈ opts ∨ o = (key, b) := by
  induction opts with
  | nil => exact Or.inr (List.mem_singleton.mp h)
  | cons o' opts ih =>
    obtain ⟨k, b'⟩ := o'
    rw [Options.put] at h
    split_ifs at h with hk
    · subst hk
      rcases List.mem_cons.mp h with h | h
      · exact Or.inr h
      · exact Or.inl (List.mem_cons_of_mem _ h)
    · rcases List.mem_cons.mp h with h | h
      · exact Or.inl (h ▸ List.mem_cons_self ..)
      · exact (ih h).imp_left (List.mem_cons_of_mem _)

theorem change_change (key : List Char) (f g : β → β) (opts : Options β) :
    Options.change key g (Options.change key f opts) =
      Options.change key (fun b => g (f b)) opts := by
  rw [Options.change, Options.change, List.map_map]
  refine List.map_congr_left fun o _ => ?_
  by_cases hkey : o.1 = key
  · simp only [Function.comp_apply, if_pos hkey]
  · simp only [Function.comp_apply, if_neg hkey]

/-- A change that leaves the value as it is. -/
theorem change_of_lookup {f : β → β} (hnodup : opts.keys.Nodup)
    (h : ∀ b, opts.lookup key = some b → f b = b) : opts.change key f = opts := by
  refine (List.map_congr_left fun o ho => ?_).trans (List.map_id _)
  show (if o.1 = key then (o.1, f o.2) else o) = o
  split_ifs with hkey
  · subst hkey
    rw [h o.2 (lookup_of_mem hnodup ho)]
  · rfl

@[simp] theorem putAll_nil (opts : Options β) : Options.putAll [] opts = opts := rfl

theorem putAll_concat (new : Options β) (o : List Char × β) (opts : Options β) :
    Options.putAll (new ++ [o]) opts = Options.put o.1 o.2 (Options.putAll new opts) := by
  rw [Options.putAll, List.foldl_append]
  rfl

theorem lookup_putAll_of_notMem {new : Options β} (h : key ∉ new.keys) (opts : Options β) :
    (Options.putAll new opts).lookup key = opts.lookup key := by
  induction new using List.reverseRecOn with
  | nil => rfl
  | append_singleton new o ih =>
    rw [keys_append, List.mem_append, not_or] at h
    have hne : key ≠ o.1 := fun heq => h.2 (List.mem_singleton.mpr heq)
    rw [putAll_concat, lookup_put, if_neg hne, ih h.1]

/-- **What was put in is found**, if its names differ. -/
theorem lookup_putAll_of_mem {new : Options β} (hnodup : new.keys.Nodup) {b : β}
    (h : (key, b) ∈ new) (opts : Options β) :
    (Options.putAll new opts).lookup key = some b := by
  induction new using List.reverseRecOn with
  | nil => exact absurd h List.not_mem_nil
  | append_singleton new o ih =>
    rw [keys_append, List.nodup_append] at hnodup
    rw [putAll_concat, lookup_put]
    rcases List.mem_append.mp h with h | h
    · have hne : key ≠ o.1 :=
        hnodup.2.2 key (List.mem_map_of_mem (f := Prod.fst) h) o.1 (List.mem_singleton_self _)
      rw [if_neg hne, ih hnodup.1 h]
    · obtain rfl := List.mem_singleton.mp h
      exact if_pos rfl

end Options

/-! ### What a lookup depends on -/

/-- The names that a value refers to. -/
def refsOf : ℕ → List Char → List (List Char)
  | _, [] => []
  | skip + 1, _ :: cs => refsOf skip cs
  | 0, c :: cs =>
    if c ≠ '%' then refsOf 0 cs
    else
      match cs with
      | '%' :: _ => refsOf 1 cs
      | '(' :: rest =>
        match reference rest with
        | some name => name :: refsOf (name.length + 3) cs
        | none => []
      | _ => []

/-- **A value refers to a name**, directly or through the values of others. -/
inductive Refers (kc : KeyCase) (raw : List Char → Option (List Char)) :
    List Char → List Char → Prop
  /-- It has a reference to the name. -/
  | direct {value name : List Char} : name ∈ refsOf 0 value → Refers kc raw value (kc.lower name)
  /-- It has a reference to an option that refers to it. -/
  | through {value name value' key : List Char} : name ∈ refsOf 0 value →
      raw (kc.lower name) = some value' → Refers kc raw value' key → Refers kc raw value key

section FillRefs

variable (f : List Char → Except String (List Char))

@[simp] theorem fillRefs_nil (skip : ℕ) : fillRefs f skip [] = .ok [] := by cases skip <;> rfl

@[simp] theorem fillRefs_skip (skip : ℕ) (c : Char) (cs : List Char) :
    fillRefs f (skip + 1) (c :: cs) = fillRefs f skip cs := rfl

theorem fillRefs_plain {c : Char} (hc : c ≠ '%') (cs : List Char) :
    fillRefs f 0 (c :: cs) = do return c :: (← fillRefs f 0 cs) := by
  rw [fillRefs.eq_def]
  exact if_pos hc

theorem fillRefs_percent (cs : List Char) :
    fillRefs f 0 ('%' :: '%' :: cs) = do return '%' :: (← fillRefs f 0 cs) := rfl

theorem fillRefs_reference {name rest : List Char} (h : reference rest = some name) :
    fillRefs f 0 ('%' :: '(' :: rest) = do
      let filled ← f name
      return filled ++ (← fillRefs f (name.length + 3) ('(' :: rest)) := by
  rw [fillRefs.eq_def]
  show (match reference rest with | some name => _ | none => _) = _
  rw [h]

theorem fillRefs_noReference {rest : List Char} (h : reference rest = none) :
    fillRefs f 0 ('%' :: '(' :: rest) = .error "InterpolationSyntaxError" := by
  rw [fillRefs.eq_def]
  show (match reference rest with | some name => _ | none => _) = _
  rw [h]

theorem fillRefs_lone {cs : List Char} (hpercent : ∀ rest, cs = '%' :: rest → False)
    (hbracket : ∀ rest, cs = '(' :: rest → False) :
    fillRefs f 0 ('%' :: cs) = .error "InterpolationSyntaxError" := by
  rcases cs with _ | ⟨c, cs⟩
  · rfl
  · rw [fillRefs.eq_def]
    show (match c :: cs with
      | '%' :: _ => _
      | '(' :: rest => _
      | _ => Except.error "InterpolationSyntaxError") = _
    split
    · next heq => exact (hpercent _ heq).elim
    · next heq => exact (hbracket _ heq).elim
    · rfl

variable {f}

/-- What is filled in depends on the references. -/
theorem fillRefs_congr {g : List Char → Except String (List Char)} (skip : ℕ) (cs : List Char)
    (h : ∀ name ∈ refsOf skip cs, f name = g name) : fillRefs f skip cs = fillRefs g skip cs := by
  fun_induction refsOf skip cs with
  | case1 => rw [fillRefs_nil, fillRefs_nil]
  | case2 skip c cs ih => exact ih h
  | case3 c cs hc ih => rw [fillRefs_plain f hc, fillRefs_plain g hc, ih h]
  | case4 c hc tail ih =>
    obtain rfl : c = '%' := not_not.mp hc
    have htail : fillRefs f 0 tail = fillRefs g 0 tail := ih h
    rw [fillRefs_percent, fillRefs_percent, htail]
  | case5 c hc rest name hname ih =>
    obtain rfl : c = '%' := not_not.mp hc
    obtain ⟨hfirst, hrest⟩ := List.forall_mem_cons.mp h
    rw [fillRefs_reference f hname, fillRefs_reference g hname, hfirst, ih hrest]
  | case6 c hc rest hname =>
    obtain rfl : c = '%' := not_not.mp hc
    rw [fillRefs_noReference f hname, fillRefs_noReference g hname]
  | case7 c cs hc hpercent hbracket =>
    obtain rfl : c = '%' := not_not.mp hc
    rw [fillRefs_lone f hpercent hbracket, fillRefs_lone g hpercent hbracket]

/-- **Percent signs are not filled in for themselves**: without references, what is filled in is
shorter. -/
theorem length_fillRefs (skip : ℕ) (cs : List Char) (hbracket : '(' ∉ cs) {ds : List Char}
    (h : fillRefs f skip cs = .ok ds) :
    ds.length ≤ cs.length - skip ∧ (skip = 0 → '%' ∈ cs → ds.length < cs.length) := by
  fun_induction refsOf skip cs generalizing ds with
  | case1 skip =>
    rw [fillRefs_nil] at h
    obtain rfl := Except.ok.inj h
    exact ⟨Nat.zero_le _, fun _ hmem => absurd hmem List.not_mem_nil⟩
  | case2 skip c cs ih =>
    have hle := (ih (fun hmem => hbracket (List.mem_cons_of_mem _ hmem)) h).1
    refine ⟨?_, fun hskip => absurd hskip (Nat.succ_ne_zero skip)⟩
    rwa [List.length_cons, Nat.add_sub_add_right]
  | case3 c cs hc ih =>
    rw [fillRefs_plain f hc] at h
    obtain ⟨ds', hrest, h⟩ := bind_eq_ok.mp h
    obtain rfl := Except.ok.inj h
    obtain ⟨hle, hlt⟩ := ih (fun hmem => hbracket (List.mem_cons_of_mem _ hmem)) hrest
    refine ⟨Nat.succ_le_succ hle, fun _ hmem => Nat.succ_lt_succ (hlt rfl ?_)⟩
    exact (List.mem_cons.mp hmem).resolve_left hc.symm
  | case4 c hc tail ih =>
    obtain rfl : c = '%' := not_not.mp hc
    rw [fillRefs_percent] at h
    obtain ⟨ds', hrest, h⟩ := bind_eq_ok.mp h
    obtain rfl := Except.ok.inj h
    -- two percent signs become one
    have htail : '(' ∉ '%' :: tail := fun hmem => hbracket (List.mem_cons_of_mem _ hmem)
    have hle : ds'.length ≤ ('%' :: tail).length - 1 := (ih htail hrest).1
    simp only [List.length_cons] at hle ⊢
    omega
  | case5 c hc rest name hname ih => exact absurd (by simp) hbracket
  | case6 c hc rest hname => exact absurd (by simp) hbracket
  | case7 c cs hc hpercent hopen =>
    obtain rfl : c = '%' := not_not.mp hc
    rw [fillRefs_lone f hpercent hopen] at h
    cases h

end FillRefs

/-- **A lookup depends on the names that the value refers to.** -/
theorem interpolateSome_congr {kc : KeyCase} {raw raw' : List Char → Option (List Char)}
    (depth : ℕ) (value : List Char) (h : ∀ key, Refers kc raw value key → raw key = raw' key) :
    interpolateSome kc raw depth value = interpolateSome kc raw' depth value := by
  induction depth generalizing value with
  | zero => rfl
  | succ depth ih =>
    refine fillRefs_congr 0 value fun name hname => ?_
    rw [← h _ (.direct hname)]
    rcases hraw : raw (kc.lower name) with _ | value'
    · rfl
    · show (if '%' ∈ value' then _ else _) = if '%' ∈ value' then _ else _
      rw [ih value' fun key hkey => h key (.through hname hraw hkey)]

/-- A value without a percent sign is what it is. -/
theorem interpolateSome_of_notMem {kc : KeyCase} {raw : List Char → Option (List Char)} {depth : ℕ}
    {value : List Char} (h : '%' ∉ value) :
    interpolateSome kc raw (depth + 1) value = .ok value := by
  rw [interpolateSome]
  induction value with
  | nil => rfl
  | cons c cs ih =>
    obtain ⟨hc, hcs⟩ := List.ne_and_not_mem_of_not_mem_cons h
    rw [fillRefs_plain _ hc.symm, ih hcs]
    rfl

/-! ### Options that are put in -/

namespace ConfigParser

variable {kc : KeyCase} {cp : ConfigParser} {sect : List Char} {new : Options (List Char)}

@[simp] theorem putAll_nil (cp : ConfigParser) (sect : List Char) : cp.putAll sect [] = cp := by
  have hsame : cp.sections.change sect (Options.putAll []) = cp.sections := by
    refine (List.map_congr_left fun o _ => ?_).trans (List.map_id _)
    show (if o.1 = sect then (o.1, o.2) else o) = o
    split_ifs <;> rfl
  rw [putAll, hsame]

@[simp] theorem keys_putAll (cp : ConfigParser) (sect : List Char) (new : Options (List Char)) :
    (cp.putAll sect new).sections.keys = cp.sections.keys := Options.keys_change _ _ _

theorem lookup_putAll (cp : ConfigParser) (sect : List Char) (new : Options (List Char)) :
    (cp.putAll sect new).sections.lookup sect =
      (cp.sections.lookup sect).map (Options.putAll new) := by
  rw [putAll, Options.lookup_change, if_pos rfl]

/-- Other sections are as they were. -/
theorem lookup_putAll_of_ne {s : List Char} (h : s ≠ sect) :
    (cp.putAll sect new).sections.lookup s = cp.sections.lookup s := by
  rw [putAll, Options.lookup_change, if_neg h]

/-- **Other options are as they were.** -/
theorem raw_putAll_of_notMem {key : List Char} (h : key ∉ new.keys) :
    (cp.putAll sect new).raw sect key = cp.raw sect key := by
  rw [raw, raw, lookup_putAll]
  rcases cp.sections.lookup sect with _ | opts
  · rfl
  · show ((Options.putAll new opts).lookup key).or _ = (opts.lookup key).or _
    rw [Options.lookup_putAll_of_notMem h]
    rfl

/-- **What was put in is there.** -/
theorem raw_putAll_of_mem {opts : Options (List Char)} (hsect : cp.sections.lookup sect = some opts)
    (hnodup : new.keys.Nodup) {key value : List Char} (h : (key, value) ∈ new) :
    (cp.putAll sect new).raw sect key = some value := by
  rw [raw, lookup_putAll, hsect]
  show ((Options.putAll new opts).lookup key).or _ = _
  rw [Options.lookup_putAll_of_mem hnodup h]
  rfl

/-- **Lookups that do not reach what was changed** are as they were. -/
theorem get_putAll_of_raw {name : List Char}
    (hname : (cp.putAll sect new).raw sect (kc.lower name) = cp.raw sect (kc.lower name))
    (hrefs : ∀ value, cp.raw sect (kc.lower name) = some value →
      ∀ key, Refers kc (cp.raw sect) value key →
        (cp.putAll sect new).raw sect key = cp.raw sect key) :
    (cp.putAll sect new).get kc sect name = cp.get kc sect name := by
  rw [get, get, hname]
  rcases hraw : cp.raw sect (kc.lower name) with _ | value
  · rfl
  · have hsame : interpolateSome kc (cp.raw sect) maxInterpolationDepth value =
        interpolateSome kc ((cp.putAll sect new).raw sect) maxInterpolationDepth value :=
      interpolateSome_congr _ _ fun key hkey => (hrefs value hraw key hkey).symm
    show some <$> interpolateSome kc _ _ value = some <$> interpolateSome kc _ _ value
    rw [hsame]

/-- **One more option is put in.** -/
theorem set_putAll (hne : sect ≠ [] ∧ sect ≠ defaultSect) (hsect : sect ∈ cp.sections.keys)
    {name value : List Char} {cp' : ConfigParser}
    (h : (cp.putAll sect new).set kc sect name value = .ok cp') :
    cp' = cp.putAll sect (new ++ [(kc.lower name, value)]) ∧
      (value = [] ∨ percentsMeanSomething value = true) := by
  have hsect' : sect ∈ (cp.putAll sect new).sections.keys := by rwa [keys_putAll]
  rw [set] at h
  split_ifs at h with hpercent hdefault
  · exact absurd hdefault (not_or.mpr hne)
  · constructor
    · have hput : (fun opts => Options.put (kc.lower name) value (Options.putAll new opts)) =
          Options.putAll (new ++ [(kc.lower name, value)]) := by
        funext opts
        exact (Options.putAll_concat new (kc.lower name, value) opts).symm
      rw [← Except.ok.inj h, putAll, putAll, Options.change_change, hput]
    · by_contra hboth
      rw [not_or] at hboth
      exact hpercent hboth

/-- To put in what is there already changes nothing. -/
theorem set_of_lookup {opts : Options (List Char)} (hnodup : cp.sections.keys.Nodup)
    (hne : sect ≠ [] ∧ sect ≠ defaultSect) (hsect : cp.sections.lookup sect = some opts)
    {name value : List Char} (h : opts.lookup (kc.lower name) = some value)
    (hpercent : value = [] ∨ percentsMeanSomething value = true) :
    cp.set kc sect name value = .ok cp := by
  have hmem : sect ∈ cp.sections.keys :=
    List.mem_map_of_mem (f := Prod.fst) (Options.mem_of_lookup hsect)
  have hset : ¬ (value ≠ [] ∧ ¬ percentsMeanSomething value = true) := by
    rcases hpercent with hpercent | hpercent <;> simp [hpercent]
  have hsame : cp.sections.change sect (Options.put (kc.lower name) value) = cp.sections := by
    refine Options.change_of_lookup hnodup fun opts' hopts' => ?_
    rw [hsect] at hopts'
    obtain rfl := Option.some.inj hopts'
    exact Options.put_of_lookup h
  rw [set, if_neg hset, if_neg (not_or.mpr hne), if_pos hmem, hsame]

end ConfigParser

end Apatchy
