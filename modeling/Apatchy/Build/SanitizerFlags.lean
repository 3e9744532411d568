import Apatchy.Foundations.Firsts
import Apatchy.Foundations.Patterns
import Apatchy.Foundations.Tables
import Mathlib.Data.List.Find

/-!
# The sanitizer flags of a harness

A harness is to be compiled with the sanitizers of httpd. `HarnessBuilder.build` takes the
flags from `build/config_vars.mk` (`Apatchy.propagate`), and `ModuleManager` takes those of an
external module from the same file (`Apatchy.getSanitizerFlags`). The first reads the last
assignment of each variable with a regular expression, and leaves out a flag that is part of
what is there already; the second reads every line, and leaves out a flag that is there
already.

What the harness gets is worked out word by word (`Apatchy.splitBlanks_propagate`). It has
every flag that the modules get exactly if each one is there from the start, or is among the
last assignments and part of no word before it (`Apatchy.propagates_iff`).
-/

namespace Apatchy

/-! ### The two readings of the file -/

/-- `token.startswith(("-fsanitize", "-fno-sanitize"))`. -/
def isSanitizerFlag (token : List Char) : Bool :=
  "-fsanitize".toList.isPrefixOf token || "-fno-sanitize".toList.isPrefixOf token

section Harness

variable (kinds : CharKinds)

/-- `^(\w+)\s*=\s*(.*)`. -/
def configVarRe : List PatternPart :=
  group (some1 kinds.isWord) ++ [.many isSpace] ++ lit "=" ++ [.many isSpace] ++
    group [.many (· ≠ '\n')]

/-- The variable that a line assigns. -/
def configVarName (line : List Char) : Option String :=
  (reMatch (configVarRe kinds) line).map fun groups => String.ofList (groups.getD 0 [])

/-- The value that it assigns. -/
def configVarValue (line : List Char) : String :=
  strip (String.ofList (((reMatch (configVarRe kinds) line).getD []).getD 1 []))

/-- The lines of `config_vars.mk`, if it is there. -/
def configVarsLines (configVars : Option String) : List (List Char) :=
  (configVars.map fun text => splitLines (readText text).toList).getD []

/-- `HarnessBuilder._parse_config_vars`. -/
def parseConfigVars (configVars : Option String) : Table String String :=
  fill (configVarName kinds) (configVarValue kinds) (configVarsLines configVars)

/-- The flags of a harness. -/
structure HarnessFlags where
  /-- `cflags`. -/
  cflags : List Char
  /-- `ldflags`. -/
  ldflags : List Char

/-- `if token not in flags: flags = f"{flags} {token}"`. -/
def addFlag (flags token : List Char) : List Char :=
  if token <:+: flags then flags else flags ++ [' '] ++ token

/-- One token of a variable. -/
def propagateToken (flags : HarnessFlags) (token : List Char) : HarnessFlags :=
  if isSanitizerFlag token then ⟨addFlag flags.cflags token, addFlag flags.ldflags token⟩
  else flags

/-- **The loop of `HarnessBuilder.build`** over the flags of httpd. -/
def propagate (configVars : Option String) (flags : HarnessFlags) : HarnessFlags :=
  let table := parseConfigVars kinds configVars
  ["CFLAGS", "LDFLAGS"].foldl (fun flags key =>
    (splitBlanks ((table key).getD "").toList).foldl propagateToken flags) flags

end Harness

/-- `line.partition("=")`: what is before the sign. -/
def keyOf (line : List Char) : List Char := line.takeWhile (· ≠ '=')

/-- What is behind it. -/
def valueOf (line : List Char) : List Char := (line.dropWhile (· ≠ '=')).tail

/-- One token of `_get_sanitizer_flags`. -/
def collectToken (flags : List (List Char)) (token : List Char) : List (List Char) :=
  if isSanitizerFlag token ∧ token ∉ flags then flags ++ [token] else flags

/-- One line of `_get_sanitizer_flags`. -/
def collectLine (flags : List (List Char)) (line : List Char) : List (List Char) :=
  if strip (String.ofList (keyOf line)) ∈ ["CFLAGS", "LDFLAGS"] then
    (splitBlanks (valueOf line)).foldl collectToken flags
  else flags

/-- **`ModuleManager._get_sanitizer_flags`.** -/
def getSanitizerFlags (configVars : Option String) : List (List Char) :=
  (configVarsLines configVars).foldl collectLine []

/-! ### Assignments -/

/-- The sanitizer flags that a line assigns. -/
def flagsOf (line : List Char) : List (List Char) :=
  (splitBlanks (valueOf line)).filter (isSanitizerFlag ·)

/-- A line assigns a variable. -/
def Assigns (name : String) (line : List Char) : Prop :=
  '=' ∈ line ∧ strip (String.ofList (keyOf line)) = name

/-- A line that does not begin with a blank. -/
def Flush (line : List Char) : Prop := ∀ c ∈ line.head?, isSpace c = false

instance (name : String) (line : List Char) : Decidable (Assigns name line) :=
  inferInstanceAs (Decidable (_ ∧ _))

instance (line : List Char) : Decidable (Flush line) :=
  inferInstanceAs (Decidable (∀ c ∈ line.head?, isSpace c = false))

/-- The flags of the last assignment of a variable that is not indented. -/
def lastFlags (configVars : Option String) (name : String) : List (List Char) :=
  (((configVarsLines configVars).reverse.find? fun line => Assigns name line ∧ Flush line).map
    flagsOf).getD []

/-- **The flags that a harness is offered**: those of the last assignments. -/
def offeredFlags (configVars : Option String) : List (List Char) :=
  lastFlags configVars "CFLAGS" ++ lastFlags configVars "LDFLAGS"

/-! #### The regular expression -/

/-- A line is what is before the sign, the sign, and what is behind it. -/
theorem keyOf_append_valueOf {line : List Char} (h : '=' ∈ line) :
    line = keyOf line ++ '=' :: valueOf line := by
  have hsplit := List.takeWhile_append_dropWhile (p := (· ≠ '=')) (l := line)
  rcases hdrop : line.dropWhile (· ≠ '=') with _ | ⟨c, rest⟩
  · rw [hdrop, List.append_nil] at hsplit
    rw [← hsplit] at h
    simpa using List.mem_takeWhile_imp h
  · have hc : c = '=' := by
      have hhead := head?_dropWhile_eq_false (· ≠ '=') line c (by rw [hdrop]; rfl)
      simpa using hhead
    rw [hdrop, hc] at hsplit
    rw [keyOf, valueOf, hdrop, List.tail_cons, hsplit]

theorem keyOf_append {a : List Char} (h : '=' ∉ a) (b : List Char) :
    keyOf (a ++ '=' :: b) = a ∧ valueOf (a ++ '=' :: b) = b := by
  have hall : ∀ c ∈ a, decide (c ≠ '=') = true := by
    rintro c hc
    simpa using fun heq : c = '=' => h (heq ▸ hc)
  constructor
  · rw [keyOf, List.takeWhile_append_of_pos hall]
    simp
  · rw [valueOf, List.dropWhile_append_of_pos hall]
    simp

variable {kinds : CharKinds}

theorem isWord_ne_eq {c : Char} (h : kinds.isWord c = true) : c ≠ '=' := by
  rintro rfl
  rw [kinds.isWord_ascii _ (by decide)] at h
  exact absurd h (by decide)

theorem isSpace_ne_eq {c : Char} (h : isSpace c = true) : c ≠ '=' := by
  rintro rfl
  exact absurd h (by decide)

/-- **What the expression matches**: a word, blanks, the sign. -/
theorem of_reMatch_configVarRe {line : List Char} {groups : List (List Char)}
    (h : reMatch (configVarRe kinds) line = some groups) :
    ∃ word bs rest, line = word ++ bs ++ '=' :: rest ∧ word ≠ [] ∧
      (∀ c ∈ word, kinds.isWord c = true) ∧ ∀ c ∈ bs, isSpace c = true := by
  obtain ⟨marks, hmarks, -⟩ := Option.map_eq_some_iff.mp h
  obtain ⟨marks', hmarks', -⟩ := Option.map_eq_some_iff.mp hmarks
  rcases line with _ | ⟨c, line⟩
  · exact absurd hmarks' (by simp [some1, matchParts])
  · have hone : (if kinds.isWord c then star kinds.isWord (matchParts _) line else none) =
        some marks' := hmarks'
    split_ifs at hone with hc
    obtain ⟨run, rest, rfl, hrun, hrest⟩ := of_star_eq_some hone
    obtain ⟨marks', hrest, -⟩ := Option.map_eq_some_iff.mp hrest
    obtain ⟨bs, rest, rfl, hbs, hrest⟩ := of_star_eq_some hrest
    rcases rest with _ | ⟨d, rest⟩
    · exact absurd hrest (by simp [lit, matchParts])
    · have hsign : (if decide (d = '=') then matchParts _ rest else none) = some marks' := hrest
      split_ifs at hsign with hd
      obtain rfl : d = '=' := by simpa using hd
      exact ⟨c :: run, bs, rest, by simp, by simp, List.forall_mem_cons.mpr ⟨hc, hrun⟩, hbs⟩

/-- **What the groups are** then: the word, and what is behind the blanks. -/
theorem reMatch_configVarRe {word bs rest : List Char} (hne : word ≠ [])
    (hword : ∀ c ∈ word, kinds.isWord c = true) (hbs : ∀ c ∈ bs, isSpace c = true)
    (hrest : '\n' ∉ rest) :
    reMatch (configVarRe kinds) (word ++ bs ++ '=' :: rest) =
      some [word, rest.dropWhile isSpace] := by
  have hsign : Takes ([.many isSpace] ++ lit "=") (bs ++ ['=']) (fun _ => false) [] :=
    (Takes.many hbs).append (Takes.lit "=") fun _ _ => stops_cons (by decide) _
  -- the word ends at a blank or at the sign, neither of which is a word character
  have hname : Takes (group (some1 kinds.isWord) ++ ([.many isSpace] ++ lit "="))
      (word ++ (bs ++ ['='])) (fun _ => false) [word] := by
    refine (Takes.some1 hne hword).group.append hsign fun rest _ => ?_
    rcases bs with _ | ⟨b, bs⟩
    · refine stops_cons ?_ _
      rw [kinds.isWord_ascii _ (by decide)]
      decide
    · exact stops_cons (kinds.isWord_of_isSpace (hbs b (List.mem_cons_self ..))) _
  have hsplit : rest.takeWhile isSpace ++ rest.dropWhile isSpace = rest :=
    List.takeWhile_append_dropWhile
  have hblanks : ∀ c ∈ rest.takeWhile isSpace, isSpace c = true :=
    fun c hc => List.mem_takeWhile_imp hc
  have hvalue : Takes (group [.many (· ≠ '\n')]) (rest.dropWhile isSpace) (fun c => c ≠ '\n')
      [rest.dropWhile isSpace] := by
    refine (Takes.many fun c hc => ?_).group
    have hmem : c ∈ rest := (List.dropWhile_suffix _).subset hc
    simpa using fun heq : c = '\n' => hrest (heq ▸ hmem)
  -- the blanks are all taken before the value, which begins with none
  have hall := hname.append (Takes.many hblanks) fun _ _ => stops_false _
  have hmatch := (hall.append hvalue.atEnd fun more hmore => by
    rw [eq_nil_of_stops hmore, List.append_nil]
    exact stops_dropWhile isSpace rest).reMatch
  have hline : word ++ bs ++ '=' :: rest = word ++ (bs ++ ['=']) ++ rest.takeWhile isSpace ++
      rest.dropWhile isSpace := by
    rw [List.append_assoc _ (rest.takeWhile isSpace), hsplit]
    simp
  have hre : configVarRe kinds = group (some1 kinds.isWord) ++ ([.many isSpace] ++ lit "=") ++
      [.many isSpace] ++ group [.many (· ≠ '\n')] := by
    simp only [configVarRe, List.append_assoc]
  rw [hline, hre]
  exact hmatch

/-- The name of a variable of a makefile. -/
structure IsVarName (kinds : CharKinds) (name : String) : Prop where
  /-- It is not empty. -/
  ne_nil : name.toList ≠ []
  /-- It is a word. -/
  word : ∀ c ∈ name.toList, kinds.isWord c = true

theorem isVarName_of_all {name : String} (h : name.toList ≠ [] ∧
    name.toList.all (fun c => c.toNat < 128 && (c.isAlphanum || c == '_')) = true) :
    IsVarName kinds name := by
  refine ⟨h.1, fun c hc => ?_⟩
  have hc' := List.all_eq_true.mp h.2 c hc
  simp only [Bool.and_eq_true, decide_eq_true_eq] at hc'
  rw [kinds.isWord_ascii c hc'.1, hc'.2]

/-- A name with blanks behind it is stripped to the name. -/
theorem strip_name {name : String} (hname : IsVarName kinds name) {bs : List Char}
    (hbs : ∀ c ∈ bs, isSpace c = true) : strip (String.ofList (name.toList ++ bs)) = name := by
  have hnot : ∀ c ∈ name.toList, isSpace c = false := fun c hc =>
    kinds.not_isSpace_of_isWord c (hname.word c hc)
  have hfront : (name.toList ++ bs).dropWhile isSpace = name.toList ++ bs := by
    refine dropWhile_of_head fun c hc => ?_
    rw [List.head?_append_of_ne_nil _ hname.ne_nil] at hc
    exact hnot c (List.mem_of_head? hc)
  have hback : rstripChars (name.toList ++ bs) = name.toList := by
    have hdrop : bs.reverse.dropWhile isSpace = [] := by
      simpa [List.dropWhile_eq_nil_iff] using hbs
    have hrev : ∀ c ∈ name.toList.reverse, isSpace c = false := fun c hc =>
      hnot c (List.mem_reverse.mp hc)
    rw [rstripChars, List.reverse_append, List.dropWhile_append, hdrop]
    simp [dropWhile_isSpace hrev]
  rw [strip, String.toList_ofList, hfront, hback, String.ofList_toList]

/-- **What the expression finds in a line**: the variable that it assigns, unless the line is
indented. -/
theorem configVarName_eq_some_iff {name : String} (hname : IsVarName kinds name)
    {line : List Char} (hline : '\n' ∉ line) :
    configVarName kinds line = some name ↔ Assigns name line ∧ Flush line := by
  constructor
  · intro h
    obtain ⟨groups, hmatch, hgroup⟩ := Option.map_eq_some_iff.mp h
    obtain ⟨word, bs, rest, rfl, hne, hword, hbs⟩ := of_reMatch_configVarRe hmatch
    have hrest : '\n' ∉ rest := fun hmem => hline (by simp [hmem])
    rw [reMatch_configVarRe hne hword hbs hrest] at hmatch
    obtain rfl := Option.some.inj hmatch
    obtain rfl : word = name.toList := by simpa [String.ext_iff] using hgroup
    have hkey : '=' ∉ name.toList ++ bs := by
      rw [List.mem_append, not_or]
      exact ⟨fun hmem => isWord_ne_eq (hword _ hmem) rfl,
        fun hmem => isSpace_ne_eq (hbs _ hmem) rfl⟩
    refine ⟨⟨by simp, ?_⟩, fun c hc => ?_⟩
    · rw [(keyOf_append hkey rest).1]
      exact strip_name hname hbs
    · rw [List.append_assoc, List.head?_append_of_ne_nil _ hne] at hc
      exact kinds.not_isSpace_of_isWord c (hword c (List.mem_of_head? hc))
  · rintro ⟨⟨hsign, hkey⟩, hflush⟩
    have hsplit := keyOf_append_valueOf hsign
    obtain ⟨front, back, hfront, hback, heq⟩ := exists_strip (keyOf line)
    rw [hkey] at heq
    -- a line that does not begin with a blank has none before the name
    obtain rfl : front = [] := by
      rcases front with _ | ⟨c, front⟩
      · rfl
      · have hblank := hfront c (List.mem_cons_self ..)
        have hnot := hflush c (by rw [hsplit, heq]; rfl)
        simp [hnot] at hblank
    rw [List.nil_append] at heq
    have hrest : '\n' ∉ valueOf line := fun hmem => hline (by rw [hsplit]; simp [hmem])
    have hmatch := reMatch_configVarRe hname.ne_nil hname.word hback hrest
    rw [← heq, ← hsplit] at hmatch
    rw [configVarName, hmatch]
    simp

/-- The words of the value. -/
theorem splitBlanks_configVarValue {line : List Char} (hline : '\n' ∉ line) {name : String}
    (h : configVarName kinds line = some name) :
    splitBlanks (configVarValue kinds line).toList = splitBlanks (valueOf line) := by
  obtain ⟨groups, hmatch, -⟩ := Option.map_eq_some_iff.mp h
  obtain ⟨word, bs, rest, rfl, hne, hword, hbs⟩ := of_reMatch_configVarRe hmatch
  have hrest : '\n' ∉ rest := fun hmem => hline (by simp [hmem])
  have hkey : '=' ∉ word ++ bs := by
    rw [List.mem_append, not_or]
    exact ⟨fun hmem => isWord_ne_eq (hword _ hmem) rfl, fun hmem => isSpace_ne_eq (hbs _ hmem) rfl⟩
  have hvalue : configVarValue kinds (word ++ bs ++ '=' :: rest) =
      strip (String.ofList (rest.dropWhile isSpace)) := by
    rw [configVarValue, reMatch_configVarRe hne hword hbs hrest]
    rfl
  have hblanks : ∀ c ∈ rest.takeWhile isSpace, isSpace c = true :=
    fun c hc => List.mem_takeWhile_imp hc
  rw [hvalue, splitBlanks_strip, (keyOf_append hkey rest).2]
  conv_rhs => rw [← List.takeWhile_append_dropWhile (p := isSpace) (l := rest)]
  rw [splitBlanks_blanks_append hblanks]

/-! ### What a harness gets -/

/-- The lines have no line feeds. -/
theorem not_mem_configVarsLines (configVars : Option String) :
    ∀ line ∈ configVarsLines configVars, '\n' ∉ line := by
  intro line hline hmem
  rcases configVars with _ | text
  · simp [configVarsLines] at hline
  · have hparts : line ∈ (universalNewlines (readText text).toList).splitOnP isLineBreak := by
      rw [configVarsLines, Option.map_some, Option.getD_some, splitLines] at hline
      split_ifs at hline
      · exact List.mem_of_mem_dropLast hline
      · exact hline
    have hbreak : isLineBreak '\n' = false := of_mem_splitOnP hparts '\n' hmem
    cases hbreak

/-- **The flags that `build` reads** are those of the last assignment. -/
theorem filter_parseConfigVars {name : String} (hname : IsVarName kinds name)
    (configVars : Option String) :
    (splitBlanks ((parseConfigVars kinds configVars name).getD "").toList).filter
      (isSanitizerFlag ·) = lastFlags configVars name := by
  have hfind : ((configVarsLines configVars).reverse.find? fun line =>
      configVarName kinds line = some name) =
      (configVarsLines configVars).reverse.find? fun line => Assigns name line ∧ Flush line := by
    refine List.find?_congr fun line hline => ?_
    have hnot := not_mem_configVarsLines configVars line (List.mem_reverse.mp hline)
    exact decide_eq_decide.mpr (configVarName_eq_some_iff hname hnot)
  rw [parseConfigVars, fill_eq, hfind, lastFlags]
  rcases hlast : (configVarsLines configVars).reverse.find? fun line =>
      Assigns name line ∧ Flush line with _ | line
  · simp
  · have hmem := not_mem_configVarsLines configVars line
      (List.mem_reverse.mp (List.mem_of_find?_eq_some hlast))
    have hassigns := List.find?_some hlast
    have hconfig := (configVarName_eq_some_iff hname hmem).mpr (by simpa using hassigns)
    rw [Option.map_some, Option.map_some, Option.getD_some, Option.getD_some,
      splitBlanks_configVarValue hmem hconfig, flagsOf]

/-- A word covers those that are part of it. -/
def Contains (word token : List Char) : Prop := token <:+: word

instance : DecidableRel Contains := fun word token => inferInstanceAs (Decidable (token <:+: word))

/-- **To add a flag** is to keep it as a word unless a word contains it. -/
theorem splitBlanks_addFlag {token : List Char} (hne : token ≠ [])
    (htoken : ∀ c ∈ token, isSpace c = false) (flags : List Char) :
    splitBlanks (addFlag flags token) = keepUncovered Contains (splitBlanks flags) token := by
  have hwithin : token <:+: flags ↔ ∃ word ∈ splitBlanks flags, Contains word token :=
    infix_iff_of_splitBlanks hne htoken flags
  rw [addFlag, keepUncovered]
  by_cases hold : token <:+: flags
  · rw [if_pos hold, if_pos (hwithin.mp hold)]
  · rw [if_neg hold, if_neg fun h => hold (hwithin.mpr h)]
    have hblank : flags ++ [' '] ++ token = flags ++ ' ' :: token := by simp
    rw [hblank, splitBlanks_append_blank (by decide), splitBlanks_of_notSpace hne htoken]

/-- The words of both kinds of flags, after some tokens. -/
theorem splitBlanks_foldl_propagateToken (tokens : List (List Char))
    (htokens : ∀ token ∈ tokens, token ≠ [] ∧ ∀ c ∈ token, isSpace c = false)
    (flags : HarnessFlags) :
    splitBlanks (tokens.foldl propagateToken flags).cflags =
        (tokens.filter (isSanitizerFlag ·)).foldl (keepUncovered Contains)
          (splitBlanks flags.cflags) ∧
      splitBlanks (tokens.foldl propagateToken flags).ldflags =
        (tokens.filter (isSanitizerFlag ·)).foldl (keepUncovered Contains)
          (splitBlanks flags.ldflags) := by
  induction tokens generalizing flags with
  | nil => exact ⟨rfl, rfl⟩
  | cons token tokens ih =>
    obtain ⟨⟨hne, hblank⟩, hrest⟩ := List.forall_mem_cons.mp htokens
    rw [List.foldl_cons, propagateToken]
    by_cases hflag : isSanitizerFlag token = true
    · obtain ⟨hcflags, hldflags⟩ := ih hrest
        ⟨addFlag flags.cflags token, addFlag flags.ldflags token⟩
      rw [if_pos hflag, List.filter_cons_of_pos hflag, hcflags, hldflags,
        splitBlanks_addFlag hne hblank, splitBlanks_addFlag hne hblank]
      exact ⟨rfl, rfl⟩
    · rw [if_neg hflag, List.filter_cons_of_neg hflag]
      exact ih hrest flags

/-- **What a harness gets**, word by word: what it is offered, unless a word contains it. -/
theorem splitBlanks_propagate (kinds : CharKinds) (configVars : Option String)
    (flags : HarnessFlags) :
    splitBlanks (propagate kinds configVars flags).cflags =
        (offeredFlags configVars).foldl (keepUncovered Contains) (splitBlanks flags.cflags) ∧
      splitBlanks (propagate kinds configVars flags).ldflags =
        (offeredFlags configVars).foldl (keepUncovered Contains) (splitBlanks flags.ldflags) := by
  have hcname : IsVarName kinds "CFLAGS" := isVarName_of_all (by decide)
  have hldname : IsVarName kinds "LDFLAGS" := isVarName_of_all (by decide)
  simp only [propagate, List.foldl_cons, List.foldl_nil]
  generalize hfirst :
    (splitBlanks ((parseConfigVars kinds configVars "CFLAGS").getD "").toList).foldl
      propagateToken flags = flags'
  have hc := splitBlanks_foldl_propagateToken
    (splitBlanks ((parseConfigVars kinds configVars "CFLAGS").getD "").toList)
    (fun _ => of_mem_splitBlanks) flags
  have hld := splitBlanks_foldl_propagateToken
    (splitBlanks ((parseConfigVars kinds configVars "LDFLAGS").getD "").toList)
    (fun _ => of_mem_splitBlanks) flags'
  rw [hfirst, filter_parseConfigVars hcname] at hc
  rw [filter_parseConfigVars hldname, hc.1, hc.2, ← List.foldl_append, ← List.foldl_append] at hld
  exact hld

/-! ### What an external module gets -/

theorem mem_foldl_collectToken {flags tokens : List (List Char)} {f : List Char} :
    f ∈ tokens.foldl collectToken flags ↔
      f ∈ flags ∨ f ∈ tokens.filter (isSanitizerFlag ·) := by
  induction tokens generalizing flags with
  | nil => simp
  | cons token tokens ih =>
    rw [List.foldl_cons, ih, collectToken]
    by_cases hflag : isSanitizerFlag token = true
    · rw [List.filter_cons_of_pos hflag, List.mem_cons]
      split_ifs with hnew
      · rw [List.mem_append, List.mem_singleton, or_assoc]
      · have hold : token ∈ flags := not_not.mp fun h => hnew ⟨hflag, h⟩
        constructor
        · rintro (hf | hf)
          · exact Or.inl hf
          · exact Or.inr (Or.inr hf)
        · rintro (hf | rfl | hf)
          · exact Or.inl hf
          · exact Or.inl hold
          · exact Or.inr hf
    · rw [if_neg fun h => hflag h.1, List.filter_cons_of_neg hflag]

/-- **The flags of the modules** are those of all lines that assign one of the variables,
indented or not. -/
theorem mem_getSanitizerFlags (configVars : Option String) (f : List Char) :
    f ∈ getSanitizerFlags configVars ↔ ∃ line ∈ configVarsLines configVars,
      strip (String.ofList (keyOf line)) ∈ ["CFLAGS", "LDFLAGS"] ∧ f ∈ flagsOf line := by
  have hfold : ∀ (ls flags : List (List Char)), f ∈ ls.foldl collectLine flags ↔
      f ∈ flags ∨ ∃ line ∈ ls,
        strip (String.ofList (keyOf line)) ∈ ["CFLAGS", "LDFLAGS"] ∧ f ∈ flagsOf line := by
    intro ls
    induction ls with
    | nil => simp
    | cons line ls ih =>
      intro flags
      rw [List.foldl_cons, ih, collectLine, List.exists_mem_cons_iff]
      split_ifs with hkey
      · rw [mem_foldl_collectToken, or_assoc, flagsOf, and_iff_right hkey]
      · rw [or_iff_right fun h : _ ∧ _ => hkey h.1]
  rw [getSanitizerFlags, hfold]
  simp

/-- What a harness is offered is among the flags of the modules. -/
theorem mem_getSanitizerFlags_of_mem_offeredFlags {configVars : Option String} {f : List Char}
    (h : f ∈ offeredFlags configVars) : f ∈ getSanitizerFlags configVars := by
  have hlast : ∀ name ∈ ["CFLAGS", "LDFLAGS"], f ∈ lastFlags configVars name →
      f ∈ getSanitizerFlags configVars := by
    intro name hname hf
    rw [lastFlags] at hf
    rcases hfind : (configVarsLines configVars).reverse.find? fun line =>
        Assigns name line ∧ Flush line with _ | line
    · rw [hfind] at hf
      exact absurd hf List.not_mem_nil
    · rw [hfind] at hf
      have hassigns : Assigns name line ∧ Flush line := by simpa using List.find?_some hfind
      refine (mem_getSanitizerFlags configVars f).mpr ⟨line, ?_, ?_, hf⟩
      · exact List.mem_reverse.mp (List.mem_of_find?_eq_some hfind)
      · rwa [hassigns.1.2]
  rcases List.mem_append.mp h with h | h
  · exact hlast _ (by simp) h
  · exact hlast _ (by simp) h

/-! ### Whether they agree -/

/-- **The flags of httpd come through** to some flags: each of them is a word there, nothing
else is new, and the words that were there are still there, in their order. -/
structure ComesThrough (httpdFlags : List (List Char)) (before after : List Char) : Prop where
  /-- Each flag is a word. -/
  all : ∀ f ∈ httpdFlags, f ∈ splitBlanks after
  /-- There is no other new word. -/
  only : ∀ word ∈ splitBlanks after, word ∈ splitBlanks before ∨ word ∈ httpdFlags
  /-- The words that were there. -/
  ordered : (splitBlanks before).Sublist (splitBlanks after)

/-- **A flag reaches** some flags: it is a word of them already, or it is offered to them, and
no word of them contains it, nor does a flag that is offered before it. -/
def Reaches (offered : List (List Char)) (flags f : List Char) : Prop :=
  f ∈ splitBlanks flags ∨ ∃ front back, offered = front ++ f :: back ∧
    ∀ word ∈ splitBlanks flags ++ front, ¬ f <:+: word

/-- Flags with what they are offered. -/
theorem comesThrough_iff {configVars : Option String} {before after : List Char}
    (h : splitBlanks after =
      (offeredFlags configVars).foldl (keepUncovered Contains) (splitBlanks before)) :
    ComesThrough (getSanitizerFlags configVars) before after ↔
      ∀ f ∈ getSanitizerFlags configVars, Reaches (offeredFlags configVars) before f := by
  have hmem := @mem_foldl_keepUncovered_iff _ Contains _ List.infix_refl
    (fun _ _ _ hab hbc => List.IsInfix.trans hbc hab) (splitBlanks before) (offeredFlags configVars)
  obtain ⟨new, hnew, hoffered⟩ := @exists_foldl_keepUncovered _ Contains _
    (splitBlanks before) (offeredFlags configVars)
  constructor
  · intro hthrough f hf
    exact (hmem f).mp (h ▸ hthrough.all f hf)
  · intro hreaches
    refine ⟨fun f hf => h ▸ (hmem f).mpr (hreaches f hf), fun word hword => ?_, ?_⟩
    · rw [h, hnew] at hword
      rcases List.mem_append.mp hword with hword | hword
      · exact Or.inl hword
      · exact Or.inr (mem_getSanitizerFlags_of_mem_offeredFlags (hoffered word hword))
    · rw [h, hnew]
      exact List.sublist_append_left _ _

/-- **When the flags of httpd come through**: exactly if each flag that the modules get reaches
both kinds of flags. -/
theorem propagates_iff (kinds : CharKinds) (configVars : Option String) (flags : HarnessFlags) :
    (ComesThrough (getSanitizerFlags configVars) flags.cflags
        (propagate kinds configVars flags).cflags ∧
      ComesThrough (getSanitizerFlags configVars) flags.ldflags
        (propagate kinds configVars flags).ldflags) ↔
      ∀ f ∈ getSanitizerFlags configVars, Reaches (offeredFlags configVars) flags.cflags f ∧
        Reaches (offeredFlags configVars) flags.ldflags f := by
  obtain ⟨hcflags, hldflags⟩ := splitBlanks_propagate kinds configVars flags
  rw [comesThrough_iff hcflags, comesThrough_iff hldflags]
  exact forall₂_and.symm

/-- The coverage of blocks is not asked for, if that of blocks with guards was. -/
theorem not_propagates :
    ¬ ∀ (kinds : CharKinds) (configVars : Option String) (flags : HarnessFlags),
      ComesThrough (getSanitizerFlags configVars) flags.cflags
          (propagate kinds configVars flags).cflags ∧
        ComesThrough (getSanitizerFlags configVars) flags.ldflags
          (propagate kinds configVars flags).ldflags := by
  intro h
  have hwords := splitBlanks_propagate CharKinds.ascii
    (some "CFLAGS = -fsanitize-coverage=trace-pc") ⟨"-fsanitize-coverage=trace-pc-guard".toList, []⟩
  have hall := (comesThrough_iff hwords.1).mp (h ..).1
  have hflag : "-fsanitize-coverage=trace-pc".toList ∈
      getSanitizerFlags (some "CFLAGS = -fsanitize-coverage=trace-pc") := by decide
  rcases hall _ hflag with hold | ⟨front, back, -, hnone⟩
  · exact absurd hold (by decide)
  · refine hnone "-fsanitize-coverage=trace-pc-guard".toList ?_ (by decide)
    exact List.mem_append_left _ (by decide)

end Apatchy
