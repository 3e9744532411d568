import Mathlib.Data.List.Infix
import Mathlib.Data.List.TakeWhile

/-!
# Text, as Python reads it

The framework is written in Python, and some of what it decides depends on how
Python treats text: which characters are blank, what `str.strip` takes off, what
`str.replace` replaces, and that reading a text file turns every line end into a
line feed. What is proved here is `Apatchy.strip_readText`: text without blanks is
read back as it was written.
-/

namespace Apatchy

/-- Texts that test equal are equal. -/
instance lawfulBEq_text : LawfulBEq (List Char) := inferInstance

/-- `str.isspace`, for one character. -/
def isSpace (c : Char) : Bool :=
  let n := c.toNat
  (9 ≤ n && n ≤ 13) || (28 ≤ n && n ≤ 32) || n == 0x85 || n == 0xA0 || n == 0x1680 ||
    (0x2000 ≤ n && n ≤ 0x200A) || n == 0x2028 || n == 0x2029 || n == 0x202F || n == 0x205F ||
    n == 0x3000

/-- The blanks at the end of some characters taken off. -/
def rstripChars (cs : List Char) : List Char := (cs.reverse.dropWhile isSpace).reverse

/-- `str.strip`. -/
def strip (s : String) : String := String.ofList (rstripChars (s.toList.dropWhile isSpace))

/-- What reading in text mode makes of line ends. -/
def universalNewlines : List Char → List Char
  | [] => []
  | '\r' :: '\n' :: cs => '\n' :: universalNewlines cs
  | '\r' :: cs => '\n' :: universalNewlines cs
  | c :: cs => c :: universalNewlines cs

/-- `Path.read_text`, of a file with the given characters. -/
def readText (s : String) : String := String.ofList (universalNewlines s.toList)

/-- The characters at which `str.splitlines` ends a line. -/
def isLineBreak (c : Char) : Bool :=
  let n := c.toNat
  (10 ≤ n && n ≤ 13) || (28 ≤ n && n ≤ 30) || n == 0x85 || n == 0x2028 || n == 0x2029

/-- `str.splitlines`: the end of a line at the end of the text begins no new one. -/
def splitLines (cs : List Char) : List (List Char) :=
  let parts := (universalNewlines cs).splitOnP isLineBreak
  if parts.getLast? = some [] then parts.dropLast else parts

/-- `str.split()`. -/
def splitBlanks (cs : List Char) : List (List Char) := (cs.splitOnP isSpace).filter (· ≠ [])

/-- `old in text`. -/
def containsText (old text : String) : Bool :=
  text.toList.tails.any fun rest => old.toList.isPrefixOf rest

/-- `str.startswith`. -/
def startsWith (front text : String) : Bool := front.toList.isPrefixOf text.toList

/-- The replacement of each occurrence of some characters, from the left; `skip`
characters belong to an occurrence already replaced. -/
def replaceChars (old new : List Char) : ℕ → List Char → List Char
  | _, [] => []
  | skip + 1, _ :: cs => replaceChars old new skip cs
  | 0, c :: cs =>
    if old.isPrefixOf (c :: cs) then new ++ replaceChars old new (old.length - 1) cs
    else c :: replaceChars old new 0 cs

/-- `str.replace`, for a nonempty `old`. -/
def replaceText (old new text : String) : String :=
  String.ofList (replaceChars old.toList new.toList 0 text.toList)

/-- **Text contains some characters** that occur in it. -/
theorem containsText_iff {old text : String} :
    containsText old text = true ↔ old.toList <:+: text.toList := by
  simp only [containsText, List.any_eq_true, List.mem_tails, List.isPrefixOf_iff_prefix,
    List.infix_iff_prefix_suffix, and_comm]

/-! ### Line ends -/

/-- Text without carriage returns is read as it is. -/
theorem universalNewlines_of_not_mem {cs : List Char} (h : '\r' ∉ cs) :
    universalNewlines cs = cs := by
  induction cs with
  | nil => rfl
  | cons c cs ih =>
    have hc : c ≠ '\r' := by
      rintro rfl
      exact h (List.mem_cons_self ..)
    have htail := ih fun hmem => h (List.mem_cons_of_mem _ hmem)
    rw [universalNewlines, htail]
    · exact fun _ h => absurd h hc
    · exact fun h => absurd h hc

/-- **What is read has no carriage returns.** -/
theorem not_mem_universalNewlines (cs : List Char) : '\r' ∉ universalNewlines cs := by
  fun_induction universalNewlines cs with
  | case1 => exact List.not_mem_nil
  | case2 cs ih => simpa using ih
  | case3 cs _ ih => simpa using ih
  | case4 c cs _ hc ih =>
    rw [List.mem_cons, not_or]
    exact ⟨fun h => hc h.symm, ih⟩

/-! ### Text without blanks -/

theorem universalNewlines_of_notSpace {cs : List Char} (h : ∀ c ∈ cs, isSpace c = false) :
    universalNewlines cs = cs :=
  universalNewlines_of_not_mem fun hmem => absurd (h _ hmem) (by decide)

theorem dropWhile_isSpace {cs : List Char} (h : ∀ c ∈ cs, isSpace c = false) :
    cs.dropWhile isSpace = cs := by
  rcases cs with _ | ⟨c, cs⟩
  · rfl
  · simp [h c (List.mem_cons_self ..)]

/-- **Text without blanks is read back as it was written**, stripped or not. -/
theorem strip_readText {s : String} (h : ∀ c ∈ s.toList, isSpace c = false) :
    strip (readText s) = s := by
  have hrev : ∀ c ∈ s.toList.reverse, isSpace c = false :=
    fun c hc => h c (List.mem_reverse.mp hc)
  simp [strip, readText, rstripChars, universalNewlines_of_notSpace h, dropWhile_isSpace h,
    dropWhile_isSpace hrev]

theorem strip_of_notSpace {s : String} (h : ∀ c ∈ s.toList, isSpace c = false) : strip s = s := by
  have hrev : ∀ c ∈ s.toList.reverse, isSpace c = false :=
    fun c hc => h c (List.mem_reverse.mp hc)
  simp [strip, rstripChars, dropWhile_isSpace h, dropWhile_isSpace hrev]

/-- What is not dropped from the front stays. -/
theorem mem_dropWhile {p : Char → Bool} {c : Char} (hc : p c = false) {cs : List Char}
    (hmem : c ∈ cs) : c ∈ cs.dropWhile p := by
  have hsplit := List.takeWhile_append_dropWhile (p := p) (l := cs)
  rw [← hsplit] at hmem
  rcases List.mem_append.mp hmem with hfront | hback
  · simp [List.mem_takeWhile_imp hfront] at hc
  · exact hback

/-- Characters that are not blanks stay. -/
theorem mem_strip {s : String} {c : Char} (hc : isSpace c = false) (hmem : c ∈ s.toList) :
    c ∈ (strip s).toList := by
  have hfront := mem_dropWhile hc hmem
  have hback := mem_dropWhile hc (List.mem_reverse.mpr hfront)
  simpa [strip, rstripChars] using hback

/-- Nothing is dropped from a text that does not begin with it. -/
theorem dropWhile_of_head {p : Char → Bool} {cs : List Char} (h : ∀ c ∈ cs.head?, p c = false) :
    cs.dropWhile p = cs := by
  rcases cs with _ | ⟨c, cs⟩
  · rfl
  · simp [h c rfl]

/-- What is left does not begin with what was dropped. -/
theorem head?_dropWhile_eq_false (p : Char → Bool) (cs : List Char) :
    ∀ c ∈ (cs.dropWhile p).head?, p c = false := by
  intro c hc
  have hhead := List.head?_dropWhile_not p cs
  rw [hc] at hhead
  simpa using hhead

/-- A text that begins and ends without blanks is stripped already. -/
theorem strip_of_ends {cs : List Char} (hfirst : ∀ c ∈ cs.head?, isSpace c = false)
    (hlast : ∀ c ∈ cs.getLast?, isSpace c = false) :
    strip (String.ofList cs) = String.ofList cs := by
  have hback : cs.reverse.dropWhile isSpace = cs.reverse :=
    dropWhile_of_head (by rwa [List.head?_reverse])
  simp [strip, rstripChars, dropWhile_of_head hfirst, hback]

/-! ### Splitting -/

/-- **The parts of a text hold no separator.** -/
theorem of_mem_splitOnP {p : Char → Bool} {cs part : List Char} (h : part ∈ cs.splitOnP p) :
    ∀ c ∈ part, p c = false := by
  induction cs generalizing part with
  | nil =>
    rw [List.splitOnP_nil, List.mem_singleton] at h
    simp [h]
  | cons c cs ih =>
    rw [List.splitOnP_cons_eq_if_modifyHead] at h
    split_ifs at h with hc
    · rcases List.mem_cons.mp h with rfl | h
      · simp
      · exact ih h
    · obtain ⟨first, rest, hparts⟩ := List.exists_cons_of_ne_nil (List.splitOnP_ne_nil p cs)
      rw [hparts, List.modifyHead_cons] at h
      rcases List.mem_cons.mp h with rfl | h
      · refine List.forall_mem_cons.mpr ⟨by simpa using hc, ih ?_⟩
        rw [hparts]
        exact List.mem_cons_self ..
      · refine ih ?_
        rw [hparts]
        exact List.mem_cons_of_mem _ h

/-- The first separator of a text, if it has one. -/
theorem exists_separator (p : Char → Bool) (cs : List Char) :
    (∀ c ∈ cs, p c = false) ∨
      ∃ a c b, cs = a ++ c :: b ∧ (∀ c ∈ a, p c = false) ∧ p c = true := by
  induction cs with
  | nil => exact Or.inl (by simp)
  | cons c cs ih =>
    rcases hc : p c with _ | _
    · rcases ih with hnone | ⟨a, d, b, rfl, ha, hd⟩
      · exact Or.inl (List.forall_mem_cons.mpr ⟨hc, hnone⟩)
      · exact Or.inr ⟨c :: a, d, b, rfl, List.forall_mem_cons.mpr ⟨hc, ha⟩, hd⟩
    · exact Or.inr ⟨[], c, cs, rfl, by simp, hc⟩

/-- **The parts of a text** are its pieces without separators that begin at the start or behind
a separator, and end at the end or before one. -/
theorem mem_splitOnP_iff {p : Char → Bool} {cs part : List Char} :
    part ∈ cs.splitOnP p ↔ (∀ c ∈ part, p c = false) ∧
      ∃ before after, cs = before ++ part ++ after ∧ (∀ c ∈ before.getLast?, p c = true) ∧
        ∀ c ∈ after.head?, p c = true := by
  constructor
  · intro hpart
    refine ⟨of_mem_splitOnP hpart, ?_⟩
    -- by the length of the text: what is behind its first separator is shorter
    induction hn : cs.length using Nat.strong_induction_on generalizing cs with
    | _ n ih =>
      rcases exists_separator p cs with hnone | ⟨a, c, b, rfl, ha, hc⟩
      · rw [List.splitOnP_eq_singleton hnone, List.mem_singleton] at hpart
        exact ⟨[], [], by simp [hpart], by simp, by simp⟩
      · rw [List.splitOnP_append_cons a b hc, List.splitOnP_eq_singleton ha,
          List.singleton_append, List.mem_cons] at hpart
        rcases hpart with rfl | hpart
        · exact ⟨[], c :: b, rfl, by simp, by simp [hc]⟩
        · obtain ⟨before, after, rfl, hbefore, hafter⟩ := ih b.length
            (by rw [← hn, List.length_append, List.length_cons]; omega) hpart rfl
          refine ⟨a ++ c :: before, after, by simp, ?_, hafter⟩
          rcases before with _ | ⟨d, before⟩
          · simp [hc]
          · simpa [List.getLast?_append, List.getLast?_cons_cons] using hbefore
  · rintro ⟨hpart, before, after, rfl, hbefore, hafter⟩
    have hback : part ∈ (part ++ after).splitOnP p := by
      rcases after with _ | ⟨c, after⟩
      · rw [List.append_nil, List.splitOnP_eq_singleton hpart]
        exact List.mem_singleton_self part
      · rw [List.splitOnP_append_cons part after (hafter c (by simp)),
          List.splitOnP_eq_singleton hpart]
        exact List.mem_cons_self ..
    rcases List.eq_nil_or_concat before with rfl | ⟨front, c, rfl⟩
    · exact hback
    · have hwhole : front.concat c ++ part ++ after = front ++ c :: (part ++ after) := by simp
      rw [hwhole, List.splitOnP_append_cons front _ (hbefore c (by simp))]
      exact List.mem_append_right _ hback

theorem not_mem_of_mem_splitOn {x : Char} {cs part : List Char} (h : part ∈ cs.splitOn x) :
    x ∉ part := by
  rw [List.splitOn_eq_splitOnP] at h
  intro hx
  simpa using of_mem_splitOnP h x hx

/-- What is between two separators. -/
def innerParts (x : Char) (cs : List Char) : List (List Char) := (cs.splitOn x).tail.dropLast

/-- **A text in brackets without separators**: it is one part, or its first and its last part
are in the brackets. -/
theorem splitOn_surround {x : Char} {a b : List Char} (ha : x ∉ a) (hb : x ∉ b)
    (cs : List Char) :
    (innerParts x cs = [] ∧ (a ++ cs ++ b).splitOn x = [a ++ cs ++ b]) ∨
      ∃ first last,
        (a ++ cs ++ b).splitOn x = (a ++ first) :: (innerParts x cs ++ [last ++ b]) := by
  by_cases hx : x ∈ cs
  · obtain ⟨u, v, rfl, hu⟩ := List.eq_append_cons_of_mem hx
    have hau : (a ++ u).splitOn x = [a ++ u] := List.splitOn_eq_singleton (by simp [ha, hu])
    -- the first part ends at the first separator
    have hfront : a ++ (u ++ x :: v) ++ b = (a ++ u) ++ x :: (v ++ b) := by simp
    refine Or.inr ?_
    rw [hfront, List.splitOn_append_cons_self, hau, innerParts, List.splitOn_append_cons_self,
      List.splitOn_eq_singleton hu]
    by_cases hv : x ∈ v.reverse
    · -- the last separator is another one than the first
      obtain ⟨z, w, hwz, hz⟩ := List.eq_append_cons_of_mem hv
      obtain rfl : v = w.reverse ++ x :: z.reverse := by
        simpa using congrArg List.reverse hwz
      rw [← List.mem_reverse] at hz
      have hback : (w.reverse ++ x :: z.reverse) ++ b = w.reverse ++ x :: (z.reverse ++ b) := by
        simp
      have hzb : (z.reverse ++ b).splitOn x = [z.reverse ++ b] :=
        List.splitOn_eq_singleton (by simp [List.mem_reverse.not.mp hz, hb])
      refine ⟨u, z.reverse, ?_⟩
      rw [hback, List.splitOn_append_cons_self, List.splitOn_append_cons_self,
        List.splitOn_eq_singleton hz, hzb]
      simp
    · rw [List.mem_reverse] at hv
      refine ⟨u, v, ?_⟩
      rw [List.splitOn_eq_singleton hv, List.splitOn_eq_singleton (by simp [hv, hb])]
      rfl
  · refine Or.inl ⟨?_, List.splitOn_eq_singleton (by simp [ha, hb, hx])⟩
    rw [innerParts, List.splitOn_eq_singleton hx]
    rfl

/-! ### Lines -/

/-- What reading makes of line ends changes no line, but for empty ones. -/
theorem exists_universalNewlines_parts (cs : List Char) : ∃ first rest rest',
    (universalNewlines cs).splitOnP isLineBreak = first :: rest ∧
    cs.splitOnP isLineBreak = first :: rest' ∧ ∀ line ≠ [], line ∈ rest ↔ line ∈ rest' := by
  have hlf : isLineBreak '\n' = true := by decide
  have hcr : isLineBreak '\r' = true := by decide
  fun_induction universalNewlines cs with
  | case1 => exact ⟨[], [], [], by simp, by simp, by simp⟩
  | case2 cs ih =>
    obtain ⟨first, rest, rest', hread, hraw, hsame⟩ := ih
    -- CRLF: one line end when read, and two in the text with an empty line between
    refine ⟨[], first :: rest, [] :: first :: rest', ?_, ?_, ?_⟩
    · rw [List.splitOnP_cons_eq_if_modifyHead, if_pos hlf, hread]
    · rw [List.splitOnP_cons_eq_if_modifyHead, if_pos hcr, List.splitOnP_cons_eq_if_modifyHead,
        if_pos hlf, hraw]
    · intro line hline
      simp [hline, hsame line hline]
  | case3 cs _ ih =>
    obtain ⟨first, rest, rest', hread, hraw, hsame⟩ := ih
    -- CR alone is read as LF
    refine ⟨[], first :: rest, first :: rest', ?_, ?_, ?_⟩
    · rw [List.splitOnP_cons_eq_if_modifyHead, if_pos hlf, hread]
    · rw [List.splitOnP_cons_eq_if_modifyHead, if_pos hcr, hraw]
    · intro line hline
      simp [hsame line hline]
  | case4 c cs _ _ ih =>
    obtain ⟨first, rest, rest', hread, hraw, hsame⟩ := ih
    simp only [List.splitOnP_cons_eq_if_modifyHead, hread, hraw]
    rcases isLineBreak c with _ | _
    · exact ⟨c :: first, rest, rest', rfl, rfl, hsame⟩
    · exact ⟨[], first :: rest, first :: rest', rfl, rfl, fun line hline => by
        simp [hsame line hline]⟩

/-- **The lines of a text** that are not empty are its parts between line ends. -/
theorem mem_splitLines_iff {cs line : List Char} (hline : line ≠ []) :
    line ∈ splitLines cs ↔ line ∈ cs.splitOnP isLineBreak := by
  obtain ⟨first, rest, rest', hread, hraw, hsame⟩ := exists_universalNewlines_parts cs
  have hparts : line ∈ (universalNewlines cs).splitOnP isLineBreak ↔
      line ∈ cs.splitOnP isLineBreak := by
    rw [hread, hraw, List.mem_cons, List.mem_cons, hsame line hline]
  rw [← hparts, splitLines]
  generalize (universalNewlines cs).splitOnP isLineBreak = parts
  split_ifs with hlast
  · conv_rhs => rw [← List.dropLast_append_getLast? [] hlast]
    simp [hline]
  · rfl

/-! ### Words -/

/-- The words of a text before a blank and of the text behind it. -/
theorem splitBlanks_append_blank {c : Char} (hc : isSpace c = true) (a b : List Char) :
    splitBlanks (a ++ c :: b) = splitBlanks a ++ splitBlanks b := by
  rw [splitBlanks, List.splitOnP_append_cons a b hc, List.filter_append]
  rfl

/-- A text without blanks is one word, if it is not empty. -/
theorem splitBlanks_of_notSpace {cs : List Char} (hne : cs ≠ [])
    (h : ∀ c ∈ cs, isSpace c = false) : splitBlanks cs = [cs] := by
  rw [splitBlanks, List.splitOnP_eq_singleton h]
  simp [hne]

@[simp] theorem splitBlanks_nil : splitBlanks [] = [] := by simp [splitBlanks]

theorem splitBlanks_of_space {cs : List Char} (h : ∀ c ∈ cs, isSpace c = true) :
    splitBlanks cs = [] := by
  induction cs with
  | nil => exact splitBlanks_nil
  | cons c cs ih =>
    obtain ⟨hc, hcs⟩ := List.forall_mem_cons.mp h
    have hblank := splitBlanks_append_blank hc [] cs
    rw [List.nil_append, splitBlanks_nil, List.nil_append] at hblank
    rw [hblank, ih hcs]

/-- Blanks before a text are in none of its words. -/
theorem splitBlanks_blanks_append {bs : List Char} (h : ∀ c ∈ bs, isSpace c = true)
    (cs : List Char) : splitBlanks (bs ++ cs) = splitBlanks cs := by
  induction bs with
  | nil => rfl
  | cons b bs ih =>
    obtain ⟨hb, hbs⟩ := List.forall_mem_cons.mp h
    have hblank := splitBlanks_append_blank hb [] (bs ++ cs)
    rw [List.nil_append, splitBlanks_nil, List.nil_append] at hblank
    rw [List.cons_append, hblank, ih hbs]

/-- Nor are blanks behind it. -/
theorem splitBlanks_append_blanks {bs : List Char} (h : ∀ c ∈ bs, isSpace c = true)
    (cs : List Char) : splitBlanks (cs ++ bs) = splitBlanks cs := by
  rcases bs with _ | ⟨b, bs⟩
  · rw [List.append_nil]
  · obtain ⟨hb, hbs⟩ := List.forall_mem_cons.mp h
    rw [splitBlanks_append_blank hb, splitBlanks_of_space hbs, List.append_nil]

/-- What stripping takes off are blanks. -/
theorem exists_strip (cs : List Char) : ∃ front back, (∀ c ∈ front, isSpace c = true) ∧
    (∀ c ∈ back, isSpace c = true) ∧
      cs = front ++ (strip (String.ofList cs)).toList ++ back := by
  have hfront : ∀ c ∈ cs.takeWhile isSpace, isSpace c = true := fun c hc =>
    List.mem_takeWhile_imp hc
  refine ⟨cs.takeWhile isSpace, ((cs.dropWhile isSpace).reverse.takeWhile isSpace).reverse,
    hfront, fun c hc => List.mem_takeWhile_imp (List.mem_reverse.mp hc), ?_⟩
  have hback : rstripChars (cs.dropWhile isSpace) ++
      ((cs.dropWhile isSpace).reverse.takeWhile isSpace).reverse = cs.dropWhile isSpace := by
    rw [rstripChars, ← List.reverse_append, List.takeWhile_append_dropWhile, List.reverse_reverse]
  rw [strip, String.toList_ofList, String.toList_ofList, List.append_assoc, hback,
    List.takeWhile_append_dropWhile]

/-- **Stripping changes no word.** -/
theorem splitBlanks_strip (cs : List Char) :
    splitBlanks (strip (String.ofList cs)).toList = splitBlanks cs := by
  obtain ⟨front, back, hfront, hback, heq⟩ := exists_strip cs
  conv_rhs => rw [heq]
  rw [splitBlanks_append_blanks hback, splitBlanks_blanks_append hfront]

/-- **A word is not empty, and has no blank.** -/
theorem of_mem_splitBlanks {cs word : List Char} (h : word ∈ splitBlanks cs) :
    word ≠ [] ∧ ∀ c ∈ word, isSpace c = false := by
  obtain ⟨hmem, hne⟩ := List.mem_filter.mp h
  exact ⟨by simpa using hne, of_mem_splitOnP hmem⟩

/-- **The first word of a text** is behind blanks, and ends at the end or before a blank. -/
theorem splitBlanks_eq_cons_iff {cs word : List Char} {words : List (List Char)} :
    splitBlanks cs = word :: words ↔ ∃ front back, cs = front ++ word ++ back ∧
      (∀ c ∈ front, isSpace c = true) ∧ word ≠ [] ∧ (∀ c ∈ word, isSpace c = false) ∧
      (∀ c ∈ back.head?, isSpace c = true) ∧ splitBlanks back = words := by
  have hfirst {front word back : List Char} (hfront : ∀ c ∈ front, isSpace c = true)
      (hne : word ≠ []) (hword : ∀ c ∈ word, isSpace c = false)
      (hback : ∀ c ∈ back.head?, isSpace c = true) :
      splitBlanks (front ++ word ++ back) = word :: splitBlanks back := by
    rw [List.append_assoc, splitBlanks_blanks_append hfront]
    rcases back with _ | ⟨b, back⟩
    · rw [List.append_nil, splitBlanks_of_notSpace hne hword, splitBlanks_nil]
    · have hb := hback b (by simp)
      have hblank := splitBlanks_append_blank hb [] back
      rw [List.nil_append, splitBlanks_nil, List.nil_append] at hblank
      rw [splitBlanks_append_blank hb, splitBlanks_of_notSpace hne hword, hblank,
        List.singleton_append]
  constructor
  · intro hsplit
    -- the text falls into its blanks, the word behind them and the rest
    have hwhole := List.takeWhile_append_dropWhile (p := isSpace) (l := cs)
    have hfront : ∀ c ∈ cs.takeWhile isSpace, isSpace c = true := fun c hc =>
      List.mem_takeWhile_imp hc
    have hhead := head?_dropWhile_eq_false isSpace cs
    generalize cs.takeWhile isSpace = front at hwhole hfront
    generalize cs.dropWhile isSpace = rest at hwhole hhead
    have hrest := List.takeWhile_append_dropWhile (p := fun c => !isSpace c) (l := rest)
    have hback := head?_dropWhile_eq_false (fun c => !isSpace c) rest
    have hword : ∀ c ∈ rest.takeWhile (fun c => !isSpace c), isSpace c = false := fun c hc => by
      simpa using List.mem_takeWhile_imp hc
    -- there is a word, because blanks alone split into none
    have hne : rest.takeWhile (fun c => !isSpace c) ≠ [] := by
      rcases rest with _ | ⟨c, rest⟩
      · rw [List.append_nil] at hwhole
        rw [← hwhole, splitBlanks_of_space hfront] at hsplit
        simp at hsplit
      · simp [hhead c (by simp)]
    generalize rest.takeWhile (fun c => !isSpace c) = first at hrest hword hne
    generalize rest.dropWhile (fun c => !isSpace c) = back at hrest hback
    have hends : ∀ c ∈ back.head?, isSpace c = true := fun c hc => by simpa using hback c hc
    rw [← hwhole, ← hrest, ← List.append_assoc, hfirst hfront hne hword hends] at hsplit
    obtain ⟨rfl, rfl⟩ := List.cons.inj hsplit
    exact ⟨front, back, by rw [List.append_assoc, hrest, hwhole], hfront, hne, hword, hends, rfl⟩
  · rintro ⟨front, back, rfl, hfront, hne, hword, hback, rfl⟩
    exact hfirst hfront hne hword hback

/-- A piece without separators at the start of a text is in its first part. -/
theorem prefix_of_splitOnP {p : Char → Bool} {t : List Char} (ht : ∀ c ∈ t, p c = false)
    {cs first : List Char} {rest : List (List Char)} (hsplit : cs.splitOnP p = first :: rest) :
    t <+: cs ↔ t <+: first := by
  induction cs generalizing t first rest with
  | nil =>
    rw [List.splitOnP_nil] at hsplit
    rw [(List.cons.inj hsplit).1]
  | cons c cs ih =>
    rcases t with _ | ⟨d, t⟩
    · simp
    obtain ⟨hd, ht⟩ := List.forall_mem_cons.mp ht
    rw [List.splitOnP_cons_eq_if_modifyHead] at hsplit
    split_ifs at hsplit with hc
    · obtain ⟨rfl, -⟩ := List.cons.inj hsplit
      have hne : d ≠ c := by
        rintro rfl
        simp [hd] at hc
      simp [List.cons_prefix_cons, hne]
    · obtain ⟨first', rest', hparts⟩ := List.exists_cons_of_ne_nil (List.splitOnP_ne_nil p cs)
      rw [hparts, List.modifyHead_cons] at hsplit
      obtain ⟨rfl, -⟩ := List.cons.inj hsplit
      rw [List.cons_prefix_cons, List.cons_prefix_cons, ih ht hparts]

/-- **A piece without separators is in one of the parts.** -/
theorem infix_iff_of_splitOnP {p : Char → Bool} {t : List Char} (hne : t ≠ [])
    (ht : ∀ c ∈ t, p c = false) (cs : List Char) :
    t <:+: cs ↔ ∃ part ∈ cs.splitOnP p, t <:+: part := by
  induction cs with
  | nil => simp
  | cons c cs ih =>
    obtain ⟨first, rest, hparts⟩ := List.exists_cons_of_ne_nil (List.splitOnP_ne_nil p cs)
    rw [List.infix_cons_iff, ih, List.splitOnP_cons_eq_if_modifyHead]
    split_ifs with hc
    · have hfront : ¬ t <+: c :: cs := by
        obtain ⟨d, t, rfl⟩ := List.exists_cons_of_ne_nil hne
        intro hprefix
        obtain ⟨rfl, -⟩ := List.cons_prefix_cons.mp hprefix
        simp [(List.forall_mem_cons.mp ht).1] at hc
      simp [hfront, hne]
    · have hhead : t <+: c :: cs ↔ t <+: c :: first := by
        have hsplit : (c :: cs).splitOnP p = (c :: first) :: rest := by
          rw [List.splitOnP_cons_eq_if_modifyHead, if_neg hc, hparts, List.modifyHead_cons]
        exact prefix_of_splitOnP ht hsplit
      rw [hparts, List.modifyHead_cons, List.exists_mem_cons_iff, List.exists_mem_cons_iff,
        List.infix_cons_iff, hhead, or_assoc]

/-- **A piece without blanks is in one of the words.** -/
theorem infix_iff_of_splitBlanks {t : List Char} (hne : t ≠ []) (ht : ∀ c ∈ t, isSpace c = false)
    (cs : List Char) : t <:+: cs ↔ ∃ word ∈ splitBlanks cs, t <:+: word := by
  rw [infix_iff_of_splitOnP hne ht]
  constructor
  · rintro ⟨part, hpart, hwithin⟩
    have hpart_ne : part ≠ [] := by
      rintro rfl
      exact hne (List.infix_nil.mp hwithin)
    exact ⟨part, List.mem_filter.mpr ⟨hpart, by simpa using hpart_ne⟩, hwithin⟩
  · rintro ⟨word, hword, hwithin⟩
    exact ⟨word, (List.mem_filter.mp hword).1, hwithin⟩

/-! ### Stripped texts -/

/-- `str.strip`, of some characters. -/
def stripChars (cs : List Char) : List Char := rstripChars (cs.dropWhile isSpace)

/-- **A text without blanks at its ends.** -/
structure Stripped (cs : List Char) : Prop where
  /-- It does not begin with a blank. -/
  first : ∀ c ∈ cs.head?, isSpace c = false
  /-- It does not end with one. -/
  last : ∀ c ∈ cs.getLast?, isSpace c = false

theorem stripped_nil : Stripped [] := ⟨by simp, by simp⟩

theorem rstripChars_of_last {cs : List Char} (h : ∀ c ∈ cs.getLast?, isSpace c = false) :
    rstripChars cs = cs := by
  have hdrop : cs.reverse.dropWhile isSpace = cs.reverse :=
    dropWhile_of_head (by rwa [List.head?_reverse])
  rw [rstripChars, hdrop, List.reverse_reverse]

/-- What is taken off the end is blanks. -/
theorem exists_rstripChars (cs : List Char) :
    ∃ bs, (∀ c ∈ bs, isSpace c = true) ∧ cs = rstripChars cs ++ bs := by
  refine ⟨(cs.reverse.takeWhile isSpace).reverse,
    fun c hc => List.mem_takeWhile_imp (List.mem_reverse.mp hc), ?_⟩
  rw [rstripChars, ← List.reverse_append, List.takeWhile_append_dropWhile, List.reverse_reverse]

theorem last_rstripChars (cs : List Char) :
    ∀ c ∈ (rstripChars cs).getLast?, isSpace c = false := by
  intro c hc
  rw [rstripChars, List.getLast?_reverse] at hc
  exact head?_dropWhile_eq_false isSpace cs.reverse c hc

theorem rstripChars_append_blanks {bs : List Char} (h : ∀ c ∈ bs, isSpace c = true)
    (cs : List Char) : rstripChars (cs ++ bs) = rstripChars cs := by
  have hrev : ∀ c ∈ bs.reverse, isSpace c = true := fun c hc => h c (List.mem_reverse.mp hc)
  rw [rstripChars, List.reverse_append, List.dropWhile_append_of_pos hrev, rstripChars]

theorem stripChars_blanks_append {bs : List Char} (h : ∀ c ∈ bs, isSpace c = true)
    (cs : List Char) : stripChars (bs ++ cs) = stripChars cs := by
  rw [stripChars, List.dropWhile_append_of_pos h, stripChars]

/-- **A stripped text stays as it is.** -/
theorem Stripped.stripChars_eq {cs : List Char} (h : Stripped cs) : stripChars cs = cs := by
  rw [stripChars, dropWhile_of_head h.first, rstripChars_of_last h.last]

theorem Stripped.append_blanks {cs bs : List Char} (h : Stripped cs)
    (hbs : ∀ c ∈ bs, isSpace c = true) : stripChars (cs ++ bs) = cs := by
  rcases cs with _ | ⟨c, cs⟩
  · have hblank := stripChars_blanks_append hbs []
    rw [List.append_nil] at hblank
    rw [List.nil_append, hblank]
    rfl
  · rw [stripChars, List.cons_append, dropWhile_of_head (by simpa using h.first c rfl),
      ← List.cons_append, rstripChars_append_blanks hbs, rstripChars_of_last h.last]

/-- What is left of a text without its last blanks begins like the text. -/
theorem head?_rstripChars {cs : List Char} (h : ∀ c ∈ cs.head?, isSpace c = false) :
    (rstripChars cs).head? = cs.head? := by
  obtain ⟨bs, hbs, heq⟩ := exists_rstripChars cs
  rcases hstrip : rstripChars cs with _ | ⟨c, rest⟩
  · rw [hstrip, List.nil_append] at heq
    rcases cs with _ | ⟨c, cs⟩
    · rfl
    · have hblank := hbs c (heq ▸ List.mem_cons_self ..)
      simp [h c rfl] at hblank
  · rw [hstrip] at heq
    rw [heq]
    rfl

/-- **Stripping leaves no blanks at the ends.** -/
theorem stripped_stripChars (cs : List Char) : Stripped (stripChars cs) where
  first c hc := by
    have hfirst := head?_dropWhile_eq_false isSpace cs
    rw [stripChars, head?_rstripChars hfirst] at hc
    exact hfirst c hc
  last := last_rstripChars _

/-- A text that stripping leaves alone. -/
theorem stripped_of_eq {cs : List Char} (h : stripChars cs = cs) : Stripped cs :=
  h ▸ stripped_stripChars cs

theorem mem_of_mem_rstripChars {cs : List Char} {c : Char} (h : c ∈ rstripChars cs) : c ∈ cs := by
  obtain ⟨bs, -, heq⟩ := exists_rstripChars cs
  rw [heq]
  exact List.mem_append_left _ h

theorem mem_of_mem_stripChars {cs : List Char} {c : Char} (h : c ∈ stripChars cs) : c ∈ cs :=
  (List.dropWhile_suffix _).subset (mem_of_mem_rstripChars h)

end Apatchy
