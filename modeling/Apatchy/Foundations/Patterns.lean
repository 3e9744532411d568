import Apatchy.Foundations.LinePatterns
import Apatchy.Foundations.Text

/-!
# Patterns with groups

Regular expressions that take a text apart: `re.match` tries one at the start of the text,
`re.search` at every position, and the groups of a match are what stands between two marks
of the pattern (`Apatchy.PatternPart`, `Apatchy.matchParts`). A run of characters is greedy
or lazy, and is tried again shorter or longer if what follows does not match.

A pattern is read off a text part by part. `Apatchy.Takes` says that some parts take a
certain text, in front of any text that does not go on with a certain kind of character; it
is put together with `Apatchy.Takes.append`, and `Apatchy.Takes.reMatch` is the match of the
whole pattern.

What `\d` and `\w` stand for is a parameter (`Apatchy.CharKinds`): Python's are those of
Unicode.
-/

namespace Apatchy

/-! ### Kinds of characters -/

/-- **The kinds of characters of a regular expression**, beside the blanks. -/
structure CharKinds where
  /-- `\d`. -/
  isDigit : Char → Bool
  /-- `\w`. -/
  isWord : Char → Bool
  /-- The value of a digit. -/
  digitValue : Char → ℕ
  /-- The digits of ASCII. -/
  isDigit_ascii : ∀ c, c.toNat < 128 → isDigit c = c.isDigit
  /-- The word characters of ASCII. -/
  isWord_ascii : ∀ c, c.toNat < 128 → isWord c = (c.isAlphanum || c == '_')
  /-- The values of the digits of ASCII. -/
  digitValue_ascii : ∀ c, c.isDigit → digitValue c = c.toNat - '0'.toNat
  /-- A digit is a word character. -/
  isWord_of_isDigit : ∀ c, isDigit c → isWord c
  /-- No word character is a blank. -/
  not_isSpace_of_isWord : ∀ c, isWord c → isSpace c = false

namespace CharKinds

/-- The kinds of characters of ASCII alone. -/
def ascii : CharKinds where
  isDigit := Char.isDigit
  isWord c := c.isAlphanum || c == '_'
  digitValue c := c.toNat - '0'.toNat
  isDigit_ascii _ _ := rfl
  isWord_ascii _ _ := rfl
  digitValue_ascii _ _ := rfl
  isWord_of_isDigit c h := by simp [Char.isAlphanum, h]
  not_isSpace_of_isWord c h := by
    change (decide ('A'.val ≤ c.val ∧ c.val ≤ 'Z'.val) ||
      decide ('a'.val ≤ c.val) && decide (c.val ≤ 'z'.val) ||
      decide ('0'.val ≤ c.val) && decide (c.val ≤ '9'.val) || c == '_') = true at h
    simp only [Bool.or_eq_true, Bool.and_eq_true, decide_eq_true_eq, UInt32.le_iff_toNat_le,
      beq_iff_eq] at h
    have hrange : 48 ≤ c.toNat ∧ c.toNat ≤ 122 := by
      rcases h with (((⟨hle, hge⟩ | ⟨hle, hge⟩) | ⟨hle, hge⟩)) | rfl
      · exact ⟨le_trans (by decide) hle, hge.trans (by decide)⟩
      · exact ⟨le_trans (by decide) hle, hge.trans (by decide)⟩
      · exact ⟨hle, hge.trans (by decide)⟩
      · decide
    simp only [isSpace, Bool.or_eq_false_iff, Bool.and_eq_false_iff, decide_eq_false_iff_not,
      beq_eq_false_iff_ne]
    omega

variable (kinds : CharKinds)

theorem isDigit_of_isSpace {c : Char} (h : isSpace c = true) : kinds.isDigit c = false := by
  by_contra hdigit
  have hword := kinds.isWord_of_isDigit c (by simpa using hdigit)
  simp [kinds.not_isSpace_of_isWord c hword] at h

theorem isWord_of_isSpace {c : Char} (h : isSpace c = true) : kinds.isWord c = false := by
  by_contra hword
  simp [kinds.not_isSpace_of_isWord c (by simpa using hword)] at h

theorem isSpace_of_isDigit {c : Char} (h : kinds.isDigit c = true) : isSpace c = false :=
  kinds.not_isSpace_of_isWord c (kinds.isWord_of_isDigit c h)

/-- `int`, of digits. -/
def value (cs : List Char) : ℕ := cs.foldl (fun n c => 10 * n + kinds.digitValue c) 0

end CharKinds

/-! ### Matching -/

/-- A part of a pattern. -/
inductive PatternPart
  /-- One character of a kind. -/
  | one (p : Char → Bool)
  /-- As many characters of a kind as possible. -/
  | many (p : Char → Bool)
  /-- As few characters of a kind as possible. -/
  | few (p : Char → Bool)
  /-- A bound of a group. -/
  | mark

/-- A run of characters, and what is to match behind it: the shortest run is tried first. -/
def lazyStar {α : Type*} (p : Char → Bool) (k : List Char → Option α) : List Char → Option α
  | [] => k []
  | c :: cs => (k (c :: cs)).or (if p c then lazyStar p k cs else none)

/-- A match at the start of a text: what is left of the text at each mark. -/
def matchParts : List PatternPart → List Char → Option (List (List Char))
  | [], _ => some []
  | .one _ :: _, [] => none
  | .one p :: parts, c :: cs => if p c then matchParts parts cs else none
  | .many p :: parts, cs => star p (matchParts parts) cs
  | .few p :: parts, cs => lazyStar p (matchParts parts) cs
  | .mark :: parts, cs => (matchParts parts cs).map (cs :: ·)

/-- The groups of a match: what is between two marks. -/
def captures : List (List Char) → List (List Char)
  | cs :: behind :: marks => cs.take (cs.length - behind.length) :: captures marks
  | _ => []

/-- **`re.match`**: the groups of a match at the start of the text. -/
def reMatch (parts : List PatternPart) (cs : List Char) : Option (List (List Char)) :=
  (matchParts parts cs).map captures

/-- **`re.search`**: the groups of the first match. -/
def reSearch (parts : List PatternPart) : List Char → Option (List (List Char))
  | [] => reMatch parts []
  | c :: cs => (reMatch parts (c :: cs)).or (reSearch parts cs)

/-- `re.sub` with the empty text, for a pattern that takes at least one character; `skip`
characters belong to a match that is already removed. -/
def reRemove (parts : List PatternPart) : ℕ → List Char → List Char
  | _, [] => []
  | skip + 1, _ :: cs => reRemove parts skip cs
  | 0, c :: cs =>
    match (matchParts (parts ++ [.mark]) (c :: cs)).bind List.getLast? with
    | some rest => reRemove parts (cs.length - rest.length) cs
    | none => c :: reRemove parts 0 cs

/-! ### Parts of patterns -/

/-- A literal text. -/
def lit (s : String) : List PatternPart := s.toList.map fun c => .one (· = c)

/-- `x+`, for a kind of characters. -/
def some1 (p : Char → Bool) : List PatternPart := [.one p, .many p]

/-- A group. -/
def group (parts : List PatternPart) : List PatternPart := .mark :: parts ++ [.mark]

/-! ### What parts take -/

/-- A text does not go on with a kind of characters. -/
def Stops (p : Char → Bool) (rest : List Char) : Prop := ∀ c ∈ rest.head?, p c = false

/-- **Some parts take a text**, with these groups, in front of what does not go on with a
kind of characters. -/
def Takes (parts : List PatternPart) (a : List Char) (p : Char → Bool)
    (groups : List (List Char)) : Prop :=
  ∀ (later : List PatternPart) (rest : List Char) (marks : List (List Char)), Stops p rest →
    matchParts later rest = some marks →
    ∃ front, matchParts (parts ++ later) (a ++ rest) = some (front ++ marks) ∧
      ∀ marks', captures (front ++ marks') = groups ++ captures marks'

theorem stops_cons {p : Char → Bool} {c : Char} (h : p c = false) (rest : List Char) :
    Stops p (c :: rest) := by
  intro d hd
  obtain rfl : c = d := by simpa using hd
  exact h

theorem stops_nil (p : Char → Bool) : Stops p [] := by simp [Stops]

theorem stops_false (rest : List Char) : Stops (fun _ => false) rest := fun _ _ => rfl

/-- What does not go on at all is empty. -/
theorem eq_nil_of_stops {rest : List Char} (h : Stops (fun _ => true) rest) : rest = [] := by
  rcases rest with _ | ⟨c, rest⟩
  · rfl
  · simpa using h c rfl

/-- What is dropped is not what the rest begins with. -/
theorem stops_dropWhile (p : Char → Bool) (cs : List Char) : Stops p (cs.dropWhile p) :=
  head?_dropWhile_eq_false p cs

/-- A text that is not empty decides with its first character. -/
theorem stops_append {p : Char → Bool} {a : List Char} (hne : a ≠ [])
    (h : ∀ c ∈ a, p c = false) (rest : List Char) : Stops p (a ++ rest) := by
  obtain ⟨c, a, rfl⟩ := List.exists_cons_of_ne_nil hne
  exact stops_cons (h c (List.mem_cons_self ..)) _

/-- Marks that make no group are none. -/
theorem eq_nil_of_captures {front : List (List Char)}
    (h : ∀ marks, captures (front ++ marks) = captures marks) : front = [] := by
  rcases front with _ | ⟨cs, _ | ⟨ds, front⟩⟩
  · rfl
  · simpa [captures] using h [[]]
  · simpa [captures] using h []

@[simp] theorem captures_group (a rest : List Char) (marks : List (List Char)) :
    captures ((a ++ rest) :: rest :: marks) = a :: captures marks := by
  have hlength : (a ++ rest).length - rest.length = a.length := by simp
  rw [captures, hlength, List.take_left]

namespace Takes

variable {parts parts' : List PatternPart} {a b : List Char} {p q : Char → Bool}
  {groups groups' : List (List Char)}

/-- **Parts in a row** take texts in a row. -/
theorem append (h : Takes parts a p groups) (h' : Takes parts' b q groups')
    (hstops : ∀ rest, Stops q rest → Stops p (b ++ rest)) :
    Takes (parts ++ parts') (a ++ b) q (groups ++ groups') := by
  intro later rest marks hrest hlater
  obtain ⟨back, hback, hgroups'⟩ := h' later rest marks hrest hlater
  obtain ⟨front, hfront, hgroups⟩ := h (parts' ++ later) (b ++ rest) _ (hstops rest hrest) hback
  refine ⟨front ++ back, ?_, ?_⟩
  · rw [List.append_assoc, List.append_assoc, hfront, List.append_assoc]
  · intro marks'
    rw [List.append_assoc, hgroups, hgroups', List.append_assoc]

/-- Where a text may go on can be restricted. -/
theorem restrict (h : Takes parts a p groups) (hq : ∀ rest, Stops q rest → Stops p rest) :
    Takes parts a q groups :=
  fun later rest marks hrest hlater => h later rest marks (hq rest hrest) hlater

/-- At its end a text does not go on. -/
theorem atEnd (h : Takes parts a p groups) : Takes parts a (fun _ => true) groups :=
  h.restrict fun rest hrest => by
    rw [eq_nil_of_stops hrest]
    exact stops_nil p

/-- **The whole pattern** matches the whole text. -/
theorem reMatch (h : Takes parts a p groups) : reMatch parts a = some groups := by
  obtain ⟨front, hfront, hgroups⟩ := h [] [] [] (stops_nil p) rfl
  simp only [List.append_nil] at hfront hgroups
  have hcaptures := hgroups []
  rw [List.append_nil] at hcaptures
  rw [Apatchy.reMatch, hfront, Option.map_some, hcaptures]
  simp [captures]

/-- A text without groups becomes a group. -/
theorem group (h : Takes parts a p []) : Takes (group parts) a p [a] := by
  intro later rest marks hrest hlater
  have hmark : matchParts (.mark :: later) rest = some (rest :: marks) := by
    rw [matchParts, hlater]
    rfl
  obtain ⟨front, hfront, hgroups⟩ := h (.mark :: later) rest _ hrest hmark
  obtain rfl : front = [] := eq_nil_of_captures hgroups
  refine ⟨[a ++ rest, rest], ?_, fun marks' => captures_group a rest marks'⟩
  rw [Apatchy.group, List.append_assoc]
  show (matchParts (parts ++ (.mark :: later)) (a ++ rest)).map _ = _
  rw [hfront]
  rfl

/-! #### The parts, one by one -/

/-- A literal takes itself. -/
theorem lit (s : String) : Takes (lit s) s.toList (fun _ => false) [] := by
  intro later rest _ _ hlater
  refine ⟨[], ?_, fun _ => rfl⟩
  rw [Apatchy.lit]
  induction s.toList with
  | nil => exact hlater
  | cons c cs ih =>
    rw [List.map_cons, List.cons_append, List.cons_append, matchParts, if_pos (by simp)]
    exact ih

/-- A greedy run takes all characters of its kind. -/
theorem many {p : Char → Bool} {a : List Char} (ha : ∀ c ∈ a, p c = true) :
    Takes [.many p] a p [] := by
  intro later rest _ hrest hlater
  refine ⟨[], ?_, fun _ => rfl⟩
  have hdrop : (a ++ rest).dropWhile p = rest := by
    rw [List.dropWhile_append_of_pos ha]
    rcases rest with _ | ⟨c, rest⟩
    · rfl
    · rw [List.dropWhile_cons_of_neg (by simp [hrest c rfl])]
  show star p (matchParts later) (a ++ rest) = _
  exact star_of_eq_some (by rw [hdrop, hlater, List.nil_append])

/-- So does one that is not to be empty. -/
theorem some1 {p : Char → Bool} {a : List Char} (hne : a ≠ []) (ha : ∀ c ∈ a, p c = true) :
    Takes (some1 p) a p [] := by
  obtain ⟨c, a, rfl⟩ := List.exists_cons_of_ne_nil hne
  intro later rest marks hrest hlater
  obtain ⟨front, hfront, hgroups⟩ :=
    many (fun d hd => ha d (List.mem_cons_of_mem _ hd)) later rest marks hrest hlater
  refine ⟨front, ?_, hgroups⟩
  rw [← hfront]
  show (if p c then _ else none) = _
  rw [if_pos (ha c (List.mem_cons_self ..))]
  rfl

end Takes

end Apatchy
