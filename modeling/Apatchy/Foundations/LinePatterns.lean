import Mathlib.Data.List.TakeWhile

/-!
# Replacing what a pattern matches at the start of lines

A regular expression of the form `^(…)…` matches at the start of a line, and captures what
the part in parentheses has matched. Here are such patterns whose parts are characters,
ends of lines, and runs of characters of a kind (`Apatchy.LinePattern`). A run is greedy:
it takes as many characters as it can, and gives some back if what follows does not match
(`Apatchy.star`).

Replacing goes through the text from left to right, and goes on behind a match
(`Apatchy.LinePattern.sub`). The kind of characters of a run may include the line feed, so
a match can extend over several lines.
-/

namespace Apatchy

variable {α : Type*}

/-! ### Matching -/

/-- A part of a pattern. -/
inductive PatternItem
  /-- A character. -/
  | char (c : Char)
  /-- As many characters of a kind as possible. -/
  | many (p : Char → Bool)
  /-- `$`: the end of a line. -/
  | lineEnd

/-- A run of characters, and what is to match behind it: the longest run is tried first. -/
def star (p : Char → Bool) (k : List Char → Option α) : List Char → Option α
  | [] => k []
  | c :: cs =>
    if p c then
      match star p k cs with
      | some a => some a
      | none => k (c :: cs)
    else k (c :: cs)

/-- Some parts, and what is to match behind them. -/
def matchItems : List PatternItem → (List Char → Option α) → List Char → Option α
  | [], k => k
  | .char c :: items, k => fun cs =>
    match cs with
    | [] => none
    | d :: ds => if d = c then matchItems items k ds else none
  | .many p :: items, k => star p (matchItems items k)
  | .lineEnd :: items, k => fun cs =>
    if cs.head?.all (· = '\n') then matchItems items k cs else none

/-- **A pattern** `^(group)post`. -/
structure LinePattern where
  /-- What is captured. -/
  group : List PatternItem
  /-- What is to match behind it. -/
  post : List PatternItem

namespace LinePattern

/-- A match at the start of some characters: what is captured, and the characters behind
the match. -/
def matchAt (pattern : LinePattern) (cs : List Char) : Option (List Char × List Char) :=
  matchItems pattern.group (fun behind =>
    matchItems pattern.post (fun rest => some (cs.take (cs.length - behind.length), rest)) behind)
    cs

/-- **Replacing all matches**, for a pattern that does not match the empty text. `skip`
characters belong to a match that is already replaced, and `atStart` says whether a line
starts here. -/
def sub (pattern : LinePattern) (expand : List Char → List Char) :
    ℕ → Bool → List Char → List Char
  | _, _, [] => []
  | skip + 1, _, c :: cs => sub pattern expand skip (c = '\n') cs
  | 0, atStart, c :: cs =>
    match if atStart then pattern.matchAt (c :: cs) else none with
    | some (group, rest) =>
      expand group ++ sub pattern expand (cs.length - rest.length) (c = '\n') cs
    | none => c :: sub pattern expand 0 (c = '\n') cs

end LinePattern

/-! ### Ends of lines -/

/-- At the end of a line, or of the text. -/
def AtEnd (rest : List Char) : Prop := ∀ c, rest.head? = some c → c = '\n'

theorem atEnd_nil : AtEnd [] := by simp [AtEnd]

theorem atEnd_newline (cs : List Char) : AtEnd ('\n' :: cs) := by simp [AtEnd]

theorem atEnd_dropWhile (cs : List Char) : AtEnd (cs.dropWhile (· ≠ '\n')) := by
  intro c hc
  have hhead := List.head?_dropWhile_not (fun c => decide (c ≠ '\n')) cs
  rw [hc] at hhead
  simpa using hhead

/-! ### Runs -/

section Runs

variable {p : Char → Bool} {k : List Char → Option α}

/-- **The longest run is taken**, if what follows it matches. -/
theorem star_of_eq_some {cs : List Char} {a : α} (h : k (cs.dropWhile p) = some a) :
    star p k cs = some a := by
  induction cs with
  | nil => exact h
  | cons c cs ih =>
    rw [star]
    rcases hp : p c with _ | _
    · rw [List.dropWhile_cons_of_neg (by simp [hp])] at h
      rw [if_neg Bool.false_ne_true, h]
    · rw [List.dropWhile_cons_of_pos hp] at h
      rw [if_pos rfl, ih h]

/-- **A match takes a run**, and goes on behind it. -/
theorem of_star_eq_some {cs : List Char} {a : α} (h : star p k cs = some a) :
    ∃ run rest, cs = run ++ rest ∧ (∀ c ∈ run, p c = true) ∧ k rest = some a := by
  induction cs with
  | nil => exact ⟨[], [], rfl, by simp, h⟩
  | cons c cs ih =>
    rw [star] at h
    split_ifs at h with hp
    · rcases hstar : star p k cs with _ | b
      · rw [hstar] at h
        exact ⟨[], c :: cs, rfl, by simp, h⟩
      · rw [hstar] at h
        obtain ⟨run, rest, rfl, hrun, hrest⟩ := ih (hstar.trans h)
        exact ⟨c :: run, rest, rfl, List.forall_mem_cons.mpr ⟨hp, hrun⟩, hrest⟩
    · exact ⟨[], c :: cs, rfl, by simp, h⟩

/-- **Nothing is given back** to what cannot begin with a character of the run. -/
theorem star_of_disjoint (hk : ∀ c cs, p c = true → k (c :: cs) = none) (cs : List Char) :
    star p k cs = k (cs.dropWhile p) := by
  induction cs with
  | nil => rfl
  | cons c cs ih =>
    rw [star]
    rcases hp : p c with _ | _
    · rw [List.dropWhile_cons_of_neg (by simp [hp]), if_neg Bool.false_ne_true]
    · rw [List.dropWhile_cons_of_pos hp, if_pos rfl, ih]
      rcases hrest : k (cs.dropWhile p) with _ | a
      · exact hk c cs hp
      · rfl

/-- Characters match themselves. -/
theorem matchItems_chars (name : List Char) (items : List PatternItem)
    (k : List Char → Option α) (cs : List Char) :
    matchItems (name.map .char ++ items) k cs =
      if name <+: cs then matchItems items k (cs.drop name.length) else none := by
  induction name generalizing cs with
  | nil => simp
  | cons c name ih =>
    rcases cs with _ | ⟨d, cs⟩
    · simp [matchItems]
    · by_cases hd : d = c
      · subst hd
        simp [matchItems, ih]
      · have hc : ¬ c :: name <+: d :: cs := fun h => hd (List.cons_prefix_cons.mp h).1.symm
        rw [if_neg hc, List.map_cons, List.cons_append]
        exact if_neg hd

/-- **The rest of a line** always matches. -/
theorem matchItems_restOfLine {cs : List Char} {a : α}
    (h : k (cs.dropWhile (· ≠ '\n')) = some a) :
    matchItems [.many (· ≠ '\n'), .lineEnd] k cs = some a := by
  have hend : (cs.dropWhile (· ≠ '\n')).head?.all (· = '\n') = true := by
    rw [Option.all_eq_true]
    intro c hc
    exact decide_eq_true (atEnd_dropWhile cs c hc)
  refine star_of_eq_some ?_
  show (if _ then _ else _) = some a
  rw [if_pos hend, matchItems, h]

end Runs

/-! ### Replacing -/

namespace LinePattern

variable {pattern : LinePattern} {expand : List Char → List Char}

/-- What replacing does from the end of a line on. -/
def resume (pattern : LinePattern) (expand : List Char → List Char) : List Char → List Char
  | [] => []
  | c :: cs => c :: sub pattern expand 0 (c = '\n') cs

/-- **Behind a match**, replacing goes on at the end of the line. -/
theorem sub_skip (hpattern : ∀ cs, pattern.matchAt ('\n' :: cs) = none) {rest : List Char}
    (hrest : AtEnd rest) (front : List Char) (atStart : Bool) :
    sub pattern expand front.length atStart (front ++ rest) = resume pattern expand rest := by
  induction front generalizing atStart with
  | nil =>
    rcases rest with _ | ⟨c, rest⟩
    · rfl
    · obtain rfl := hrest c rfl
      cases atStart <;> simp [sub, resume, hpattern]
  | cons c front ih => exact ih _

/-- **Within a line**, nothing is replaced. -/
theorem sub_withinLine {l rest : List Char} (hl : '\n' ∉ l) (hrest : AtEnd rest)
    (hpattern : ∀ cs, pattern.matchAt ('\n' :: cs) = none) :
    sub pattern expand 0 false (l ++ rest) = l ++ resume pattern expand rest := by
  induction l with
  | nil => exact sub_skip hpattern hrest [] false
  | cons c l ih =>
    rw [List.mem_cons, not_or] at hl
    have hc : decide (c = '\n') = false := decide_eq_false (Ne.symm hl.1)
    simp [sub, hc, ih hl.2]

/-- **A line at whose start nothing matches** is left as it is. -/
theorem sub_of_matchAt_eq_none {l rest : List Char} (hl : '\n' ∉ l) (hrest : AtEnd rest)
    (hpattern : ∀ cs, pattern.matchAt ('\n' :: cs) = none)
    (h : pattern.matchAt (l ++ rest) = none) :
    sub pattern expand 0 true (l ++ rest) = l ++ resume pattern expand rest := by
  rcases l with _ | ⟨c, l⟩
  · exact sub_skip hpattern hrest [] true
  · rw [List.mem_cons, not_or] at hl
    have hc : decide (c = '\n') = false := decide_eq_false (Ne.symm hl.1)
    rw [List.cons_append] at h ⊢
    rw [sub, if_pos rfl, h]
    simp only [hc, sub_withinLine hl.2 hrest hpattern, List.cons_append]

/-- **A match at the start of a line** is replaced. -/
theorem sub_of_matchAt_eq_some {c : Char} {front rest group : List Char} (hrest : AtEnd rest)
    (hpattern : ∀ cs, pattern.matchAt ('\n' :: cs) = none)
    (h : pattern.matchAt (c :: front ++ rest) = some (group, rest)) :
    sub pattern expand 0 true (c :: front ++ rest) =
      expand group ++ resume pattern expand rest := by
  rw [List.cons_append] at h ⊢
  rw [sub, if_pos rfl, h]
  have hskip : (front ++ rest).length - rest.length = front.length := by simp
  simp only [hskip, sub_skip hpattern hrest]

end LinePattern

end Apatchy
