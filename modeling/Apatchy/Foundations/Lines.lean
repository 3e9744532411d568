import Apatchy.Foundations.Search

/-!
# Lines

Text on the wire comes in lines that end with CRLF, and a *block* of them ends with a
blank line. Both ways of finding the end of a block are here and agree: reading line by
line until one is empty (`Apatchy.Reader.block`), and searching for the first CRLFCRLF
(`Apatchy.find_blankLine`). They do because no line of a block is empty or holds a CR
(`Apatchy.IsLine`).

A reader with a buffer of fixed size takes a line only as far as there is room for it
(`Apatchy.cutLine`), and a long line in several pieces.
-/

namespace Apatchy

/-- The end of a line. -/
def crlf : List UInt8 := [13, 10]

/-- The end of a line and a blank line after it. -/
def blankLine : List UInt8 := crlf ++ crlf

/-- Lines, each with its end. -/
def joinLines (ls : List (List UInt8)) : List UInt8 := ls.flatMap fun l => l ++ crlf

/-- **A line**: it is not empty, and no CR is in it. -/
structure IsLine (l : List UInt8) : Prop where
  /-- It is not empty. -/
  ne_nil : l ≠ []
  /-- No CR is in it. -/
  cr : 13 ∉ l

@[simp] theorem joinLines_nil : joinLines [] = [] := rfl

@[simp] theorem joinLines_cons (l : List UInt8) (ls : List (List UInt8)) :
    joinLines (l :: ls) = l ++ crlf ++ joinLines ls := rfl

@[simp] theorem joinLines_append (ls ls' : List (List UInt8)) :
    joinLines (ls ++ ls') = joinLines ls ++ joinLines ls' := by
  simp [joinLines]

/-! ### The end of a block, by search -/

/-- Where a blank line is found if there is a line before it. -/
theorem find_blankLine_line {l : List UInt8} (hl : IsLine l) (s : List UInt8) :
    find blankLine (crlf ++ (l ++ s)) = (find blankLine (l ++ s)).map (· + 2) := by
  obtain ⟨c, l, rfl⟩ := List.exists_cons_of_ne_nil hl.ne_nil
  have hc : c ≠ 13 := fun h => hl.cr (h ▸ List.mem_cons_self ..)
  have hbegins : ¬ blankLine <+: 13 :: 10 :: c :: (l ++ s) := by
    simp [blankLine, crlf, hc.symm]
  have hskip : find blankLine ([10] ++ (c :: (l ++ s))) =
      (find blankLine (c :: (l ++ s))).map (· + 1) := find_skip (by decide) _
  have hfront : find blankLine (13 :: 10 :: c :: (l ++ s)) =
      (find blankLine ([10] ++ (c :: (l ++ s)))).map (· + 1) := find_cons_of_later hbegins
  simp only [crlf, List.cons_append, List.nil_append]
  rw [hfront, hskip, Option.map_map]
  rfl

/-- **The first CRLFCRLF is the end of the block**, whatever comes after it. -/
theorem find_blankLine {ls : List (List UInt8)} (hne : ls ≠ []) (hls : ∀ l ∈ ls, IsLine l)
    (rest : List UInt8) :
    (find blankLine (joinLines ls ++ crlf ++ rest)).map (· + 2) = some (joinLines ls).length := by
  induction ls with
  | nil => exact absurd rfl hne
  | cons l ls ih =>
    have hl := hls l (List.mem_cons_self ..)
    have hjoin : joinLines (l :: ls) ++ crlf ++ rest =
        l ++ (crlf ++ (joinLines ls ++ crlf ++ rest)) := by simp
    -- a line has no carriage return, so that the search gets over it
    have hskip : find blankLine (l ++ (crlf ++ (joinLines ls ++ crlf ++ rest))) =
        (find blankLine (crlf ++ (joinLines ls ++ crlf ++ rest))).map (· + l.length) :=
      find_skip hl.cr _
    rw [hjoin, hskip]
    rcases ls with _ | ⟨l', ls⟩
    · -- behind the last line the block ends
      have hfound : find blankLine (crlf ++ (joinLines [] ++ crlf ++ rest)) = some 0 := by
        refine find_at_front ?_
        simp [blankLine]
      rw [hfound]
      simp [crlf]
    · -- another line follows, which does not begin with CRLF
      have hnext := find_blankLine_line (hls l' (by simp))
        (crlf ++ (joinLines ls ++ crlf ++ rest))
      have hassoc : joinLines (l' :: ls) ++ crlf ++ rest =
          l' ++ (crlf ++ (joinLines ls ++ crlf ++ rest)) := by simp
      have htail := ih (by simp) fun l hl => hls l (List.mem_cons_of_mem _ hl)
      rw [hassoc] at htail ⊢
      obtain ⟨i, hi, hlength⟩ := Option.map_eq_some_iff.mp htail
      rw [hnext, hi]
      simp only [joinLines_cons, List.length_append, crlf, List.length_cons, List.length_nil,
        Option.map_some, Option.some.injEq] at hlength ⊢
      omega

/-! ### The end of a block, line by line -/

namespace Reader

/-- A line. -/
def line : Reader (List UInt8) := upTo crlf

/-- The lines before a blank line, with a bound on their number. -/
def linesUpTo : ℕ → Reader (List (List UInt8))
  | 0 => fun _ => none
  | n + 1 => do
    let l ← line
    if l = [] then return [] else return l :: (← linesUpTo n)

/-- **The lines before a blank line**, which is read too. -/
def block : Reader (List (List UInt8)) := fun bs => (linesUpTo bs.length).run bs

theorem reads_line {l : List UInt8} (h : 13 ∉ l) : Reads line (l ++ crlf) l := reads_upTo h

theorem reads_linesUpTo {ls : List (List UInt8)} (hls : ∀ l ∈ ls, IsLine l) {n : ℕ}
    (hn : ls.length < n) : Reads (linesUpTo n) (joinLines ls ++ crlf) ls := by
  induction ls generalizing n with
  | nil =>
    obtain ⟨n, rfl⟩ : ∃ m, n = m + 1 := ⟨n - 1, by simp at hn; omega⟩
    have hblank : Reads line ([] ++ crlf) [] := reads_line (by simp)
    intro rest
    rw [linesUpTo, StateT.run_bind, joinLines_nil, hblank rest]
    rfl
  | cons l ls ih =>
    have hl := hls l (List.mem_cons_self ..)
    obtain ⟨n, rfl⟩ : ∃ m, n = m + 1 := ⟨n - 1, by simp at hn; omega⟩
    have htail := ih (fun l hl => hls l (List.mem_cons_of_mem _ hl)) (by simpa using hn)
    have hread : Reads (linesUpTo (n + 1)) (l ++ crlf ++ (joinLines ls ++ crlf)) (l :: ls) := by
      refine (reads_line hl.cr).bind ?_
      rw [if_neg hl.ne_nil]
      exact htail.map
    rwa [← List.append_assoc] at hread

theorem length_le_joinLines (ls : List (List UInt8)) : ls.length ≤ (joinLines ls).length := by
  induction ls with
  | nil => simp
  | cons l ls ih =>
    simp only [joinLines_cons, List.length_append, List.length_cons, crlf] at ih ⊢
    omega

/-- **A block reads back as its lines.** -/
theorem reads_block {ls : List (List UInt8)} (hls : ∀ l ∈ ls, IsLine l) :
    Reads block (joinLines ls ++ crlf) ls := by
  intro rest
  refine reads_linesUpTo hls ?_ rest
  have hlength := length_le_joinLines ls
  simp only [List.length_append, crlf, List.length_cons]
  omega

end Reader

/-! ### A line that is cut to a size -/

section CutLine

variable {α : Type*} [DecidableEq α] {lf : α}

/-- **The first line of a text**, with its end – or as much of it as there is room for. -/
def cutLine (lf : α) : ℕ → List α → List α
  | 0, _ => []
  | _ + 1, [] => []
  | room + 1, c :: cs => if c = lf then [c] else c :: cutLine lf room cs

@[simp] theorem cutLine_zero (text : List α) : cutLine lf 0 text = [] := rfl

@[simp] theorem cutLine_nil (room : ℕ) : cutLine lf room [] = [] := by
  rcases room with _ | room
  · rfl
  · rfl

theorem length_cutLine_le (room : ℕ) (text : List α) : (cutLine lf room text).length ≤ room := by
  fun_induction cutLine lf room text with
  | case1 => exact le_rfl
  | case2 => exact Nat.zero_le _
  | case3 room cs => exact Nat.succ_le_succ (Nat.zero_le room)
  | case4 room c cs hc ih => exact Nat.succ_le_succ ih

/-- It is empty only for want of room or of text. -/
theorem cutLine_ne_nil {room : ℕ} (hroom : room ≠ 0) {text : List α} (htext : text ≠ []) :
    cutLine lf room text ≠ [] := by
  obtain ⟨room, rfl⟩ := Nat.exists_eq_succ_of_ne_zero hroom
  obtain ⟨c, cs, rfl⟩ := List.exists_cons_of_ne_nil htext
  rw [cutLine]
  split_ifs with hc
  · exact List.cons_ne_nil c []
  · exact List.cons_ne_nil c _

/-- **Only its last character can end a line.** -/
theorem ne_of_mem_dropLast_cutLine {room : ℕ} {text : List α} :
    ∀ c ∈ (cutLine lf room text).dropLast, c ≠ lf := by
  fun_induction cutLine lf room text with
  | case1 => simp
  | case2 => simp
  | case3 => simp
  | case4 room c cs hc ih =>
    intro d hd
    rcases hrest : cutLine lf room cs with _ | ⟨e, es⟩
    · simp [hrest] at hd
    · rw [hrest, List.dropLast_cons_cons, ← hrest] at hd
      rcases List.mem_cons.mp hd with rfl | hd
      · exact hc
      · exact ih d hd

end CutLine

end Apatchy
