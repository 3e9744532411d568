import Mathlib.Data.List.TakeWhile

/-!
# Paths and their spellings

One path has many spellings: slashes can be repeated, and a part `.` changes nothing. A
path as such is whether it is absolute, and its parts (`Apatchy.PathName`); that is how
`pathlib` compares paths. A part `..` stays, since where it leads depends on links.

A path is joined to a directory by putting it below, unless it is absolute
(`Apatchy.PathName.join`). Code that works on the spellings, takes off the slashes at the
end of the directory and puts one in between, does the same for a path that is not
absolute, and for any path below the root (`Apatchy.PathName.parse_spliced`).
-/

namespace Apatchy

/-- **A path.** -/
structure PathName where
  /-- Whether it is absolute. -/
  absolute : Bool
  /-- Its parts. -/
  parts : List (List Char)
deriving DecidableEq, Repr

/-- `text.rstrip("/")`. -/
def rstripSlashes (cs : List Char) : List Char := (cs.reverse.dropWhile (· = '/')).reverse

namespace PathName

/-- The parts of a spelling. -/
def partsOf (cs : List Char) : List (List Char) :=
  (cs.splitOn '/').filter fun part => part ≠ [] ∧ part ≠ ['.']

/-- The path of a spelling. -/
def parse (s : String) : PathName where
  absolute := s.toList.head? = some '/'
  parts := partsOf s.toList

/-- **Joining a path to a directory**: an absolute path stands for itself. -/
def join (dir file : PathName) : PathName :=
  if file.absolute then file else ⟨dir.absolute, dir.parts ++ file.parts⟩

/-! ### Spellings -/

theorem partsOf_append_slash (a b : List Char) :
    partsOf (a ++ '/' :: b) = partsOf a ++ partsOf b := by
  simp [partsOf, List.splitOn_append_cons_self]

theorem partsOf_slashes (n : ℕ) : partsOf (List.replicate n '/') = [] := by
  induction n with
  | zero => decide
  | succ n ih =>
    have hfront := partsOf_append_slash [] (List.replicate n '/')
    rw [List.nil_append, ih, List.append_nil] at hfront
    rw [List.replicate_succ, hfront]
    decide

/-- **The last part of a spelling** that does not end in a slash or a dot. -/
theorem exists_partsOf_concat {front : List Char} {c : Char} (hslash : c ≠ '/') (hdot : c ≠ '.')
    {back : List Char} (hback : '/' ∉ back) : ∃ dirs stem,
      partsOf (front ++ back ++ [c]) = dirs ++ [stem ++ back ++ [c]] := by
  have hlast : ∀ stem : List Char, '/' ∉ stem →
      partsOf (stem ++ back ++ [c]) = [stem ++ back ++ [c]] := by
    intro stem hstem
    have hnot : '/' ∉ stem ++ back ++ [c] := by simp [hstem, hback, hslash.symm]
    have hne : stem ++ back ++ [c] ≠ ['.'] := by
      intro h
      have hend := congrArg List.getLast? h
      simp at hend
      exact hdot hend
    have hkept : stem ++ back ++ [c] ≠ [] ∧ stem ++ back ++ [c] ≠ ['.'] := ⟨by simp, hne⟩
    rw [partsOf, List.splitOn_eq_singleton hnot]
    exact List.filter_cons_of_pos (decide_eq_true hkept)
  by_cases hmem : '/' ∈ front
  · obtain ⟨stem, before, hfront, hstem⟩ :=
      List.eq_append_cons_of_mem (List.mem_reverse.mpr hmem)
    have hsplit : front = before.reverse ++ '/' :: stem.reverse := by
      rw [← List.reverse_reverse front, hfront]
      simp
    refine ⟨partsOf before.reverse, stem.reverse, ?_⟩
    rw [hsplit, ← hlast stem.reverse (by simpa using hstem), ← partsOf_append_slash]
    simp
  · exact ⟨[], front, hlast front hmem⟩

/-- What is taken off is slashes. -/
theorem exists_rstripSlashes (cs : List Char) :
    ∃ n, cs = rstripSlashes cs ++ List.replicate n '/' := by
  refine ⟨(cs.reverse.takeWhile (· = '/')).length, ?_⟩
  have hslash : ∀ c ∈ cs.reverse.takeWhile (· = '/'), c = '/' := fun c hc => by
    simpa using List.mem_takeWhile_imp hc
  have hsplit := List.takeWhile_append_dropWhile (p := (· = '/')) (l := cs.reverse)
  have hreverse := congrArg List.reverse hsplit
  rw [List.reverse_append, List.reverse_reverse] at hreverse
  rw [rstripSlashes, ← List.reverse_replicate, ← List.eq_replicate_of_mem hslash, hreverse]

theorem partsOf_rstripSlashes (cs : List Char) : partsOf (rstripSlashes cs) = partsOf cs := by
  obtain ⟨n, hn⟩ := exists_rstripSlashes cs
  rcases n with _ | n
  · rw [List.replicate_zero, List.append_nil] at hn
    rw [← hn]
  · have hsplit := partsOf_append_slash (rstripSlashes cs) (List.replicate n '/')
    rw [← List.replicate_succ, ← hn, partsOf_slashes, List.append_nil] at hsplit
    exact hsplit.symm

/-- What is left does not end in a slash. -/
theorem getLast?_rstripSlashes (cs : List Char) : (rstripSlashes cs).getLast? ≠ some '/' := by
  rw [rstripSlashes, List.getLast?_reverse]
  rcases hrest : cs.reverse.dropWhile (· = '/') with _ | ⟨c, rest⟩
  · simp
  · have hhead := List.head?_dropWhile_not (· = '/') cs.reverse
    rw [hrest] at hhead
    simpa using hhead

/-- A text that does not end in a slash is what is left of it and of slashes behind it. -/
theorem rstripSlashes_append {front : List Char} (hfront : front.getLast? ≠ some '/') (n : ℕ) :
    rstripSlashes (front ++ List.replicate n '/') = front := by
  rw [rstripSlashes, List.reverse_append, List.reverse_replicate,
    List.dropWhile_append_of_pos (by simp)]
  rcases hrest : front.reverse with _ | ⟨c, rest⟩
  · rw [List.reverse_eq_nil_iff.mp hrest]
    rfl
  · have hc : c ≠ '/' := by
      rintro rfl
      rw [← List.head?_reverse, hrest] at hfront
      exact hfront rfl
    rw [List.dropWhile_cons_of_neg (by simpa using hc), ← hrest, List.reverse_reverse]

/-- The directory without its slashes, a slash, and a path. -/
theorem parse_splice {dir : String} (hdir : dir ≠ "") (file : String) :
    parse (String.ofList (rstripSlashes dir.toList) ++ "/" ++ file) =
      ⟨(parse dir).absolute, (parse dir).parts ++ (parse file).parts⟩ := by
  have hchars : (String.ofList (rstripSlashes dir.toList) ++ "/" ++ file).toList =
      rstripSlashes dir.toList ++ '/' :: file.toList := by simp
  have hne : dir.toList ≠ [] := fun h => hdir (String.toList_eq_nil_iff.mp h)
  obtain ⟨n, hn⟩ := exists_rstripSlashes dir.toList
  have hhead : (rstripSlashes dir.toList ++ '/' :: file.toList).head? = some '/' ↔
      dir.toList.head? = some '/' := by
    rcases hstripped : rstripSlashes dir.toList with _ | ⟨c, cs⟩
    · -- The directory is made of slashes.
      rw [hstripped, List.nil_append] at hn
      rcases n with _ | n
      · exact absurd hn hne
      · simp [hn, List.replicate_succ]
    · rw [hn, hstripped]
      simp
  rw [parse, hchars, partsOf_append_slash, partsOf_rstripSlashes, decide_eq_decide.mpr hhead]
  rfl

/-- **A directory without its slashes, a slash, and a path that is not absolute**, or any path
below the root, spell the path joined to the directory. -/
theorem parse_spliced {dir file : String} (hdir : dir ≠ "")
    (hfile : (parse file).absolute = false ∨ parse dir = ⟨true, []⟩) :
    parse (String.ofList (rstripSlashes dir.toList) ++ "/" ++ file) =
      (parse dir).join (parse file) := by
  rw [parse_splice hdir, join]
  split_ifs with habsolute
  · have hroot := hfile.resolve_left (by simp [habsolute])
    rw [hroot, List.nil_append, ← habsolute]
  · rfl

end PathName

end Apatchy
