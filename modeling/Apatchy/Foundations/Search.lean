import Apatchy.Foundations.Reader

/-!
# Searching and editing strings

The functions with which C++ code edits a string as text: `find` and `rfind`
(`Apatchy.find`, `Apatchy.rfind`), `insert` and `replace` (`Apatchy.insertAt`,
`Apatchy.replaceAt`). A string is a list of letters, and a position in it a natural
number; `npos` is `none`.

The rules of a search say how it passes over a part of the string: letters that the
pattern does not begin with are skipped (`Apatchy.find_skip`), and the last occurrence
is in the part behind if there is one (`Apatchy.rfind_append`).

What is searched for is often the end of a field: `Apatchy.Reader.upTo` reads up to the
first occurrence of a separator and past it.
-/

namespace Apatchy

variable {α : Type}

/-! ### Edits -/

/-- `std::string::insert`. -/
def insertAt (i : ℕ) (t s : List α) : List α := s.take i ++ t ++ s.drop i

/-- `std::string::replace` of `n` letters from a position on. -/
def replaceAt (i n : ℕ) (t s : List α) : List α := s.take i ++ t ++ s.drop (i + n)

theorem insertAt_append (a t b : List α) : insertAt a.length t (a ++ b) = a ++ t ++ b := by
  simp [insertAt]

theorem insertAt_append_add (a t b : List α) (i : ℕ) :
    insertAt (a.length + i) t (a ++ b) = a ++ insertAt i t b := by
  have htake : a.take (a.length + i) = a := List.take_of_length_le (by omega)
  have hdrop : a.drop (a.length + i) = [] := List.drop_of_length_le (by omega)
  simp [insertAt, List.take_append, List.drop_append, htake, hdrop]

theorem replaceAt_append (a m t b : List α) :
    replaceAt a.length m.length t (a ++ m ++ b) = a ++ t ++ b := by
  simp [replaceAt, List.drop_append]

/-! ### The first and the last occurrence -/

variable [DecidableEq α]

/-- `std::string::find`: where the pattern occurs first. -/
def find (pat : List α) : List α → Option ℕ
  | [] => if pat = [] then some 0 else none
  | c :: cs => if pat.isPrefixOf (c :: cs) then some 0 else (find pat cs).map (· + 1)

/-- `std::string::find` from a position on. -/
def findFrom (pat s : List α) (pos : ℕ) : Option ℕ := (find pat (s.drop pos)).map (· + pos)

/-- `std::string::rfind`: where the pattern occurs last. -/
def rfind (pat : List α) : List α → Option ℕ
  | [] => if pat = [] then some 0 else none
  | c :: cs =>
    match rfind pat cs with
    | some i => some (i + 1)
    | none => if pat.isPrefixOf (c :: cs) then some 0 else none

/-! ### Passing over a part of the string -/

theorem find_cons_of_later {pat : List α} {c : α} {cs : List α} (h : ¬ pat <+: c :: cs) :
    find pat (c :: cs) = (find pat cs).map (· + 1) := by
  rw [find, if_neg (by rwa [List.isPrefixOf_iff_prefix])]

/-- The pattern is found where the string begins with it. -/
theorem find_at_front {pat s : List α} (h : pat <+: s) : find pat s = some 0 := by
  rcases s with _ | ⟨c, cs⟩
  · rw [find, if_pos (List.prefix_nil.mp h)]
  · rw [find, if_pos (List.isPrefixOf_iff_prefix.mpr h)]

/-- Nothing is found where there is no occurrence. -/
theorem find_eq_none_iff {pat s : List α} : find pat s = none ↔ ¬ pat <:+: s := by
  induction s with
  | nil => by_cases h : pat = [] <;> simp [find, h]
  | cons c cs ih =>
    by_cases h : pat <+: c :: cs
    · simp [find_at_front h, h.isInfix]
    · rw [find_cons_of_later h, Option.map_eq_none_iff, ih, List.infix_cons_iff]
      simp [h]

/-- **The first occurrence is found**: the pattern is there, and not before. -/
theorem find_eq_some_iff {pat s : List α} {i : ℕ} :
    find pat s = some i ↔ i ≤ s.length ∧ pat <+: s.drop i ∧ ∀ j < i, ¬ pat <+: s.drop j := by
  induction s generalizing i with
  | nil =>
    by_cases h : pat = []
    · subst h
      rcases i with _ | i <;> simp [find]
    · simp [find, h]
  | cons c cs ih =>
    by_cases h : pat <+: c :: cs
    · -- it is at the front, and nothing is before that
      rw [find_at_front h]
      constructor
      · rintro ⟨⟩
        simp [h]
      · rintro ⟨-, -, hbefore⟩
        rcases i with _ | i
        · rfl
        · exact absurd h (hbefore 0 (Nat.succ_pos i))
    · -- it is not, so that all places are one further
      rw [find_cons_of_later h, Option.map_eq_some_iff]
      constructor
      · rintro ⟨k, hk, rfl⟩
        obtain ⟨hle, hat, hbefore⟩ := ih.mp hk
        refine ⟨Nat.succ_le_succ hle, hat, ?_⟩
        intro j hj
        rcases j with _ | j
        · exact h
        · exact hbefore j (Nat.lt_of_succ_lt_succ hj)
      · rintro ⟨hle, hat, hbefore⟩
        rcases i with _ | i
        · exact absurd hat h
        · refine ⟨i, ih.mpr ⟨Nat.le_of_succ_le_succ hle, hat, ?_⟩, rfl⟩
          exact fun j hj => hbefore (j + 1) (Nat.succ_lt_succ hj)

/-- Cut behind the first occurrence, the string has the pattern at its end and nowhere
else. -/
theorem take_of_find {pat s : List α} {i : ℕ} (h : find pat s = some i) :
    pat <:+ s.take (i + pat.length) ∧
      ∀ a b, s.take (i + pat.length) = a ++ pat ++ b → b = [] := by
  obtain ⟨hle, ⟨rest, hrest⟩, hbefore⟩ := find_eq_some_iff.mp h
  have htake : s.take (i + pat.length) = s.take i ++ pat := by
    rw [List.take_add, ← hrest, List.take_left]
  refine ⟨⟨s.take i, htake.symm⟩, ?_⟩
  intro a b hab
  have hlength : i + pat.length = a.length + pat.length + b.length := by
    have heq := congrArg List.length (htake.symm.trans hab)
    simpa [Nat.min_eq_left hle, Nat.add_assoc] using heq
  by_contra hb
  have hpos : 0 < b.length := List.length_pos_of_ne_nil hb
  -- an occurrence before the end would be one before the first
  refine hbefore a.length (by omega) ?_
  have hs : s = a ++ (pat ++ (b ++ s.drop (i + pat.length))) := by
    conv_lhs => rw [← List.take_append_drop (i + pat.length) s, hab]
    simp
  rw [hs, List.drop_left]
  exact List.prefix_append ..

/-- Letters that the pattern does not begin with are skipped. -/
theorem find_skip {p : α} {pat a : List α} (h : p ∉ a) (s : List α) :
    find (p :: pat) (a ++ s) = (find (p :: pat) s).map (· + a.length) := by
  induction a with
  | nil => simp
  | cons c a ih =>
    have hc : ¬ p :: pat <+: c :: (a ++ s) := by
      rintro ⟨rest, hrest⟩
      have hpc : p = c := (List.cons.inj hrest).1
      exact h (hpc ▸ List.mem_cons_self ..)
    rw [List.cons_append, find_cons_of_later hc, ih fun hmem => h (List.mem_cons_of_mem _ hmem),
      Option.map_map]
    congr 1

/-- **A field is found to end at its separator**, if it does not hold the first letter of
that. -/
theorem find_field {p : α} {pat a : List α} (h : p ∉ a) (s : List α) :
    find (p :: pat) (a ++ (p :: pat) ++ s) = some a.length := by
  rw [List.append_assoc, find_skip h, find_at_front (List.prefix_append ..)]
  simp

/-- A field behind a front part of the string. -/
theorem findFrom_field {p : α} {pat a : List α} (h : p ∉ a) (front s : List α) :
    findFrom (p :: pat) (front ++ (a ++ (p :: pat) ++ s)) front.length =
      some (a.length + front.length) := by
  rw [findFrom, List.drop_left, find_field h]
  rfl

/-! ### The last occurrence -/

theorem rfind_eq_none_iff {pat s : List α} : rfind pat s = none ↔ ¬ pat <:+: s := by
  induction s with
  | nil => by_cases h : pat = [] <;> simp [rfind, h]
  | cons c cs ih =>
    rw [rfind, List.infix_cons_iff]
    rcases hr : rfind pat cs with _ | i
    · simp [ih.mp hr, List.isPrefixOf_iff_prefix]
    · have hin : pat <:+: cs := by
        by_contra hnot
        simp [ih.mpr hnot] at hr
      simp [hin]

/-- **The last occurrence is in the part behind, if there is one.** -/
theorem rfind_append {pat s : List α} {i : ℕ} (h : rfind pat s = some i) (a : List α) :
    rfind pat (a ++ s) = some (a.length + i) := by
  induction a with
  | nil => simpa using h
  | cons c a ih =>
    simp only [List.cons_append, rfind, ih, List.length_cons]
    congr 1
    omega

/-- The last occurrence is at the front if there is none behind. -/
theorem rfind_cons {pat : List α} {c : α} {cs : List α} (h : pat <+: c :: cs)
    (hnone : ¬ pat <:+: cs) : rfind pat (c :: cs) = some 0 := by
  rw [rfind, rfind_eq_none_iff.mpr hnone]
  exact if_pos (List.isPrefixOf_iff_prefix.mpr h)

/-- The last occurrence is one. -/
theorem prefix_drop_of_rfind {pat s : List α} {i : ℕ} (h : rfind pat s = some i) :
    pat <+: s.drop i := by
  induction s generalizing i with
  | nil =>
    rw [rfind] at h
    split_ifs at h with hnil
    simp [hnil]
  | cons c cs ih =>
    rw [rfind] at h
    rcases hr : rfind pat cs with _ | j
    · simp only [hr] at h
      split_ifs at h with hbegins
      obtain rfl : 0 = i := Option.some.inj h
      exact List.isPrefixOf_iff_prefix.mp hbegins
    · simp only [hr, Option.some.injEq] at h
      obtain rfl : j + 1 = i := h
      exact ih hr

theorem exists_rfind {pat s : List α} (h : pat <:+: s) : ∃ i, rfind pat s = some i := by
  rcases hr : rfind pat s with _ | i
  · exact absurd h (rfind_eq_none_iff.mp hr)
  · exact ⟨i, rfl⟩

/-! ### Reading up to a separator -/

namespace Reader

/-- What is before the first occurrence of a separator; the separator is read too. -/
def upTo (sep : List UInt8) : Reader (List UInt8) := fun bs =>
  (find sep bs).map fun i => (bs.take i, bs.drop (i + sep.length))

/-- A field without the first byte of its separator is read up to it. -/
theorem reads_upTo {p : UInt8} {sep a : List UInt8} (h : p ∉ a) :
    Reads (upTo (p :: sep)) (a ++ (p :: sep)) a := by
  intro rest
  have hfind : find (p :: sep) (a ++ (p :: sep) ++ rest) = some a.length := find_field h rest
  have hdrop : (a ++ (p :: sep) ++ rest).drop (a.length + (p :: sep).length) = rest := by
    rw [← List.length_append, List.drop_left]
  rw [StateT.run, upTo, hfind, Option.map_some, hdrop, List.append_assoc, List.take_left]

end Reader

end Apatchy
