import Apatchy.Foundations.Text
import Mathlib.Order.Monotone.Basic
import Mathlib.Tactic.SplitIfs

/-!
# Replacing a piece of text by a longer one

Each occurrence of some characters is replaced by the same characters followed by more of
them: a path by a longer path. The text that comes out has the characters again, at least
as often, and if they occur at all it is longer (`Apatchy.length_lt_replaceAll`). So the
replacement is not idempotent: done again, it makes the text longer again, and only if it
is done once is the result that of doing it once
(`Apatchy.iterate_replaceAll_eq_iff`).
-/

namespace Apatchy

/-- `text.replace(old, new)`, on characters: an empty `old` is found before each character
and at the end. -/
def replaceAll (old new cs : List Char) : List Char :=
  if old = [] then new ++ cs.flatMap fun c => c :: new else replaceChars old new 0 cs

section Replace

variable {old new extra cs : List Char}

theorem replaceChars_of_begins {c : Char} (h : old <+: c :: cs) :
    replaceChars old new 0 (c :: cs) = new ++ replaceChars old new (old.length - 1) cs := by
  rw [replaceChars, if_pos (List.isPrefixOf_iff_prefix.mpr h)]

theorem replaceChars_of_not_begins {c : Char} (h : ¬ old <+: c :: cs) :
    replaceChars old new 0 (c :: cs) = c :: replaceChars old new 0 cs := by
  rw [replaceChars, if_neg fun hbegins => h (List.isPrefixOf_iff_prefix.mp hbegins)]

/-- **What does not occur is not replaced.** -/
theorem replaceAll_of_not_occurs (h : ¬ old <:+: cs) : replaceAll old new cs = cs := by
  have hold : old ≠ [] := by
    rintro rfl
    exact h (List.nil_infix)
  rw [replaceAll, if_neg hold]
  induction cs with
  | nil => rfl
  | cons c cs ih =>
    rw [List.infix_cons_iff, not_or] at h
    rw [replaceChars_of_not_begins h.1, ih h.2]

/-- What is replaced by itself stays. -/
theorem replaceAll_self : replaceAll old old cs = cs := by
  rw [replaceAll]
  split_ifs with hold
  · subst hold
    simp
  · have hskip : ∀ skip, replaceChars old old skip cs = cs.drop skip := by
      intro skip
      induction cs generalizing skip with
      | nil => cases skip <;> rfl
      | cons c cs ih =>
        rcases skip with _ | skip
        · by_cases hbegins : old <+: c :: cs
          · rw [replaceChars_of_begins hbegins, ih, List.drop_zero]
            obtain ⟨rest, hrest⟩ := hbegins
            rcases old with _ | ⟨d, old⟩
            · exact absurd rfl hold
            · obtain ⟨rfl, rfl⟩ := List.cons.inj hrest
              simp
          · rw [replaceChars_of_not_begins hbegins, ih]
            rfl
        · exact ih skip
    exact hskip 0

/-- **What occurs is replaced** at least once. -/
theorem new_infix_replaceAll (h : old <:+: cs) : new <:+: replaceAll old new cs := by
  rw [replaceAll]
  split_ifs with hold
  · exact (List.prefix_append _ _).isInfix
  · induction cs with
    | nil => exact absurd (List.infix_nil.mp h) hold
    | cons c cs ih =>
      by_cases hbegins : old <+: c :: cs
      · rw [replaceChars_of_begins hbegins]
        exact (List.prefix_append _ _).isInfix
      · rw [replaceChars_of_not_begins hbegins]
        exact List.infix_cons (ih ((List.infix_cons_iff.mp h).resolve_left hbegins))

/-- The characters are those of the text and the new ones. -/
theorem mem_of_mem_replaceAll {c : Char} (h : c ∈ replaceAll old new cs) : c ∈ cs ∨ c ∈ new := by
  rw [replaceAll] at h
  split_ifs at h with hold
  · rcases List.mem_append.mp h with hnew | hrest
    · exact Or.inr hnew
    · obtain ⟨d, hd, hc⟩ := List.mem_flatMap.mp hrest
      rcases List.mem_cons.mp hc with rfl | hnew
      · exact Or.inl hd
      · exact Or.inr hnew
  · -- the induction is on the text, for all numbers of characters to be passed over
    generalize 0 = skip at h
    induction cs generalizing skip with
    | nil => cases skip <;> exact absurd h List.not_mem_nil
    | cons d cs ih =>
      have hlater : ∀ skip, c ∈ replaceChars old new skip cs → c ∈ d :: cs ∨ c ∈ new := by
        intro skip hc
        exact (ih skip hc).imp_left (List.mem_cons_of_mem _)
      rcases skip with _ | skip
      · by_cases hbegins : old <+: d :: cs
        · rw [replaceChars_of_begins hbegins] at h
          rcases List.mem_append.mp h with hnew | hrest
          · exact Or.inr hnew
          · exact hlater _ hrest
        · rw [replaceChars_of_not_begins hbegins] at h
          rcases List.mem_cons.mp h with rfl | hrest
          · exact Or.inl (List.mem_cons_self ..)
          · exact hlater _ hrest
      · exact hlater skip h

/-- Each occurrence makes the text longer by what is added. -/
theorem length_le_replaceChars (hold : old ≠ []) (skip : ℕ) :
    cs.length ≤ (replaceChars old (old ++ extra) skip cs).length + skip := by
  induction cs generalizing skip with
  | nil => simp
  | cons c cs ih =>
    rcases skip with _ | skip
    · by_cases hbegins : old <+: c :: cs
      · have hrest := ih (old.length - 1)
        have hpos := List.length_pos_iff.mpr hold
        rw [replaceChars_of_begins hbegins, List.length_append, List.length_append,
          List.length_cons]
        omega
      · have hrest := ih 0
        rw [replaceChars_of_not_begins hbegins, List.length_cons, List.length_cons]
        omega
    · have hrest := ih skip
      rw [replaceChars, List.length_cons]
      omega

/-- **A text in which the characters occur becomes longer.** -/
theorem length_lt_replaceAll (hextra : extra ≠ []) (h : old <:+: cs) :
    cs.length < (replaceAll old (old ++ extra) cs).length := by
  have hpos := List.length_pos_iff.mpr hextra
  rw [replaceAll]
  split_ifs with hold
  · subst hold
    rw [List.nil_append, List.length_append]
    -- the empty text is found before every character and at the end
    have hsum : cs.length ≤ (cs.flatMap fun c => c :: extra).length := by
      induction cs with
      | nil => exact Nat.zero_le _
      | cons c cs ih =>
        have hrest := ih (List.nil_infix)
        simp only [List.flatMap_cons, List.length_append, List.length_cons] at hrest ⊢
        omega
    omega
  · induction cs with
    | nil => exact absurd (List.infix_nil.mp h) hold
    | cons c cs ih =>
      -- where it begins here, the rest does not become shorter
      by_cases hbegins : old <+: c :: cs
      · have hrest : cs.length ≤ (replaceChars old (old ++ extra) (old.length - 1) cs).length +
            (old.length - 1) := length_le_replaceChars hold _
        have holdpos := List.length_pos_iff.mpr hold
        rw [replaceChars_of_begins hbegins, List.length_append, List.length_append,
          List.length_cons]
        omega
      · have hrest := ih ((List.infix_cons_iff.mp h).resolve_left hbegins)
        rw [replaceChars_of_not_begins hbegins, List.length_cons, List.length_cons]
        omega

/-- The characters still occur. -/
theorem infix_replaceAll (h : old <:+: cs) : old <:+: replaceAll old (old ++ extra) cs :=
  (List.prefix_append _ _).isInfix.trans (new_infix_replaceAll h)

/-- **Done several times, the replacement gives what doing it once gives exactly if** it
is done once, or has nothing to do. -/
theorem iterate_replaceAll_eq_iff (old extra cs : List Char) {n : ℕ} (hn : n ≠ 0) :
    (replaceAll old (old ++ extra))^[n] cs = replaceAll old (old ++ extra) cs ↔
      n = 1 ∨ extra = [] ∨ ¬ old <:+: cs := by
  have hfixed : replaceAll old (old ++ extra) cs = cs →
      (replaceAll old (old ++ extra))^[n] cs = replaceAll old (old ++ extra) cs := by
    intro hstay
    rw [Function.iterate_fixed hstay, hstay]
  constructor
  · intro heq
    by_contra hcond
    rw [not_or, not_or, not_not] at hcond
    obtain ⟨hone, hextra, hfirst⟩ := hcond
    -- what is replaced occurs again in what it is replaced by
    have hoccurs : ∀ k, old <:+: (replaceAll old (old ++ extra))^[k] cs := by
      intro k
      induction k with
      | zero => exact hfirst
      | succ k ih =>
        rw [Function.iterate_succ_apply']
        exact infix_replaceAll ih
    -- so the text grows each time, and is the same after no two numbers of times
    have hgrows : StrictMono fun k => ((replaceAll old (old ++ extra))^[k] cs).length := by
      refine strictMono_nat_of_lt_succ fun k => ?_
      rw [Function.iterate_succ_apply']
      exact length_lt_replaceAll hextra (hoccurs k)
    exact hone (hgrows.injective (congrArg List.length heq))
  · rintro (rfl | rfl | hnot)
    · rfl
    · rw [List.append_nil] at hfixed ⊢
      exact hfixed replaceAll_self
    · exact hfixed (replaceAll_of_not_occurs hnot)

end Replace

end Apatchy
