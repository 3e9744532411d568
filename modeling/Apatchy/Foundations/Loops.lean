import Mathlib.Data.Nat.Find
import Mathlib.Data.Option.Basic

/-!
# Loops

A `while` loop, by what one turn of it does to the state: the state after the turn, or
`none` where the loop is left (`Apatchy.Loop`). The state after some turns is
`Apatchy.Loop.after`, and a loop *ends* in a state if some number of turns leads there and
the loop is left in it (`Apatchy.Loop.Ends`); there is at most one such state
(`Apatchy.Loop.Ends.unique`). A loop need not end.

Three rules are all that is said of loops in general:

* `Apatchy.Loop.invariant_after` – what a turn keeps, every number of turns keeps;
* `Apatchy.Loop.ends_of_measure` – a loop ends if every turn makes a measure smaller;
* `Apatchy.Loop.not_ends_of_goes_on` – a loop does not end if from every state with the
  invariant there is another turn.
-/

namespace Apatchy

/-- **A loop**, by its turns. -/
structure Loop (σ : Type*) where
  /-- The state after one turn, `none` where the loop is left. -/
  turn : σ → Option σ

namespace Loop

variable {σ : Type*} (L : Loop σ)

/-- The state after a number of turns, `none` if the loop is left before. -/
def after : ℕ → σ → Option σ
  | 0, s => some s
  | n + 1, s => (L.turn s).bind (after n)

/-- **The loop ends** in a state: it gets there, and is left there. -/
def Ends (s t : σ) : Prop := ∃ n, L.after n s = some t ∧ L.turn t = none

@[simp] theorem after_zero (s : σ) : L.after 0 s = some s := rfl

theorem after_succ (n : ℕ) (s : σ) : L.after (n + 1) s = (L.turn s).bind (L.after n) := rfl

theorem ends_of_left {s : σ} (h : L.turn s = none) : L.Ends s s := ⟨0, rfl, h⟩

theorem ends_of_turn {s s' t : σ} (h : L.turn s = some s') (ht : L.Ends s' t) : L.Ends s t := by
  obtain ⟨n, hn, hleft⟩ := ht
  exact ⟨n + 1, by rw [after_succ, h]; exact hn, hleft⟩

/-- Where the loop ends, seen from the state before a turn. -/
theorem ends_iff_of_turn {s s' t : σ} (h : L.turn s = some s') : L.Ends s t ↔ L.Ends s' t := by
  refine ⟨?_, L.ends_of_turn h⟩
  rintro ⟨n, hn, hleft⟩
  rcases n with _ | n
  · obtain rfl : s = t := Option.some.inj hn
    simp [h] at hleft
  · rw [after_succ, h] at hn
    exact ⟨n, hn, hleft⟩

/-- **A loop ends in one state.** -/
theorem Ends.unique {s t t' : σ} (h : L.Ends s t) (h' : L.Ends s t') : t = t' := by
  obtain ⟨n, hn, hleft⟩ := h
  induction n generalizing s with
  | zero =>
    obtain rfl : s = t := Option.some.inj hn
    obtain ⟨m, hm, -⟩ := h'
    rcases m with _ | m
    · exact Option.some.inj hm
    · simp [after_succ, hleft] at hm
  | succ n ih =>
    rcases hs : L.turn s with _ | s'
    · simp [after_succ, hs] at hn
    · rw [after_succ, hs] at hn
      exact ih ((L.ends_iff_of_turn hs).mp h') hn

/-! ### The rules -/

/-- **What a turn keeps, every number of turns keeps.** -/
theorem invariant_after {Inv : σ → Prop} (hturn : ∀ s s', L.turn s = some s' → Inv s → Inv s')
    {s t : σ} {n : ℕ} (h : L.after n s = some t) (hs : Inv s) : Inv t := by
  induction n generalizing s with
  | zero => exact Option.some.inj h ▸ hs
  | succ n ih =>
    rw [after_succ] at h
    obtain ⟨s', hs', hn⟩ := Option.bind_eq_some_iff.mp h
    exact ih hn (hturn s s' hs' hs)

/-- **A loop whose turns make a measure smaller ends**, and the invariant holds where it
does. -/
theorem ends_of_measure {Inv : σ → Prop} (measure : σ → ℕ)
    (hturn : ∀ s s', L.turn s = some s' → Inv s → Inv s' ∧ measure s' < measure s)
    {s : σ} (hs : Inv s) : ∃ t, L.Ends s t ∧ Inv t ∧ L.turn t = none := by
  induction hm : measure s using Nat.strong_induction_on generalizing s with
  | _ m ih =>
    rcases hleft : L.turn s with _ | s'
    · exact ⟨s, L.ends_of_left hleft, hs, hleft⟩
    · obtain ⟨hs', hless⟩ := hturn s s' hleft hs
      obtain ⟨t, ht, hend⟩ := ih (measure s') (hm ▸ hless) hs' rfl
      exact ⟨t, L.ends_of_turn hleft ht, hend⟩

/-- **A loop that always makes another turn does not end.** -/
theorem not_ends_of_goes_on {Inv : σ → Prop}
    (hturn : ∀ s, Inv s → ∃ s', L.turn s = some s' ∧ Inv s') {s : σ} (hs : Inv s) (t : σ) :
    ¬ L.Ends s t := by
  rintro ⟨n, hn, hleft⟩
  have hkept : Inv t := by
    refine L.invariant_after ?_ hn hs
    intro s s' hs' hinv
    obtain ⟨s'', hs'', hinv'⟩ := hturn s hinv
    rw [hs'] at hs''
    exact Option.some.inj hs'' ▸ hinv'
  obtain ⟨t', ht', -⟩ := hturn t hkept
  simp [hleft] at ht'

end Loop

end Apatchy
