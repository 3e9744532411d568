import Mathlib.Algebra.Order.Field.Basic
import Mathlib.Tactic.FieldSimp
import Mathlib.Tactic.Linarith
import Mathlib.Tactic.Ring

/-!
# Curves through points

A list of points in the order of their places is a curve: between two neighbours it is the
line through them (`Apatchy.lerp`), behind the last point it stays at its value, and before
the first it is the line through the first two (`Apatchy.curve`). Two points may be at the
same place.

If the values increase with the places (`Apatchy.IsRising`), the curve does not fall
(`Apatchy.curve_mono`), it does not exceed the last point (`Apatchy.exists_curve_le`), and
it goes below the first exactly before it, where the first two points are a line that rises
(`Apatchy.exists_le_curve_iff`).
-/

namespace Apatchy

variable {K : Type*} [LinearOrder K]

/-! ### Points that rise -/

/-- Points in the order of their places, whose values do not fall. -/
def IsRising (pts : List (K × K)) : Prop := pts.Pairwise fun p q => p.1 ≤ q.1 ∧ p.2 ≤ q.2

theorem IsRising.tail {p : K × K} {rest : List (K × K)} (h : IsRising (p :: rest)) :
    IsRising rest := List.Pairwise.of_cons h

theorem IsRising.head {p q : K × K} {rest : List (K × K)} (h : IsRising (p :: q :: rest)) :
    p.1 ≤ q.1 ∧ p.2 ≤ q.2 := List.rel_of_pairwise_cons h (List.mem_cons_self ..)

/-- No point is lower than the first. -/
theorem IsRising.le_of_mem {p q : K × K} {rest : List (K × K)} (h : IsRising (p :: rest))
    (hq : q ∈ p :: rest) : p.2 ≤ q.2 := by
  rcases List.mem_cons.mp hq with rfl | hq
  · exact le_rfl
  · exact (List.rel_of_pairwise_cons h hq).2

/-! ### The curve -/

variable [Field K]

/-- The value at a place on the line through two points; the value of the first if they are
not apart. -/
def lerp (p q : K × K) (x : K) : K :=
  p.2 + (q.2 - p.2) * if 0 < q.1 - p.1 then (x - p.1) / (q.1 - p.1) else 0

/-- **The curve through some points**, at a place. -/
def curve : List (K × K) → K → K
  | [], _ => 0
  | [p], _ => p.2
  | p :: q :: rest, x => if q.1 ≤ x then curve (q :: rest) x else lerp p q x

/-! ### One line -/

variable [IsStrictOrderedRing K]

theorem lerp_of_lt {p q : K × K} (h : p.1 < q.1) (x : K) :
    lerp p q x = p.2 + (q.2 - p.2) * ((x - p.1) / (q.1 - p.1)) := by
  rw [lerp, if_pos (sub_pos.mpr h)]

theorem lerp_of_le {p q : K × K} (h : q.1 ≤ p.1) (x : K) :
    lerp p q x = p.2 := by
  rw [lerp, if_neg (not_lt.mpr (sub_nonpos.mpr h)), mul_zero, add_zero]

section Line

variable {p q : K × K} (hy : p.2 ≤ q.2)
include hy

/-- The line through two points of which the second is not lower does not fall. -/
theorem lerp_mono {x x' : K} (hx : x ≤ x') : lerp p q x ≤ lerp p q x' := by
  rcases lt_or_ge p.1 q.1 with hlt | hge
  · have hrange : 0 ≤ q.1 - p.1 := (sub_pos.mpr hlt).le
    rw [lerp_of_lt hlt, lerp_of_lt hlt]
    gcongr
  · rw [lerp_of_le hge, lerp_of_le hge]

omit hy in
/-- It begins at the first point. -/
theorem lerp_left : lerp p q p.1 = p.2 := by
  rcases lt_or_ge p.1 q.1 with hlt | hge
  · rw [lerp_of_lt hlt, sub_self, zero_div, mul_zero, add_zero]
  · exact lerp_of_le hge _

theorem le_lerp {x : K} (hx : p.1 ≤ x) : p.2 ≤ lerp p q x :=
  lerp_left (p := p) (q := q) ▸ lerp_mono hy hx

/-- It does not exceed the second point before that. -/
theorem lerp_le {x : K} (hx : x ≤ q.1) : lerp p q x ≤ q.2 := by
  refine (lerp_mono hy hx).trans ?_
  rcases lt_or_ge p.1 q.1 with hlt | hge
  · rw [lerp_of_lt hlt, div_self (sub_pos.mpr hlt).ne', mul_one, add_sub_cancel]
  · exact (lerp_of_le hge _).trans_le hy

/-- **Before the first point the line is below it**, if the two are apart and not level. -/
theorem lerp_lt_iff {x : K} (hx : x < p.1) : lerp p q x < p.2 ↔ p.1 < q.1 ∧ p.2 < q.2 := by
  rcases lt_or_ge p.1 q.1 with hlt | hge
  · have hneg : (x - p.1) / (q.1 - p.1) < 0 :=
      div_neg_of_neg_of_pos (sub_neg.mpr hx) (sub_pos.mpr hlt)
    rw [lerp_of_lt hlt, add_lt_iff_neg_left]
    constructor
    · intro hprod
      refine ⟨hlt, ?_⟩
      by_contra hle
      have heq : q.2 - p.2 = 0 := by linarith
      simp [heq] at hprod
    · rintro ⟨-, hrise⟩
      exact mul_neg_of_pos_of_neg (sub_pos.mpr hrise) hneg
  · rw [lerp_of_le hge]
    simp [not_lt.mpr hge]

end Line

/-! ### The whole curve -/

/-- From the first point on the curve is not below it. -/
theorem le_curve {p : K × K} {rest : List (K × K)} (h : IsRising (p :: rest)) {x : K}
    (hx : p.1 ≤ x) : p.2 ≤ curve (p :: rest) x := by
  induction rest generalizing p with
  | nil => exact le_rfl
  | cons q rest ih =>
    rw [curve]
    split_ifs with hq
    · exact h.head.2.trans (ih h.tail hq)
    · exact le_lerp h.head.2 hx

/-- **The curve does not fall.** -/
theorem curve_mono {pts : List (K × K)} (h : IsRising pts) {x x' : K} (hx : x ≤ x') :
    curve pts x ≤ curve pts x' := by
  induction pts with
  | nil => exact le_rfl
  | cons p pts ih =>
    rcases pts with _ | ⟨q, rest⟩
    · exact le_rfl
    · rw [curve, curve]
      split_ifs with hq hq' hq'
      · exact ih h.tail
      · exact absurd (hq.trans hx) hq'
      · -- the two places are on both sides of the second point
        exact (lerp_le h.head.2 (not_le.mp hq).le).trans (le_curve h.tail hq')
      · exact lerp_mono h.head.2 hx

/-- **The curve does not exceed the points.** -/
theorem exists_curve_le {pts : List (K × K)} (h : IsRising pts) (hne : pts ≠ []) (x : K) :
    ∃ p ∈ pts, curve pts x ≤ p.2 := by
  induction pts with
  | nil => exact absurd rfl hne
  | cons p pts ih =>
    rcases pts with _ | ⟨q, rest⟩
    · exact ⟨p, List.mem_cons_self .., le_rfl⟩
    · rw [curve]
      split_ifs with hq
      · obtain ⟨r, hr, hle⟩ := ih h.tail (List.cons_ne_nil q rest)
        exact ⟨r, List.mem_cons_of_mem _ hr, hle⟩
      · exact ⟨q, by simp, lerp_le h.head.2 (not_le.mp hq).le⟩

/-- **The curve is not below the points** exactly from the first one on, and before it where
the curve does not rise between the first two. -/
theorem exists_le_curve_iff {p : K × K} {rest : List (K × K)} (h : IsRising (p :: rest)) (x : K) :
    (∃ q ∈ p :: rest, q.2 ≤ curve (p :: rest) x) ↔
      p.1 ≤ x ∨ ∀ q ∈ rest.head?, q.1 ≤ p.1 ∨ q.2 ≤ p.2 := by
  have hfirst : (∃ q ∈ p :: rest, q.2 ≤ curve (p :: rest) x) ↔ p.2 ≤ curve (p :: rest) x := by
    constructor
    · rintro ⟨q, hq, hle⟩
      exact (h.le_of_mem hq).trans hle
    · exact fun hle => ⟨p, List.mem_cons_self .., hle⟩
  rw [hfirst]
  rcases le_or_gt p.1 x with hx | hx
  · simp [le_curve h hx, hx]
  · rcases rest with _ | ⟨q, rest⟩
    · simp [curve]
    · have hq : ¬ q.1 ≤ x := not_le.mpr (hx.trans_le h.head.1)
      rw [curve, if_neg hq, ← not_lt, lerp_lt_iff h.head.2 hx]
      simp only [not_le.mpr hx, false_or, List.head?_cons, Option.mem_some_iff, forall_eq',
        not_and_or, not_lt]

end Apatchy
