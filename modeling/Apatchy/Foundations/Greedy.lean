import Mathlib.Data.Set.Basic
import Mathlib.Data.List.Basic

/-!
# First come, first served

Items claim things, and no thing can be claimed twice. Whoever decides in turn, and serves
an item unless something that it claims is taken, has served items that claim different
things; and an item is refused only because of one that came before it and was served
(`Apatchy.FirstServed`). So what is served cannot be made larger by serving one of the
others as well.
-/

namespace Apatchy

variable {α β : Type*} {claims : α → Set β} {turns : List (α × Bool)}

/-- The items that were served. -/
def served (turns : List (α × Bool)) : List α := (turns.filter fun turn => turn.2).map Prod.fst

/-- The items that were refused. -/
def refused (turns : List (α × Bool)) : List α := (turns.filter fun turn => !turn.2).map Prod.fst

/-- **First come, first served.** -/
structure FirstServed (claims : α → Set β) (turns : List (α × Bool)) : Prop where
  /-- The items that were served claim different things. -/
  disjoint : (served turns).Pairwise fun a b => ∀ x ∈ claims a, x ∉ claims b
  /-- An item was refused because of one that was served before it. -/
  justified : ∀ (i : ℕ) (a : α), turns[i]? = some (a, false) →
    ∃ j < i, ∃ b, turns[j]? = some (b, true) ∧ ∃ x ∈ claims a, x ∈ claims b

theorem mem_served {a : α} : a ∈ served turns ↔ (a, true) ∈ turns := by
  simp [served]

@[simp] theorem served_concat_true (a : α) :
    served (turns ++ [(a, true)]) = served turns ++ [a] := by
  simp [served]

@[simp] theorem served_concat_false (a : α) : served (turns ++ [(a, false)]) = served turns := by
  simp [served]

@[simp] theorem refused_concat_true (a : α) : refused (turns ++ [(a, true)]) = refused turns := by
  simp [refused]

@[simp] theorem refused_concat_false (a : α) :
    refused (turns ++ [(a, false)]) = refused turns ++ [a] := by
  simp [refused]

/-- Nobody came. -/
theorem firstServed_nil : FirstServed claims [] where
  disjoint := List.Pairwise.nil
  justified := by simp

/-- One more turn: if the item is refused, something that was served is in its way. -/
theorem FirstServed.justified_concat (h : FirstServed claims turns) {turn : α × Bool}
    (hlast : turn.2 = false → ∃ b ∈ served turns, ∃ x ∈ claims turn.1, x ∈ claims b) :
    ∀ (i : ℕ) (a : α), (turns ++ [turn])[i]? = some (a, false) →
      ∃ j < i, ∃ b, (turns ++ [turn])[j]? = some (b, true) ∧ ∃ x ∈ claims a, x ∈ claims b := by
  intro i c hc
  rw [List.getElem?_append] at hc
  split_ifs at hc with hi
  · obtain ⟨j, hj, b, hb, hclash⟩ := h.justified i c hc
    exact ⟨j, hj, b, by rwa [List.getElem?_append_left (hj.trans hi)], hclash⟩
  · rw [List.getElem?_singleton] at hc
    split_ifs at hc
    obtain rfl := Option.some.inj hc
    obtain ⟨b, hb, hclash⟩ := hlast rfl
    obtain ⟨j, hj⟩ := List.mem_iff_getElem?.mp (mem_served.mp hb)
    obtain ⟨hlt, -⟩ := List.getElem?_eq_some_iff.mp hj
    exact ⟨j, by omega, b, by rwa [List.getElem?_append_left hlt], hclash⟩

/-- **An item is served** that claims nothing taken. -/
theorem FirstServed.serve (h : FirstServed claims turns) {a : α}
    (hfree : ∀ b ∈ served turns, ∀ x ∈ claims b, x ∉ claims a) :
    FirstServed claims (turns ++ [(a, true)]) where
  disjoint := by
    rw [served_concat_true, List.pairwise_append]
    refine ⟨h.disjoint, List.pairwise_singleton _ _, ?_⟩
    intro b hb c hc
    rw [List.mem_singleton.mp hc]
    exact hfree b hb
  justified := h.justified_concat fun hserved => nomatch hserved

/-- **An item is refused** that claims something taken. -/
theorem FirstServed.refuse (h : FirstServed claims turns) {a : α}
    (htaken : ∃ b ∈ served turns, ∃ x ∈ claims a, x ∈ claims b) :
    FirstServed claims (turns ++ [(a, false)]) where
  disjoint := by
    rw [served_concat_false]
    exact h.disjoint
  justified := h.justified_concat fun _ => htaken

end Apatchy
