import Apatchy.Foundations.Script
import Mathlib.Data.Stream.Init

/-!
# Random choices

A script that chooses at random draws from a stream of numbers, one for each choice
(`Apatchy.Draws`, `Apatchy.Script.choice`): the stream is the outcome of all its
choices. What holds *whatever is drawn* is `Apatchy.Script.Always`, and what *some*
draws can make a script return is `Apatchy.Script.Can`; both compose along `>>=`, and
along a script for each of some items.
-/

namespace Apatchy

/-- The outcomes of the choices still to be made. -/
abbrev Draws := Stream' ℕ

namespace Script

variable {α β : Type}

/-- `random.choice`. -/
def choice (xs : List α) : Script Draws α := fun draws =>
  match xs[draws.head % xs.length]? with
  | some x => (.ok x, draws.tail)
  | none => (.error "IndexError", draws)

/-! ### Whatever is drawn -/

/-- **Whatever is drawn**, the script returns, and a value with the property. -/
def Always (s : Script Draws α) (P : α → Prop) : Prop :=
  ∀ draws, ∃ a rest, s.run draws = (.ok a, rest) ∧ P a

theorem Always.pure {P : α → Prop} {a : α} (h : P a) : Always (Pure.pure a) P :=
  fun draws => ⟨a, draws, rfl, h⟩

theorem Always.bind {s : Script Draws α} {f : α → Script Draws β} {P : α → Prop}
    {Q : β → Prop} (hs : Always s P) (hf : ∀ a, P a → Always (f a) Q) : Always (s >>= f) Q := by
  intro draws
  obtain ⟨a, rest, hrun, ha⟩ := hs draws
  obtain ⟨b, rest', hrun', hb⟩ := hf a ha rest
  exact ⟨b, rest', by rw [run_bind_of_ok hrun, hrun'], hb⟩

theorem always_choice {xs : List α} (h : xs ≠ []) : Always (choice xs) (· ∈ xs) := by
  intro draws
  have hlt : draws.head % xs.length < xs.length := Nat.mod_lt _ (List.length_pos_iff.mpr h)
  refine ⟨xs[draws.head % xs.length], draws.tail, ?_, List.getElem_mem hlt⟩
  simp [choice, run, List.getElem?_eq_getElem hlt]

/-- A script for each of some items: what always holds of the value of each holds of the
values of all, item by item. -/
theorem always_each {f : α → Script Draws β} {P : α → β → Prop} {as : List α}
    (h : ∀ a ∈ as, Always (f a) (P a)) : Always (each f as) (List.Forall₂ P as) := by
  induction as with
  | nil => exact Always.pure .nil
  | cons a as ih =>
    refine (h a (List.mem_cons_self ..)).bind fun b hb => ?_
    refine (ih fun a' ha' => h a' (List.mem_cons_of_mem _ ha')).bind fun bs hbs => ?_
    exact Always.pure (.cons hb hbs)

theorem forall_mem_of_forall₂ {P : β → Prop} {as : List α} {bs : List β}
    (h : List.Forall₂ (fun _ b => P b) as bs) : ∀ b ∈ bs, P b := by
  induction h with
  | nil => simp
  | cons hb _ ih => exact List.forall_mem_cons.mpr ⟨hb, ih⟩

/-! ### What can be drawn -/

/-- **Some draws make the script return this value**, whatever would be drawn after
them. -/
def Can (s : Script Draws α) (a : α) : Prop :=
  ∃ ds : List ℕ, ∀ rest : Draws, s.run (Stream'.appendStream' ds rest) = (.ok a, rest)

theorem Can.pure (a : α) : Can (Pure.pure a) a := ⟨[], fun _ => rfl⟩

theorem Can.bind {s : Script Draws α} {f : α → Script Draws β} {a : α} {b : β}
    (hs : Can s a) (hf : Can (f a) b) : Can (s >>= f) b := by
  obtain ⟨ds, hrun⟩ := hs
  obtain ⟨ds', hrun'⟩ := hf
  refine ⟨ds ++ ds', fun rest => ?_⟩
  rw [Stream'.append_append_stream, run_bind_of_ok (hrun _), hrun']

theorem can_choice {xs : List α} {x : α} (h : x ∈ xs) : Can (choice xs) x := by
  obtain ⟨i, hi, rfl⟩ := List.mem_iff_getElem.mp h
  refine ⟨[i], fun rest => ?_⟩
  simp [choice, run, Nat.mod_eq_of_lt hi, Stream'.appendStream', List.getElem?_eq_getElem hi]

/-- A script for each of some items can return something if it can for each of them. -/
theorem exists_can_each {f : α → Script Draws β} {as : List α}
    (h : ∀ a ∈ as, ∃ b, Can (f a) b) : ∃ bs, Can (each f as) bs := by
  induction as with
  | nil => exact ⟨[], Can.pure []⟩
  | cons a as ih =>
    obtain ⟨b, hb⟩ := h a (List.mem_cons_self ..)
    obtain ⟨bs, hbs⟩ := ih fun a' ha' => h a' (List.mem_cons_of_mem _ ha')
    exact ⟨b :: bs, hb.bind (hbs.bind (Can.pure _))⟩

/-- Of the values for some items, one can be any that its item can be given. -/
theorem exists_can_each_mem {f : α → Script Draws β} {as : List α}
    (h : ∀ a ∈ as, ∃ b, Can (f a) b) {a : α} (ha : a ∈ as) {b : β} (hb : Can (f a) b) :
    ∃ bs, Can (each f as) bs ∧ b ∈ bs := by
  induction as with
  | nil => simp at ha
  | cons a' as ih =>
    have htail := fun c hc => h c (List.mem_cons_of_mem _ hc)
    rcases List.mem_cons.mp ha with rfl | ha
    · obtain ⟨bs, hbs⟩ := exists_can_each htail
      exact ⟨b :: bs, hb.bind (hbs.bind (Can.pure _)), List.mem_cons_self ..⟩
    · obtain ⟨b', hb'⟩ := h a' (List.mem_cons_self ..)
      obtain ⟨bs, hbs, hmem⟩ := ih htail ha
      exact ⟨b' :: bs, hb'.bind (hbs.bind (Can.pure _)), List.mem_cons_of_mem _ hmem⟩

end Script

end Apatchy
