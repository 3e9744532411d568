import Mathlib.Data.List.Basic

/-!
# Scripts

A *script* does one thing after another to a state – files, trees, markers – and
may stop with an error at any of them; what it did so far stays done
(`Apatchy.Script`). That is how the commands of the framework work: an external
program fails, an exception is raised, and the files it left are there for the next
command to find.

What a script does is read off its parts: it goes on after a part that returns
(`Apatchy.Script.run_bind_of_ok`) and stops with one that stops
(`Apatchy.Script.run_bind_of_error`). A script about a part of the state runs on the
whole of it (`Apatchy.Script.zoom`).
-/

namespace Apatchy

/-- **A script**: from a state, a value or an error, and the state it leaves
either way. -/
def Script (σ α : Type) : Type := σ → Except String α × σ

namespace Script

variable {σ α β : Type}

/-- Run a script. -/
def run (s : Script σ α) (st : σ) : Except String α × σ := s st

instance : Monad (Script σ) where
  pure a := fun st => (.ok a, st)
  bind s f := fun st =>
    match s st with
    | (.ok a, st') => f a st'
    | (.error e, st') => (.error e, st')

/-- The state. -/
def get : Script σ σ := fun st => (.ok st, st)

/-- Change the state. -/
def modify (f : σ → σ) : Script σ Unit := fun st => (.ok (), f st)

/-- Stop. -/
def fail (message : String) : Script σ α := fun st => (.error message, st)

/-- A script for each of some items, in order, and the values of all. -/
def each (f : α → Script σ β) : List α → Script σ (List β)
  | [] => pure []
  | a :: as => do
    let b ← f a
    let bs ← each f as
    return b :: bs

/-- Run a script on a part of the state. -/
def zoom {τ : Type} (view : σ → τ) (put : τ → σ → σ) (s : Script τ α) : Script σ α :=
  fun st => ((s (view st)).1, put (s (view st)).2 st)

/-! ### Running -/

@[simp] theorem run_pure (a : α) (st : σ) : (pure a : Script σ α).run st = (.ok a, st) := rfl

@[simp] theorem run_get (st : σ) : (get : Script σ σ).run st = (.ok st, st) := rfl

@[simp] theorem run_modify (f : σ → σ) (st : σ) : (modify f).run st = (.ok (), f st) := rfl

@[simp] theorem run_fail (message : String) (st : σ) :
    (fail message : Script σ α).run st = (.error message, st) := rfl

theorem run_zoom {τ : Type} (view : σ → τ) (put : τ → σ → σ) (s : Script τ α) (st : σ) :
    (zoom view put s).run st = ((s.run (view st)).1, put (s.run (view st)).2 st) := rfl

@[simp] theorem run_bind (s : Script σ α) (f : α → Script σ β) (st : σ) :
    (s >>= f).run st =
      match s.run st with
      | (.ok a, st') => (f a).run st'
      | (.error e, st') => (.error e, st') := rfl

@[simp] theorem run_map (f : α → β) (s : Script σ α) (st : σ) :
    (f <$> s).run st =
      match s.run st with
      | (.ok a, st') => (.ok (f a), st')
      | (.error e, st') => (.error e, st') := rfl

theorem ext {s t : Script σ α} (h : ∀ st, s.run st = t.run st) : s = t := funext h

instance : LawfulMonad (Script σ) := by
  refine LawfulMonad.mk' (Script σ) ?_ ?_ ?_
  · intro α s
    refine ext fun st => ?_
    change (match s.run st with
      | (.ok a, st') => (pure (id a) : Script σ α).run st'
      | (.error e, st') => (.error e, st')) = s.run st
    rcases s.run st with ⟨a | e, st'⟩ <;> rfl
  · exact fun _ _ => rfl
  · intro α β γ s f g
    refine ext fun st => ?_
    simp only [run_bind]
    rcases s.run st with ⟨a | e, st'⟩ <;> rfl

@[simp] theorem each_nil (f : α → Script σ β) : each f [] = pure [] := rfl

theorem each_cons (f : α → Script σ β) (a : α) (as : List α) :
    each f (a :: as) = (do
      let b ← f a
      let bs ← each f as
      return b :: bs) := rfl

/-- Scripts that compute from what others return, one item after the other. -/
theorem each_map {γ : Type} {f : α → Script σ β} {f' : α → Script σ γ} {g : β → γ}
    (h : ∀ a, f' a = (do return g (← f a))) (as : List α) :
    each f' as = (do return (← each f as).map g) := by
  induction as with
  | nil => simp
  | cons a as ih => simp [each_cons, h a, ih]

/-- A script goes on after one that returns. -/
theorem run_bind_of_ok {s : Script σ α} {st st' : σ} {a : α} (h : s.run st = (.ok a, st'))
    (f : α → Script σ β) : (s >>= f).run st = (f a).run st' := by
  rw [run_bind, h]

/-- A script stops with one that stops. -/
theorem run_bind_of_error {s : Script σ α} {st st' : σ} {e : String}
    (h : s.run st = (.error e, st')) (f : α → Script σ β) :
    (s >>= f).run st = (.error e, st') := by
  rw [run_bind, h]

end Script

/-! ### Answers that may fail -/

section Except

variable {ε α β : Type}

/-- **A result of two steps** is one of the second, from a result of the first. -/
theorem bind_eq_ok {x : Except ε α} {f : α → Except ε β} {b : β} :
    (x >>= f) = .ok b ↔ ∃ a, x = .ok a ∧ f a = .ok b := by
  rcases x with e | a
  · constructor
    · rintro ⟨⟩
    · rintro ⟨a, ⟨⟩, -⟩
  · constructor
    · intro h
      exact ⟨a, rfl, h⟩
    · rintro ⟨a', ha', h⟩
      rw [Except.ok.inj ha']
      exact h

/-- It succeeds, with some value. -/
def Succeeds (x : Except ε α) : Prop := ∃ a, x = .ok a

@[simp] theorem succeeds_ok (a : α) : Succeeds (.ok a : Except ε α) := ⟨a, rfl⟩

@[simp] theorem not_succeeds_error (e : ε) : ¬ Succeeds (.error e : Except ε α) := by
  rintro ⟨a, ⟨⟩⟩

/-- **A step returns, and what comes after it** returns whatever the value of the step is. -/
theorem succeeds_bind {x : Except ε α} {f : α → Except ε β} {P : Prop}
    (h : ∀ a, x = .ok a → (Succeeds (f a) ↔ P)) : Succeeds (x >>= f) ↔ Succeeds x ∧ P := by
  rcases x with e | a
  · simp [Succeeds, bind, Except.bind]
  · simpa [Succeeds, bind, Except.bind] using h a rfl

/-- **Answers for each of some items** are those of the items, if none fails. -/
theorem of_mapM_eq_ok {f : α → Except ε β} {as : List α} {bs : List β}
    (h : as.mapM f = .ok bs) :
    (∀ b ∈ bs, ∃ a ∈ as, f a = .ok b) ∧ ∀ a ∈ as, ∃ b ∈ bs, f a = .ok b := by
  induction as generalizing bs with
  | nil =>
    obtain rfl : [] = bs := Except.ok.inj h
    exact ⟨by simp, by simp⟩
  | cons a as ih =>
    rw [List.mapM_cons] at h
    obtain ⟨b, ha, h⟩ := bind_eq_ok.mp h
    obtain ⟨bs', has, h⟩ := bind_eq_ok.mp h
    obtain rfl : b :: bs' = bs := Except.ok.inj h
    obtain ⟨hback, hforth⟩ := ih has
    constructor
    · intro b' hb'
      rcases List.mem_cons.mp hb' with rfl | hb'
      · exact ⟨a, List.mem_cons_self .., ha⟩
      · obtain ⟨a', ha', hf⟩ := hback b' hb'
        exact ⟨a', List.mem_cons_of_mem _ ha', hf⟩
    · intro a' ha'
      rcases List.mem_cons.mp ha' with rfl | ha'
      · exact ⟨b, List.mem_cons_self .., ha⟩
      · obtain ⟨b', hb', hf⟩ := hforth a' ha'
        exact ⟨b', List.mem_cons_of_mem _ hb', hf⟩

/-- **Steps that change nothing** leave the state as it is. -/
theorem foldlM_eq_self {f : β → α → Except ε β} {b : β} {as : List α}
    (h : ∀ a ∈ as, f b a = .ok b) : as.foldlM f b = .ok b := by
  induction as with
  | nil => rfl
  | cons a as ih =>
    obtain ⟨ha, has⟩ := List.forall_mem_cons.mp h
    rw [List.foldlM_cons, ha]
    exact ih has

/-- **A search whose tests do not fail** is a search. -/
theorem findM?_eq_ok {p : α → Except ε Bool} {q : α → Bool} {as : List α}
    (h : ∀ a ∈ as, p a = .ok (q a)) : as.findM? p = .ok (as.find? q) := by
  induction as with
  | nil => rfl
  | cons a as ih =>
    obtain ⟨ha, has⟩ := List.forall_mem_cons.mp h
    rw [List.findM?, ha, List.find?_cons]
    rcases q a with _ | _
    · exact ih has
    · rfl

end Except

end Apatchy
