import Mathlib.Data.List.Basic

/-!
# Tasks that can be interrupted

A *task* changes a state step by step, and may be interrupted before any of its steps: by
an exception, which the task itself can catch, or by a kill, which nothing catches
(`Apatchy.Fault`). What was done so far stays done. Which steps are hit is an argument of
the run (`Apatchy.Task`), so that a statement about all runs is one about every
interruption at every point.

A specification of a task has, next to the precondition and the postcondition, what holds
of the state that an interruption leaves (`Apatchy.Task.Safe`). There is one rule for each
way to build a task; the rule for a loop takes an invariant that depends on the items
that are done (`Apatchy.Task.safe_forEach`).

A task that only goes from step to step does nothing when its first step is hit
(`Apatchy.Task.Inert`).
-/

namespace Apatchy

/-- **A fault**: what happens in the place of a step. -/
inductive Fault
  /-- An exception, that can be caught. -/
  | exception
  /-- The end of the process. -/
  | kill
deriving DecidableEq, Repr

/-- Whether the first step to come is hit. -/
def hitAtOnce : List (Option Fault) → Bool
  | some _ :: _ => true
  | _ => false

/-- How a task ends. -/
inductive Ending (α : Type)
  /-- It returns. -/
  | returned (a : α)
  /-- An exception has left it. -/
  | raised
  /-- It was killed. -/
  | killed
deriving DecidableEq, Repr

/-- **A task**: from a state, and the faults of the steps to come, how it ends, the state
it leaves, and the faults of the steps after it. -/
def Task (σ α : Type) : Type := σ → List (Option Fault) → Ending α × σ × List (Option Fault)

namespace Task

variable {σ α β : Type}

/-- Run a task. -/
def run (t : Task σ α) (st : σ) (faults : List (Option Fault)) :
    Ending α × σ × List (Option Fault) := t st faults

instance : Monad (Task σ) where
  pure a := fun st faults => (.returned a, st, faults)
  bind t f := fun st faults =>
    match t st faults with
    | (.returned a, st', faults') => f a st' faults'
    | (.raised, st', faults') => (.raised, st', faults')
    | (.killed, st', faults') => (.killed, st', faults')

/-- The state. -/
def get : Task σ σ := fun st faults => (.returned st, st, faults)

/-- **One step**, unless it is hit. -/
def step (f : σ → σ) : Task σ Unit := fun st faults =>
  match faults with
  | [] => (.returned (), f st, [])
  | none :: faults => (.returned (), f st, faults)
  | some .exception :: faults => (.raised, st, faults)
  | some .kill :: faults => (.killed, st, faults)

/-- Raise an exception. -/
def raise : Task σ α := fun st faults => (.raised, st, faults)

/-- `try: … except Exception: …`. -/
def attempt (t handler : Task σ α) : Task σ α := fun st faults =>
  match t st faults with
  | (.returned a, st', faults') => (.returned a, st', faults')
  | (.raised, st', faults') => handler st' faults'
  | (.killed, st', faults') => (.killed, st', faults')

/-- A task for each of some items, in order. -/
def forEach (f : α → Task σ Unit) : List α → Task σ Unit
  | [] => pure ()
  | a :: as => do
    f a
    forEach f as

/-! ### Running -/

@[simp] theorem run_pure (a : α) (st : σ) (faults : List (Option Fault)) :
    (pure a : Task σ α).run st faults = (.returned a, st, faults) := rfl

@[simp] theorem run_get (st : σ) (faults : List (Option Fault)) :
    (get : Task σ σ).run st faults = (.returned st, st, faults) := rfl

@[simp] theorem run_raise (st : σ) (faults : List (Option Fault)) :
    (raise : Task σ α).run st faults = (.raised, st, faults) := rfl

theorem run_bind (t : Task σ α) (f : α → Task σ β) (st : σ) (faults : List (Option Fault)) :
    (t >>= f).run st faults =
      match t.run st faults with
      | (.returned a, st', faults') => (f a).run st' faults'
      | (.raised, st', faults') => (.raised, st', faults')
      | (.killed, st', faults') => (.killed, st', faults') := rfl

theorem run_attempt (t handler : Task σ α) (st : σ) (faults : List (Option Fault)) :
    (attempt t handler).run st faults =
      match t.run st faults with
      | (.returned a, st', faults') => (.returned a, st', faults')
      | (.raised, st', faults') => handler.run st' faults'
      | (.killed, st', faults') => (.killed, st', faults') := rfl

/-! ### What a task leaves -/

/-- What a run leaves: the postcondition holds if it returned, and the *crash condition* if
it did not. -/
def Leaves (result : Ending α × σ × List (Option Fault)) (C : σ → Prop) (Q : α → σ → Prop) :
    Prop :=
  match result with
  | (.returned a, st, _) => Q a st
  | (_, st, _) => C st

/-- **A task is safe** for a precondition: every run of it leaves the postcondition or the
crash condition. -/
def Safe (P : σ → Prop) (t : Task σ α) (C : σ → Prop) (Q : α → σ → Prop) : Prop :=
  ∀ st faults, P st → Leaves (t.run st faults) C Q

variable {P P' C C' : σ → Prop} {Q Q' : α → σ → Prop} {R : β → σ → Prop}

theorem safe_pure {a : α} (h : ∀ st, P st → Q a st) : Safe P (pure a) C Q :=
  fun st _ hP => h st hP

theorem safe_get {R : σ → σ → Prop} (h : ∀ st, P st → R st st) : Safe P get C R :=
  fun st _ hP => h st hP

theorem safe_raise (h : ∀ st, P st → C st) : Safe P (raise : Task σ α) C Q :=
  fun st _ hP => h st hP

/-- The rule for a step: an interruption leaves the state it had. -/
theorem safe_step {f : σ → σ} {Q : Unit → σ → Prop} (hC : ∀ st, P st → C st)
    (hQ : ∀ st, P st → Q () (f st)) : Safe P (step f) C Q := by
  intro st faults hP
  rcases faults with _ | ⟨_ | _ | _, faults⟩
  · exact hQ st hP
  · exact hQ st hP
  · exact hC st hP
  · exact hC st hP

/-- The rule for a sequence. -/
theorem Safe.bind {t : Task σ α} {f : α → Task σ β} (ht : Safe P t C Q)
    (hf : ∀ a, Safe (Q a) (f a) C R) : Safe P (t >>= f) C R := by
  intro st faults hP
  have hfirst := ht st faults hP
  rw [run_bind]
  generalize t.run st faults = result at hfirst ⊢
  rcases result with ⟨a | _ | _, st', faults'⟩
  · exact hf a st' faults' hfirst
  · exact hfirst
  · exact hfirst

/-- The rule for a caught exception: what it leaves is what the handler starts with. -/
theorem Safe.attempt {t handler : Task σ α} (ht : Safe P t C Q) (hhandler : Safe C handler C Q) :
    Safe P (attempt t handler) C Q := by
  intro st faults hP
  have hfirst := ht st faults hP
  rw [run_attempt]
  generalize t.run st faults = result at hfirst ⊢
  rcases result with ⟨a | _ | _, st', faults'⟩
  · exact hfirst
  · exact hhandler st' faults' hfirst
  · exact hfirst

/-- The rule of consequence. -/
theorem Safe.conseq {t : Task σ α} (ht : Safe P t C Q) (hpre : ∀ st, P' st → P st)
    (hcrash : ∀ st, C st → C' st) (hpost : ∀ a st, Q a st → Q' a st) : Safe P' t C' Q' := by
  intro st faults hP
  have hfirst := ht st faults (hpre st hP)
  generalize t.run st faults = result at hfirst ⊢
  rcases result with ⟨a | _ | _, st', faults'⟩
  · exact hpost a st' hfirst
  · exact hcrash st' hfirst
  · exact hcrash st' hfirst

theorem Safe.weaken {t : Task σ α} (ht : Safe P t C Q) (hpre : ∀ st, P' st → P st)
    (hpost : ∀ a st, Q a st → Q' a st) : Safe P' t C Q' :=
  ht.conseq hpre (fun _ h => h) hpost

/-- A precondition that does not depend on the state. -/
theorem safe_of_imp {p : Prop} {t : Task σ α} (h : p → Safe P t C Q) :
    Safe (fun st => p ∧ P st) t C Q :=
  fun st faults hst => h hst.1 st faults hst.2

/-- **The rule for a loop**, with an invariant that depends on the items that are done. -/
theorem safe_forEach {f : α → Task σ Unit} (I : List α → σ → Prop) {as : List α}
    (hf : ∀ done a rest, as = done ++ a :: rest →
      Safe (I done) (f a) C fun _ => I (done ++ [a])) :
    Safe (I []) (forEach f as) C fun _ => I as := by
  have hrest : ∀ rest done, as = done ++ rest →
      Safe (I done) (forEach f rest) C fun _ => I as := by
    intro rest
    induction rest with
    | nil =>
      rintro done rfl
      exact safe_pure fun st hst => by simpa using hst
    | cons a rest ih =>
      rintro done hsplit
      exact (hf done a rest hsplit).bind fun _ => ih (done ++ [a]) (by simp [hsplit])
  exact hrest as [] rfl

/-! ### Tasks whose first step is hit -/

/-- **A task does nothing if its first step is hit**: it comes to no step at all, or is
interrupted in the state it started with. -/
def Inert (t : Task σ α) : Prop :=
  ∀ st fault faults,
    match t.run st (some fault :: faults) with
    | (.returned _, st', faults') => st' = st ∧ faults' = some fault :: faults
    | (_, st', _) => st' = st

theorem inert_pure (a : α) : Inert (pure a : Task σ α) := fun _ _ _ => ⟨rfl, rfl⟩

theorem inert_get : Inert (get : Task σ σ) := fun _ _ _ => ⟨rfl, rfl⟩

theorem inert_raise : Inert (raise : Task σ α) := fun _ _ _ => rfl

theorem inert_step (f : σ → σ) : Inert (step f) := by
  rintro st (_ | _) faults
  · rfl
  · rfl

theorem Inert.bind {t : Task σ α} {f : α → Task σ β} (ht : Inert t) (hf : ∀ a, Inert (f a)) :
    Inert (t >>= f) := by
  intro st fault faults
  have hfirst := ht st fault faults
  rw [run_bind]
  generalize t.run st (some fault :: faults) = result at hfirst ⊢
  rcases result with ⟨a | _ | _, st', faults'⟩
  · obtain ⟨rfl, rfl⟩ := hfirst
    exact hf a st' fault faults
  · exact hfirst
  · exact hfirst

theorem inert_forEach {f : α → Task σ Unit} (hf : ∀ a, Inert (f a)) (as : List α) :
    Inert (forEach f as) := by
  induction as with
  | nil => exact inert_pure ()
  | cons a as ih => exact (hf a).bind fun _ => ih

/-- The state after a run whose first step is hit. -/
theorem Inert.state_eq {t : Task σ α} (ht : Inert t) {faults : List (Option Fault)}
    (hhit : hitAtOnce faults = true) (st : σ) : (t.run st faults).2.1 = st := by
  rcases faults with _ | ⟨_ | fault, faults⟩
  · exact absurd hhit (by simp [hitAtOnce])
  · exact absurd hhit (by simp [hitAtOnce])
  · have hrun := ht st fault faults
    generalize t.run st (some fault :: faults) = result at hrun ⊢
    rcases result with ⟨a | _ | _, st', faults'⟩
    · exact hrun.1
    · exact hrun
    · exact hrun

end Task

end Apatchy
