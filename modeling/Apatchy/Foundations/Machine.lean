import Mathlib.Data.List.Basic

/-!
# Machines that answer

A component that is driven from outside – a filter that is read, a cache that is
asked, a tree that is rebuilt – is a *machine*: a state, and a step that takes an
input to an answer and a new state (`Apatchy.Machine`). A sequence of inputs runs
it (`Apatchy.Machine.run`), and what happened at each input is recorded in a trace
(`Apatchy.Machine.trace`).

Four rules carry every result about whole runs:

* `Apatchy.Machine.invariant_run` – what holds at the start and is kept by every
  step holds at the end;
* `Apatchy.Machine.invariant_trace` – the same, with a *guard* on the steps: along
  a run whose steps all meet the guard, the invariant holds before and after each
  of them;
* `Apatchy.Machine.answers_eq_of_bisim` – two states that answer alike and stay
  related answer alike for ever;
* `Apatchy.Machine.run_cascade_cons` – machines in a row, each of which is asked what the one
  before it answers, can be run together, input by input.
-/

namespace Apatchy

/-- **A machine**: the answer to an input, and the state after it. -/
structure Machine (σ ι ο : Type*) where
  /-- What one input does. -/
  step : σ → ι → ο × σ

namespace Machine

variable {σ ι ο : Type*} (M : Machine σ ι ο)

/-! ### Runs -/

/-- Run a sequence of inputs: the answers in order, and the state after the
last one. -/
def run : σ → List ι → List ο × σ
  | s, [] => ([], s)
  | s, i :: is => ((M.step s i).1 :: (run (M.step s i).2 is).1, (run (M.step s i).2 is).2)

@[simp] theorem run_nil (s : σ) : M.run s [] = ([], s) := rfl

@[simp] theorem run_cons (s : σ) (i : ι) (is : List ι) :
    M.run s (i :: is) =
      ((M.step s i).1 :: (M.run (M.step s i).2 is).1, (M.run (M.step s i).2 is).2) := rfl

theorem run_append (s : σ) (is js : List ι) :
    M.run s (is ++ js) =
      ((M.run s is).1 ++ (M.run (M.run s is).2 js).1, (M.run (M.run s is).2 js).2) := by
  induction is generalizing s with
  | nil => simp
  | cons i is ih => simp [ih]

theorem run_concat (s : σ) (is : List ι) (i : ι) :
    M.run s (is ++ [i]) =
      ((M.run s is).1 ++ [(M.step (M.run s is).2 i).1], (M.step (M.run s is).2 i).2) := by
  simp [run_append]

/-- **What every step keeps, a run keeps.** -/
theorem invariant_run {Inv : σ → Prop} (hstep : ∀ s i, Inv s → Inv (M.step s i).2)
    {s : σ} (hs : Inv s) (is : List ι) : Inv (M.run s is).2 := by
  induction is generalizing s with
  | nil => exact hs
  | cons i is ih => exact ih (hstep s i hs)

/-- **Related states answer alike.** Two states related by a relation that makes
each step answer the same, and that each step keeps, give the same answers to
every sequence of inputs. -/
theorem answers_eq_of_bisim {R : σ → σ → Prop}
    (hanswer : ∀ s t i, R s t → (M.step s i).1 = (M.step t i).1)
    (hstep : ∀ s t i, R s t → R (M.step s i).2 (M.step t i).2)
    {s t : σ} (h : R s t) (is : List ι) : (M.run s is).1 = (M.run t is).1 := by
  induction is generalizing s t with
  | nil => rfl
  | cons i is ih => simp [hanswer s t i h, ih (hstep s t i h)]

/-! ### Traces -/

/-- One entry of a trace: the state before a step, its input, its answer, and
the state after it. -/
structure Entry (σ ι ο : Type*) where
  /-- The state before the step. -/
  pre : σ
  /-- The input. -/
  input : ι
  /-- The answer. -/
  answer : ο
  /-- The state after the step. -/
  post : σ

/-- The trace of a run: one entry for each of its steps. -/
def trace : σ → List ι → List (Entry σ ι ο)
  | _, [] => []
  | s, i :: is => ⟨s, i, (M.step s i).1, (M.step s i).2⟩ :: trace (M.step s i).2 is

@[simp] theorem trace_nil (s : σ) : M.trace s [] = [] := rfl

@[simp] theorem trace_cons (s : σ) (i : ι) (is : List ι) :
    M.trace s (i :: is) =
      ⟨s, i, (M.step s i).1, (M.step s i).2⟩ :: M.trace (M.step s i).2 is := rfl

/-- An entry of a trace is a step of the machine. -/
theorem step_of_mem_trace {s : σ} {is : List ι} {e : Entry σ ι ο} (h : e ∈ M.trace s is) :
    (e.answer, e.post) = M.step e.pre e.input := by
  induction is generalizing s with
  | nil => simp at h
  | cons i is ih =>
    rcases List.mem_cons.mp h with rfl | h
    · rfl
    · exact ih h

/-- The input of an entry is one of the inputs of the run. -/
theorem input_mem_of_mem_trace {s : σ} {is : List ι} {e : Entry σ ι ο} (h : e ∈ M.trace s is) :
    e.input ∈ is := by
  induction is generalizing s with
  | nil => simp at h
  | cons i is ih =>
    rcases List.mem_cons.mp h with rfl | h
    · exact List.mem_cons_self ..
    · exact List.mem_cons_of_mem _ (ih h)

/-- **The guarded invariant rule**: along a run whose steps all meet the guard, an
invariant that guarded steps keep holds before and after each step. -/
theorem invariant_trace {Inv : σ → Prop} {Guard : σ → ι → Prop}
    (hstep : ∀ s i, Inv s → Guard s i → Inv (M.step s i).2)
    {s : σ} (hs : Inv s) {is : List ι} (hguard : ∀ e ∈ M.trace s is, Guard e.pre e.input)
    {e : Entry σ ι ο} (he : e ∈ M.trace s is) : Inv e.pre ∧ Inv e.post := by
  induction is generalizing s with
  | nil => simp at he
  | cons i is ih =>
    have hnext : Inv (M.step s i).2 := hstep s i hs (hguard _ (List.mem_cons_self ..))
    rcases List.mem_cons.mp he with rfl | he
    · exact ⟨hs, hnext⟩
    · exact ih hnext (fun e he => hguard e (List.mem_cons_of_mem _ he)) he

/-- **The rule for the entries of a trace**: along a run whose steps all meet the guard,
what holds of a guarded step from every state with the invariant holds of each entry. -/
theorem forall_mem_trace {Inv : σ → Prop} {Guard : σ → ι → Prop} {P : Entry σ ι ο → Prop}
    (hstep : ∀ s i, Inv s → Guard s i → Inv (M.step s i).2)
    (hentry : ∀ s i, Inv s → Guard s i → P ⟨s, i, (M.step s i).1, (M.step s i).2⟩)
    {s : σ} (hs : Inv s) {is : List ι} (hguard : ∀ e ∈ M.trace s is, Guard e.pre e.input) :
    ∀ e ∈ M.trace s is, P e := by
  intro e he
  obtain ⟨hpre, -⟩ := M.invariant_trace hstep hs hguard he
  have hP := hentry e.pre e.input hpre (hguard e he)
  rwa [← M.step_of_mem_trace he] at hP

/-! ### Machines in a row -/

section Cascade

variable {κ : Type*} (N : κ → Machine σ ι ι)

/-- One input goes through a row of machines: what one answers, the next is asked. -/
def cascadeStep : List (κ × σ) → ι → ι × List (κ × σ)
  | [], i => (i, [])
  | (k, s) :: row, i =>
    let first := (N k).step s i
    let later := cascadeStep row first.1
    (later.1, (k, first.2) :: later.2)

/-- **Machines in a row**, as one machine. -/
def cascade : Machine (List (κ × σ)) ι ι where
  step := cascadeStep N

theorem run_cascade_nil (is : List ι) : ((cascade N).run [] is).1 = is := by
  induction is with
  | nil => rfl
  | cons i is ih => exact congrArg (i :: ·) ih

/-- **To go through a row input by input is to go through its first machine, and then
through the others.** -/
theorem run_cascade_cons (k : κ) (s : σ) (row : List (κ × σ)) (is : List ι) :
    ((cascade N).run ((k, s) :: row) is).1 = ((cascade N).run row ((N k).run s is).1).1 := by
  induction is generalizing s row with
  | nil => rfl
  | cons i is ih => exact congrArg (_ :: ·) (ih ..)

end Cascade

end Machine

end Apatchy
