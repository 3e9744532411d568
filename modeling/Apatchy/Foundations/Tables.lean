import Mathlib.Data.List.Induction
import Mathlib.Logic.Function.Basic
import Mathlib.Order.Bounds.Basic

/-!
# Tables that are filled from a list

A dictionary is a table of values by key. When it is filled from a list of items, an item
overwrites what an earlier one with its key has put there, so the table holds, for each
key, the value of the last item that has it (`Apatchy.fill_eq`).

A table can also keep, for each key, the greatest of the values that were put in
(`Apatchy.Table.raise`). Such a table holds maxima (`Apatchy.HoldsMaxima`): what it has
for a key is the greatest of a set of values, and it has nothing exactly where that set
is empty.
-/

namespace Apatchy

variable {α β κ : Type*} [DecidableEq κ]

/-- A dictionary, as far as it is looked up. -/
abbrev Table (κ β : Type*) : Type _ := κ → Option β

/-- `table[k] = b`. -/
def Table.set (table : Table κ β) (k : κ) (b : β) : Table κ β :=
  fun k' => if k' = k then some b else table k'

/-- Put in the value of an item, if it has a key. -/
def Table.put (key : α → Option κ) (value : α → β) (table : Table κ β) (a : α) : Table κ β :=
  match key a with
  | some k => table.set k (value a)
  | none => table

/-- A table that is filled from a list, in order. -/
def fill (key : α → Option κ) (value : α → β) (as : List α) : Table κ β :=
  as.foldl (Table.put key value) fun _ => none

theorem fill_concat (key : α → Option κ) (value : α → β) (as : List α) (a : α) :
    fill key value (as ++ [a]) = (fill key value as).put key value a := by
  simp [fill]

/-- **The last item with a key is the one whose value the table holds.** -/
theorem fill_eq (key : α → Option κ) (value : α → β) (as : List α) (k : κ) :
    fill key value as k = (as.reverse.find? fun a => key a = some k).map value := by
  induction as using List.reverseRecOn with
  | nil => rfl
  | append_singleton as a ih =>
    rw [fill_concat, List.reverse_append, List.reverse_singleton, List.singleton_append,
      List.find?_cons]
    by_cases hk : key a = some k
    · simp [Table.put, hk, Table.set]
    · rcases hkey : key a with _ | k'
      · simp [Table.put, hkey, ih]
      · have hne : k ≠ k' := by
          rintro rfl
          exact hk hkey
        simp [Table.put, hkey, Table.set, hne, hne.symm, ih]

/-! ### Running maxima -/

section Maxima

variable [LinearOrder β]

/-- `for k in ks: table[k] = max(table.get(k, floor), b)`. -/
def Table.raise (floor : β) (ks : List κ) (b : β) (table : Table κ β) : Table κ β :=
  ks.foldl (fun table k => table.set k (max ((table k).getD floor) b)) table

omit [DecidableEq κ] in
/-- **A table of maxima**: for each key the greatest of a set of values, and nothing for a
key whose set is empty. -/
def HoldsMaxima (table : Table κ β) (values : κ → Set β) : Prop :=
  ∀ k, (∀ b, table k = some b → IsGreatest (values k) b) ∧ (table k = none → values k = ∅)

omit [DecidableEq κ] in
/-- Nothing was put in. -/
theorem holdsMaxima_empty : HoldsMaxima (fun _ : κ => (none : Option β)) fun _ => ∅ :=
  fun _ => ⟨by simp, fun _ => rfl⟩

/-- One value is put in for one key. -/
theorem HoldsMaxima.set {table : Table κ β} {values : κ → Set β} (h : HoldsMaxima table values)
    {floor b : β} (hb : floor ≤ b) (k : κ) :
    HoldsMaxima (table.set k (max ((table k).getD floor) b))
      fun k' => values k' ∪ {c | k' = k ∧ c = b} := by
  intro k'
  by_cases hk : k' = k
  · subst hk
    simp only [Table.set, if_true, Option.some.injEq, forall_eq', reduceCtorEq,
      IsEmpty.forall_iff, and_true, true_and]
    rcases hold : table k' with _ | old
    · simp [(h k').2 hold, max_eq_right hb]
    · rw [Option.getD_some, Set.ofPred_eq_eq_singleton]
      exact ((h k').1 old hold).union isGreatest_singleton
  · simpa [Table.set, hk] using h k'

/-- **One value is put in for some keys.** -/
theorem HoldsMaxima.raise {table : Table κ β} {values : κ → Set β} (h : HoldsMaxima table values)
    {floor b : β} (hb : floor ≤ b) (ks : List κ) :
    HoldsMaxima (table.raise floor ks b) fun k => values k ∪ {c | k ∈ ks ∧ c = b} := by
  induction ks generalizing table values with
  | nil => simpa [Table.raise] using h
  | cons k ks ih =>
    have hvalues : (fun k' => values k' ∪ {c | k' ∈ k :: ks ∧ c = b}) =
        fun k' => values k' ∪ {c | k' = k ∧ c = b} ∪ {c | k' ∈ ks ∧ c = b} := by
      ext k' c
      simp only [List.mem_cons, Set.mem_union, Set.mem_ofPred_eq]
      tauto
    rw [hvalues]
    exact ih (h.set hb k)

end Maxima

end Apatchy
