import Apatchy.Foundations.Firsts
import Mathlib.Data.List.Count
import Mathlib.Data.List.Sort

/-!
# Counters

A `Counter` is a dictionary from items to numbers, in the order in which the items came first
(`Apatchy.Counter`). Counting items one by one gives each the number of its occurrences
(`Apatchy.Counter.get_tally`); when each of several things is counted under all its labels, and
under none twice, the number of a label is that of the things that have it
(`Apatchy.Counter.get_tally_flatMap`).

`most_common` lists the items by their numbers, the greatest first, and those with one number in
the order of the dictionary.
-/

namespace Apatchy

variable {κ α : Type*}

/-- **A counter**: the items and their numbers, in the order in which the items came first. -/
abbrev Counter (κ : Type*) : Type _ := List (κ × ℕ)

namespace Counter

/-- `counter.most_common()`. -/
def mostCommon (counter : Counter κ) : Counter κ := counter.mergeSort fun a b => b.2 ≤ a.2

/-- What is listed is what is there. -/
theorem mem_mostCommon {counter : Counter κ} {entry : κ × ℕ} :
    entry ∈ counter.mostCommon ↔ entry ∈ counter := List.mem_mergeSort

theorem nodup_keys_mostCommon {counter : Counter κ} (h : (counter.map Prod.fst).Nodup) :
    (counter.mostCommon.map Prod.fst).Nodup :=
  ((List.mergeSort_perm counter _).map Prod.fst).nodup_iff.mpr h

/-- **The greatest number is listed first.** -/
theorem sorted_mostCommon (counter : Counter κ) :
    counter.mostCommon.Pairwise fun a b => b.2 ≤ a.2 := by
  have htrans : ∀ a b c : κ × ℕ, decide (b.2 ≤ a.2) = true → decide (c.2 ≤ b.2) = true →
      decide (c.2 ≤ a.2) = true := fun a b c hab hbc =>
    decide_eq_true ((of_decide_eq_true hbc).trans (of_decide_eq_true hab))
  have htotal : ∀ a b : κ × ℕ, (decide (b.2 ≤ a.2) || decide (a.2 ≤ b.2)) = true := fun a b => by
    simpa using Nat.le_total b.2 a.2
  have hsorted := List.pairwise_mergeSort htrans htotal counter
  exact hsorted.imp of_decide_eq_true

variable [DecidableEq κ]

/-- `counter[k] += 1`. -/
def add (k : κ) : Counter κ → Counter κ
  | [] => [(k, 1)]
  | (k', n) :: counter => if k' = k then (k', n + 1) :: counter else (k', n) :: add k counter

/-- `counter[k]`. -/
def get (counter : Counter κ) (k : κ) : ℕ :=
  match counter with
  | [] => 0
  | (k', n) :: counter => if k' = k then n else get counter k

/-- The counter of some items. -/
def tally (ks : List κ) : Counter κ := ks.foldl (fun counter k => add k counter) []

theorem get_add (counter : Counter κ) (k k' : κ) :
    (add k counter).get k' = counter.get k' + if k = k' then 1 else 0 := by
  induction counter with
  | nil =>
    rw [add, get, get, get, Nat.zero_add]
  | cons entry counter ih =>
    obtain ⟨k₀, n⟩ := entry
    rw [add]
    split_ifs with hadd hget
    · rw [get, get, if_pos (hadd.trans hget), if_pos (hadd.trans hget)]
    · rw [get, get, if_neg fun h => hget (hadd.symm.trans h),
        if_neg fun h => hget (hadd.symm.trans h), Nat.add_zero]
    · rw [get, get]
      split_ifs with hhere
      · exact absurd (hhere.trans (Eq.symm ‹k = k'›)) hadd
      · rw [ih, if_pos ‹k = k'›]
    · rw [get, get]
      split_ifs with hhere
      · rfl
      · rw [ih, if_neg ‹¬ k = k'›]

theorem tally_concat (ks : List κ) (k : κ) : tally (ks ++ [k]) = add k (tally ks) := by
  rw [tally, List.foldl_append]
  rfl

/-- **Each item has the number of its occurrences.** -/
theorem get_tally (ks : List κ) (k : κ) : (tally ks).get k = ks.count k := by
  induction ks using List.reverseRecOn with
  | nil => rfl
  | append_singleton ks k' ih =>
    rw [tally_concat, get_add, ih, List.count_append, List.count_singleton]
    simp only [beq_iff_eq]

/-- **Counting under labels**: if no thing has a label twice, the number of a label is that of
the things that have it. -/
theorem get_tally_flatMap (labels : α → List κ) (as : List α)
    (h : ∀ a ∈ as, (labels a).Nodup) (k : κ) :
    (tally (as.flatMap labels)).get k = as.countP fun a => k ∈ labels a := by
  rw [get_tally]
  induction as with
  | nil => rfl
  | cons a as ih =>
    rw [List.flatMap_cons, List.count_append, ih fun b hb => h b (List.mem_cons_of_mem _ hb),
      List.countP_cons, (h a List.mem_cons_self).count, Nat.add_comm]
    simp only [decide_eq_true_eq]

/-! ### What is in a counter -/

/-- Counting an item adds it to the keys, if it is not there. -/
theorem keys_add (k : κ) (counter : Counter κ) :
    (add k counter).map Prod.fst = keepFirst id (counter.map Prod.fst) k := by
  induction counter with
  | nil => rfl
  | cons entry counter ih =>
    obtain ⟨k', n⟩ := entry
    rw [add]
    split_ifs with hk
    · simp [keepFirst, hk]
    · rw [List.map_cons, ih]
      simp only [keepFirst, List.map_id, List.map_cons, id, List.mem_cons, Ne.symm hk, false_or]
      split_ifs
      · rfl
      · rfl

/-- **The keys** are the items in the order of their first appearances. -/
theorem keys_tally (ks : List κ) : (tally ks).map Prod.fst = firsts id ks := by
  induction ks using List.reverseRecOn with
  | nil => rfl
  | append_singleton ks k ih => rw [tally_concat, keys_add, ih, firsts_concat]

theorem mem_iff_get {counter : Counter κ} (h : (counter.map Prod.fst).Nodup) {k : κ} {n : ℕ} :
    (k, n) ∈ counter ↔ k ∈ counter.map Prod.fst ∧ counter.get k = n := by
  induction counter with
  | nil => simp
  | cons entry counter ih =>
    obtain ⟨k', n'⟩ := entry
    rw [List.map_cons, List.nodup_cons] at h
    rw [List.mem_cons, ih h.2, List.map_cons, List.mem_cons, get, Prod.mk.injEq]
    by_cases hk : k' = k
    · subst hk
      simp only [h.1, false_and, or_false, true_and, if_true, eq_comm]
    · simp only [hk, Ne.symm hk, false_and, false_or, if_false]

/-- No item is counted in two places. -/
theorem nodup_keys_tally (ks : List κ) : ((tally ks).map Prod.fst).Nodup := by
  rw [keys_tally]
  have hnodup := @nodup_map_firsts _ _ _ id ks
  rwa [List.map_id] at hnodup

/-- **The entries** are the items that occur, with the number of their occurrences. -/
theorem mem_tally {ks : List κ} {k : κ} {n : ℕ} :
    (k, n) ∈ tally ks ↔ k ∈ ks ∧ ks.count k = n := by
  have hmem : ∀ k, k ∈ (tally ks).map Prod.fst ↔ k ∈ ks := fun k => by
    rw [keys_tally]
    have hmem := @mem_map_firsts _ _ _ id ks k
    rwa [List.map_id, List.map_id] at hmem
  rw [mem_iff_get (nodup_keys_tally ks), hmem, get_tally]

end Counter

end Apatchy
