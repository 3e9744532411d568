import Mathlib.Data.List.Induction
import Mathlib.Data.List.Nodup

/-!
# The first with each key

When lists are merged without duplicates, an item is kept if none with its key was kept
before (`Apatchy.firsts`). What is kept has different keys, and every key is there; the
items keep their order.

The aim of a merge is more often stated without keys: each item once, in the order of
their first appearances (`Apatchy.ListsOnce`). The two agree exactly if the key tells the
items apart (`Apatchy.listsOnce_firsts_iff`).

An item can also be left out because a kept one covers it, without being it
(`Apatchy.keepUncovered`). Then an item is kept exactly if none that came before it covers
it, kept or not (`Apatchy.mem_foldl_keepUncovered_iff`).
-/

namespace Apatchy

variable {α κ : Type*} [DecidableEq κ]

/-- Keep an item, if none with its key was kept. -/
def keepFirst (key : α → κ) (kept : List α) (a : α) : List α :=
  if key a ∈ kept.map key then kept else kept ++ [a]

/-- **The first item with each key.** -/
def firsts (key : α → κ) (as : List α) : List α := as.foldl (keepFirst key) []

/-- **Each item once, in the order of the first appearances.** -/
structure ListsOnce [DecidableEq α] (as merged : List α) : Prop where
  /-- No item is there twice. -/
  nodup : merged.Nodup
  /-- The items are there, and nothing else is. -/
  mem_iff : ∀ a, a ∈ merged ↔ a ∈ as
  /-- They are in the order of their first appearances. -/
  ordered : merged.Pairwise fun a b => as.idxOf a < as.idxOf b

/-- There is only one such list. -/
theorem ListsOnce.eq [DecidableEq α] {as merged merged' : List α} (h : ListsOnce as merged)
    (h' : ListsOnce as merged') : merged = merged' := by
  have hperm : merged.Perm merged' := (List.perm_ext_iff_of_nodup h.nodup h'.nodup).mpr fun a =>
    (h.mem_iff a).trans (h'.mem_iff a).symm
  exact hperm.eq_of_pairwise (fun a b _ _ hab hba => absurd hab (Nat.lt_asymm hba)) h.ordered
    h'.ordered

variable {key : α → κ}

@[simp] theorem firsts_nil : firsts key [] = [] := rfl

theorem firsts_concat (as : List α) (a : α) :
    firsts key (as ++ [a]) = keepFirst key (firsts key as) a := by
  simp [firsts]

/-- **Every key is there**, and no other. -/
theorem mem_map_firsts {as : List α} {k : κ} : k ∈ (firsts key as).map key ↔ k ∈ as.map key := by
  induction as using List.reverseRecOn with
  | nil => simp
  | append_singleton as a ih =>
    rw [firsts_concat, keepFirst, List.map_append, List.mem_append, ← ih]
    split_ifs with hold
    · constructor
      · exact Or.inl
      · rintro (hk | hk)
        · exact hk
        · rw [List.map_singleton, List.mem_singleton] at hk
          rwa [hk]
    · rw [List.map_append, List.mem_append]

theorem firsts_sublist (as : List α) : (firsts key as).Sublist as := by
  induction as using List.reverseRecOn with
  | nil => simp
  | append_singleton as a ih =>
    rw [firsts_concat, keepFirst]
    split_ifs
    · exact ih.trans (List.sublist_append_left _ _)
    · exact ih.append (List.Sublist.refl _)

/-- **The keys differ.** -/
theorem nodup_map_firsts (as : List α) : ((firsts key as).map key).Nodup := by
  induction as using List.reverseRecOn with
  | nil => simp
  | append_singleton as a ih =>
    rw [firsts_concat, keepFirst]
    split_ifs with hold
    · exact ih
    · rw [List.map_append, List.map_singleton, List.nodup_append']
      exact ⟨ih, List.nodup_singleton _, by simpa using hold⟩

/-- Two items that are kept are one, if they have one key. -/
theorem eq_of_mem_firsts {as : List α} {a b : α} (ha : a ∈ firsts key as)
    (hb : b ∈ firsts key as) (h : key a = key b) : a = b :=
  List.inj_on_of_nodup_map (nodup_map_firsts as) ha hb h

/-- What is kept is in the order of the first appearances. -/
theorem ordered_firsts [DecidableEq α] (as : List α) :
    (firsts key as).Pairwise fun a b => as.idxOf a < as.idxOf b := by
  induction as using List.reverseRecOn with
  | nil => simp
  | append_singleton as a ih =>
    have hidx : ∀ b ∈ firsts key as, (as ++ [a]).idxOf b = as.idxOf b := fun b hb =>
      List.idxOf_append_of_mem ((firsts_sublist as).subset hb)
    have hold : (firsts key as).Pairwise fun b c => (as ++ [a]).idxOf b < (as ++ [a]).idxOf c := by
      refine ih.imp_of_mem fun hb hc hlt => ?_
      rwa [hidx _ hb, hidx _ hc]
    rw [firsts_concat, keepFirst]
    split_ifs with hkey
    · exact hold
    · have hnew : a ∉ as := fun ha => hkey (mem_map_firsts.mpr (List.mem_map_of_mem ha))
      refine List.pairwise_append.mpr ⟨hold, List.pairwise_singleton _ _, fun b hb c hc => ?_⟩
      obtain rfl := List.mem_singleton.mp hc
      rw [hidx b hb, List.idxOf_append_of_notMem hnew, List.idxOf_cons_self, Nat.add_zero]
      exact List.idxOf_lt_length_of_mem ((firsts_sublist as).subset hb)

/-- **Each item is listed once exactly if the key tells the items apart.** -/
theorem listsOnce_firsts_iff [DecidableEq α] (as : List α) :
    ListsOnce as (firsts key as) ↔ ∀ a ∈ as, ∀ b ∈ as, key a = key b → a = b := by
  constructor
  · intro h a ha b hb hkey
    exact eq_of_mem_firsts ((h.mem_iff a).mpr ha) ((h.mem_iff b).mpr hb) hkey
  · intro hinj
    refine ⟨List.Nodup.of_map key (nodup_map_firsts as), fun a => ?_, ordered_firsts as⟩
    refine ⟨fun ha => (firsts_sublist as).subset ha, fun ha => ?_⟩
    obtain ⟨b, hb, hkey⟩ := List.mem_map.mp (mem_map_firsts.mpr (List.mem_map_of_mem (f := key) ha))
    have hba := hinj b ((firsts_sublist as).subset hb) a ha hkey
    rwa [← hba]

/-! ### Kept unless covered -/

section Covered

variable {covers : α → α → Prop} [DecidableRel covers]

/-- Keep an item, unless one that was kept covers it. -/
def keepUncovered (covers : α → α → Prop) [DecidableRel covers] (kept : List α) (a : α) : List α :=
  if ∃ b ∈ kept, covers b a then kept else kept ++ [a]

theorem foldl_keepUncovered_concat (kept as : List α) (a : α) :
    (as ++ [a]).foldl (keepUncovered covers) kept =
      keepUncovered covers (as.foldl (keepUncovered covers) kept) a := by
  simp

/-- **What was kept stays in front**, and what comes behind it is from the list. -/
theorem exists_foldl_keepUncovered (kept as : List α) :
    ∃ new, as.foldl (keepUncovered covers) kept = kept ++ new ∧ ∀ a ∈ new, a ∈ as := by
  induction as using List.reverseRecOn with
  | nil => exact ⟨[], by simp, by simp⟩
  | append_singleton as a ih =>
    obtain ⟨new, hnew, hmem⟩ := ih
    rw [foldl_keepUncovered_concat, hnew, keepUncovered]
    split_ifs
    · exact ⟨new, rfl, fun b hb => List.mem_append_left _ (hmem b hb)⟩
    · refine ⟨new ++ [a], List.append_assoc .., fun b hb => ?_⟩
      rcases List.mem_append.mp hb with hb | hb
      · exact List.mem_append_left _ (hmem b hb)
      · exact List.mem_append_right _ hb

/-- Whatever came is covered by something that was kept. -/
theorem exists_covers (hrefl : ∀ a, covers a a) (kept as : List α) {a : α}
    (ha : a ∈ kept ++ as) : ∃ b ∈ as.foldl (keepUncovered covers) kept, covers b a := by
  induction as using List.reverseRecOn with
  | nil => exact ⟨a, by simpa using ha, hrefl a⟩
  | append_singleton as c ih =>
    rw [foldl_keepUncovered_concat, keepUncovered]
    rw [← List.append_assoc] at ha
    rcases List.mem_append.mp ha with ha | ha
    · obtain ⟨b, hb, hcovers⟩ := ih ha
      split_ifs
      · exact ⟨b, hb, hcovers⟩
      · exact ⟨b, List.mem_append_left _ hb, hcovers⟩
    · obtain rfl := List.mem_singleton.mp ha
      split_ifs with hold
      · exact hold
      · exact ⟨a, by simp, hrefl a⟩

/-- **An item is kept exactly if none that came before it covers it.** -/
theorem mem_foldl_keepUncovered_iff (hrefl : ∀ a, covers a a)
    (htrans : ∀ a b c, covers a b → covers b c → covers a c) (kept as : List α) (a : α) :
    a ∈ as.foldl (keepUncovered covers) kept ↔
      a ∈ kept ∨ ∃ front back, as = front ++ a :: back ∧ ∀ b ∈ kept ++ front, ¬ covers b a := by
  induction as using List.reverseRecOn with
  | nil => simp
  | append_singleton as c ih =>
    -- who covers the new item among what is kept, and among all that came
    have hcovered : (∃ b ∈ as.foldl (keepUncovered covers) kept, covers b c) ↔
        ∃ b ∈ kept ++ as, covers b c := by
      constructor
      · rintro ⟨b, hb, hcovers⟩
        obtain ⟨new, hnew, hmem⟩ := @exists_foldl_keepUncovered _ covers _ kept as
        rw [hnew] at hb
        rcases List.mem_append.mp hb with hb | hb
        · exact ⟨b, List.mem_append_left _ hb, hcovers⟩
        · exact ⟨b, List.mem_append_right _ (hmem b hb), hcovers⟩
      · rintro ⟨b, hb, hcovers⟩
        obtain ⟨d, hd, hcovers'⟩ := exists_covers hrefl kept as hb
        exact ⟨d, hd, htrans d b c hcovers' hcovers⟩
    have hlast : a ∈ (as ++ [c]).foldl (keepUncovered covers) kept ↔
        a ∈ as.foldl (keepUncovered covers) kept ∨ a = c ∧ ∀ b ∈ kept ++ as, ¬ covers b c := by
      rw [foldl_keepUncovered_concat, keepUncovered]
      split_ifs with hold
      · obtain ⟨b, hb, hcovers⟩ := hcovered.mp hold
        exact ⟨Or.inl, fun h => h.elim id fun h => absurd hcovers (h.2 b hb)⟩
      · have hnone : ∀ b ∈ kept ++ as, ¬ covers b c := fun b hb hcovers =>
          hold (hcovered.mpr ⟨b, hb, hcovers⟩)
        rw [List.mem_append, List.mem_singleton, and_iff_left hnone]
    rw [hlast, ih, or_assoc]
    refine or_congr_right ?_
    constructor
    · rintro (⟨front, back, rfl, hnone⟩ | ⟨rfl, hnone⟩)
      · exact ⟨front, back ++ [c], by simp, hnone⟩
      · exact ⟨as, [], rfl, hnone⟩
    · rintro ⟨front, back, heq, hnone⟩
      rcases back.eq_nil_or_concat' with rfl | ⟨back, d, rfl⟩
      · obtain ⟨rfl, hc⟩ := List.append_inj' heq rfl
        obtain rfl : c = a := by simpa using hc
        exact Or.inr ⟨rfl, hnone⟩
      · have hsplit : front ++ a :: (back ++ [d]) = (front ++ a :: back) ++ [d] := by simp
        rw [hsplit] at heq
        obtain ⟨rfl, -⟩ := List.append_inj' heq rfl
        exact Or.inl ⟨front, back, rfl, hnone⟩

end Covered

end Apatchy
