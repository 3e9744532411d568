import Mathlib.Data.List.Nodup
import Mathlib.Logic.Relation
import Mathlib.Data.Set.Insert

/-!
# Depth-first explorations

A depth-first search of a graph leaves a tree behind. Where it meets a vertex for
the first time it goes in, and the tree goes on below; where it meets a vertex
again it does not. `Apatchy.Exploration` is such a tree – the forest below one
vertex, each tree of it under the arc that led there – and says nothing about how
the search was programmed. Three conditions tie it to a graph, given by the arcs
`succ` out of each vertex:

* `Apatchy.Exploration.Follows` – below a vertex that was entered are its arcs, all
  of them and in order;
* `Apatchy.FirstMeet` – going through the vertices in the order the search meets
  them, it enters a vertex exactly when it was not met before;
* the arcs at the top are those of the vertex the search starts from.

Together they determine the search, and what searches are used for follows from
them alone: no vertex is entered twice
(`Apatchy.Exploration.nodup_entered`), the vertices entered are those that can be
reached (`Apatchy.Exploration.mem_entered_iff`), and each arc out of such a vertex
is traversed once (`Apatchy.Exploration.arcs_perm`).
-/

namespace Apatchy

/-- **What a depth-first search leaves behind** below a vertex: a sequence of arcs
`e` to vertices `a`, each entered, with what was found inside, or skipped. -/
inductive Exploration (ε α : Type*)
  | done
  | enter (e : ε) (a : α) (inside after : Exploration ε α)
  | skip (e : ε) (a : α) (after : Exploration ε α)

variable {ε α : Type*}

/-- **Entered when first met**: in a list of vertices met, each with whether it was
entered, a vertex is entered exactly when it was neither seen before the list nor
met earlier in it. -/
def FirstMeet (seen : Set α) : List (α × Bool) → Prop
  | [] => True
  | (a, entered) :: l => (entered = true ↔ a ∉ seen) ∧ FirstMeet (insert a seen) l

namespace Exploration

/-! ### Reading an exploration -/

/-- The arcs at the top. -/
def top : Exploration ε α → List (ε × α)
  | done => []
  | enter e a _ after => (e, a) :: top after
  | skip e a after => (e, a) :: top after

/-- The vertices in the order they are met, each with whether it is entered. -/
def meets : Exploration ε α → List (α × Bool)
  | done => []
  | enter _ a inside after => (a, true) :: (meets inside ++ meets after)
  | skip _ a after => (a, false) :: meets after

/-- The vertices that are entered, in the order they are met. -/
def entered : Exploration ε α → List α
  | done => []
  | enter _ a inside after => a :: (entered inside ++ entered after)
  | skip _ _ after => entered after

/-- The arcs in the order the search is through with them. -/
def arcs : Exploration ε α → List (ε × α)
  | done => []
  | enter e a inside after => arcs inside ++ (e, a) :: arcs after
  | skip e a after => (e, a) :: arcs after

/-- **Below a vertex that was entered are its arcs**, in order. -/
def Follows (succ : α → List (ε × α)) : Exploration ε α → Prop
  | done => True
  | enter _ a inside after => top inside = succ a ∧ Follows succ inside ∧ Follows succ after
  | skip _ _ after => Follows succ after

theorem mem_entered {o : Exploration ε α} {a : α} : a ∈ o.entered ↔ (a, true) ∈ o.meets := by
  induction o with
  | done => simp [entered, meets]
  | enter e b inside after ihin ihaf => simp [entered, meets, ihin, ihaf]
  | skip e b after ih => simp [entered, meets, ih]

/-- The vertices at the top are met. -/
theorem meets_of_mem_top {o : Exploration ε α} {t : ε × α} (h : t ∈ o.top) :
    ∃ b, (t.2, b) ∈ o.meets := by
  induction o with
  | done => exact absurd h List.not_mem_nil
  | enter e b inside after ihin ihaf =>
    rcases List.mem_cons.mp h with rfl | h
    · exact ⟨true, List.mem_cons_self ..⟩
    · obtain ⟨c, hc⟩ := ihaf h
      exact ⟨c, by simp [meets, hc]⟩
  | skip e b after ih =>
    rcases List.mem_cons.mp h with rfl | h
    · exact ⟨false, List.mem_cons_self ..⟩
    · obtain ⟨c, hc⟩ := ih h
      exact ⟨c, by simp [meets, hc]⟩

end Exploration

/-! ### Meeting vertices -/

theorem firstMeet_append {seen : Set α} {l l' : List (α × Bool)} :
    FirstMeet seen (l ++ l') ↔
      FirstMeet seen l ∧ FirstMeet (seen ∪ {a | ∃ b, (a, b) ∈ l}) l' := by
  induction l generalizing seen with
  | nil => simp [FirstMeet]
  | cons m l ih =>
    obtain ⟨a, b⟩ := m
    have hset : insert a seen ∪ {c | ∃ b, (c, b) ∈ l} =
        seen ∪ {c | ∃ b', (c, b') ∈ (a, b) :: l} := by
      ext c
      constructor
      · rintro ((rfl | hc) | ⟨b', hc⟩)
        · exact Or.inr ⟨b, List.mem_cons_self ..⟩
        · exact Or.inl hc
        · exact Or.inr ⟨b', List.mem_cons_of_mem _ hc⟩
      · rintro (hc | ⟨b', hc⟩)
        · exact Or.inl (Or.inr hc)
        · rcases List.mem_cons.mp hc with heq | hc
          · exact Or.inl (Or.inl (congrArg Prod.fst heq))
          · exact Or.inr ⟨b', hc⟩
    simp only [List.cons_append, FirstMeet, ih, hset, and_assoc]

/-- A vertex that is met was seen before, or is entered. -/
theorem FirstMeet.seen_or_entered {seen : Set α} {l : List (α × Bool)} (h : FirstMeet seen l)
    {m : α × Bool} (hm : m ∈ l) : m.1 ∈ seen ∨ (m.1, true) ∈ l := by
  induction l generalizing seen with
  | nil => exact absurd hm List.not_mem_nil
  | cons n l ih =>
    obtain ⟨a, b⟩ := n
    obtain ⟨hhead, htail⟩ := h
    have ha : a ∈ seen ∨ (a, true) ∈ (a, b) :: l := by
      by_cases hseen : a ∈ seen
      · exact Or.inl hseen
      · rw [hhead.mpr hseen]
        exact Or.inr (List.mem_cons_self ..)
    rcases List.mem_cons.mp hm with rfl | hm
    · exact ha
    · rcases ih htail hm with (heq | hseen) | hl
      · rwa [heq]
      · exact Or.inl hseen
      · exact Or.inr (List.mem_cons_of_mem _ hl)

/-- A vertex that is entered was not seen before. -/
theorem FirstMeet.not_mem_seen {seen : Set α} {l : List (α × Bool)} (h : FirstMeet seen l)
    {a : α} (ha : (a, true) ∈ l) : a ∉ seen := by
  induction l generalizing seen with
  | nil => exact absurd ha List.not_mem_nil
  | cons n l ih =>
    obtain ⟨b, b'⟩ := n
    obtain ⟨hhead, htail⟩ := h
    rcases List.mem_cons.mp ha with heq | ha
    · obtain ⟨rfl, rfl⟩ := Prod.mk.inj heq
      exact hhead.mp rfl
    · exact fun hseen => ih htail ha (Set.mem_insert_of_mem _ hseen)

namespace Exploration

/-- **No vertex is entered twice**, and none that was seen before. -/
theorem nodup_entered {seen : Set α} {o : Exploration ε α} (h : FirstMeet seen o.meets) :
    o.entered.Nodup ∧ ∀ a ∈ o.entered, a ∉ seen := by
  refine ⟨?_, fun a ha => h.not_mem_seen (mem_entered.mp ha)⟩
  induction o generalizing seen with
  | done => exact List.nodup_nil
  | enter e a inside after ihin ihaf =>
    obtain ⟨-, hrest⟩ := h
    obtain ⟨hin, haf⟩ := firstMeet_append.mp hrest
    refine List.nodup_cons.mpr ⟨?_, List.nodup_append.mpr ⟨ihin hin, ihaf haf, ?_⟩⟩
    · rw [List.mem_append]
      rintro (ha | ha)
      · exact hin.not_mem_seen (mem_entered.mp ha) (Set.mem_insert ..)
      · exact haf.not_mem_seen (mem_entered.mp ha) (Or.inl (Set.mem_insert ..))
    · rintro b hb c hc rfl
      exact haf.not_mem_seen (mem_entered.mp hc) (Or.inr ⟨true, mem_entered.mp hb⟩)
  | skip e a after ih => exact ih h.2

/-- Once an exploration is over, the vertices met are among those seen before it and
those it entered. -/
theorem seen_union_meets {seen : Set α} {o : Exploration ε α} (h : FirstMeet seen o.meets) :
    seen ∪ {a | ∃ b, (a, b) ∈ o.meets} = seen ∪ {a | a ∈ o.entered} := by
  ext a
  constructor
  · rintro (ha | ⟨b, hb⟩)
    · exact Or.inl ha
    · rcases h.seen_or_entered hb with hseen | hentered
      · exact Or.inl hseen
      · exact Or.inr (mem_entered.mpr hentered)
  · rintro (ha | ha)
    · exact Or.inl ha
    · exact Or.inr ⟨true, mem_entered.mp ha⟩

/-! ### What is reached -/

/-- There is an arc from one vertex to another. -/
def Arc (succ : α → List (ε × α)) (a b : α) : Prop := ∃ e, (e, b) ∈ succ a

variable {succ : α → List (ε × α)}

/-- Everything met can be reached from where the vertices at the top can. -/
theorem reaches_of_mem_meets {a : α} {o : Exploration ε α} (hfollows : o.Follows succ)
    (htop : ∀ t ∈ o.top, Relation.ReflTransGen (Arc succ) a t.2) {m : α × Bool}
    (hm : m ∈ o.meets) : Relation.ReflTransGen (Arc succ) a m.1 := by
  induction o with
  | done => exact absurd hm List.not_mem_nil
  | enter e b inside after ihin ihaf =>
    obtain ⟨hsucc, hin, haf⟩ := hfollows
    have hb : Relation.ReflTransGen (Arc succ) a b := htop (e, b) (List.mem_cons_self ..)
    rcases List.mem_cons.mp hm with rfl | hm
    · exact hb
    · rcases List.mem_append.mp hm with hm | hm
      · refine ihin hin (fun t ht => hb.tail ⟨t.1, ?_⟩) hm
        rwa [hsucc] at ht
      · exact ihaf haf (fun t ht => htop t (List.mem_cons_of_mem _ ht)) hm
  | skip e b after ih =>
    rcases List.mem_cons.mp hm with rfl | hm
    · exact htop (e, b) (List.mem_cons_self ..)
    · exact ih hfollows (fun t ht => htop t (List.mem_cons_of_mem _ ht)) hm

/-- The arcs of a vertex that is entered lead to vertices that are met. -/
theorem meets_of_mem_entered {a : α} {o : Exploration ε α} (hfollows : o.Follows succ)
    (ha : a ∈ o.entered) {t : ε × α} (ht : t ∈ succ a) : ∃ b, (t.2, b) ∈ o.meets := by
  induction o with
  | done => exact absurd ha List.not_mem_nil
  | enter e c inside after ihin ihaf =>
    obtain ⟨hsucc, hin, haf⟩ := hfollows
    have hinside : ∀ b, (t.2, b) ∈ inside.meets → ∃ b, (t.2, b) ∈ (enter e c inside after).meets :=
      fun b hb => ⟨b, by simp [meets, hb]⟩
    rcases List.mem_cons.mp ha with rfl | ha
    · rw [← hsucc] at ht
      obtain ⟨b, hb⟩ := meets_of_mem_top ht
      exact hinside b hb
    · rcases List.mem_append.mp ha with ha | ha
      · obtain ⟨b, hb⟩ := ihin hin ha
        exact hinside b hb
      · obtain ⟨b, hb⟩ := ihaf haf ha
        exact ⟨b, by simp [meets, hb]⟩
  | skip e c after ih =>
    obtain ⟨b, hb⟩ := ih hfollows ha
    exact ⟨b, by simp [meets, hb]⟩

/-- **A search from `a` enters what can be reached from `a`**, besides `a` itself. -/
theorem mem_entered_iff {a : α} {o : Exploration ε α} (hfollows : o.Follows succ)
    (htop : o.top = succ a) (hfirst : FirstMeet {a} o.meets) (b : α) :
    b ∈ a :: o.entered ↔ Relation.ReflTransGen (Arc succ) a b := by
  constructor
  · rintro hb
    rcases List.mem_cons.mp hb with rfl | hb
    · exact Relation.ReflTransGen.refl
    · refine reaches_of_mem_meets hfollows (fun t ht => ?_) (mem_entered.mp hb)
      rw [htop] at ht
      exact Relation.ReflTransGen.single ⟨t.1, ht⟩
  · intro hreach
    -- what was met was entered, so the vertices entered are closed under arcs
    have hmet : ∀ c b, (c, b) ∈ o.meets → c ∈ a :: o.entered := by
      intro c b hc
      rcases hfirst.seen_or_entered hc with hseen | hentered
      · exact List.mem_cons.mpr (Or.inl hseen)
      · exact List.mem_cons_of_mem _ (mem_entered.mpr hentered)
    induction hreach with
    | refl => exact List.mem_cons_self ..
    | tail _ hstep ih =>
      obtain ⟨e, he⟩ := hstep
      rcases List.mem_cons.mp ih with rfl | hc
      · rw [← htop] at he
        obtain ⟨b, hb⟩ := meets_of_mem_top he
        exact hmet _ b hb
      · obtain ⟨b, hb⟩ := meets_of_mem_entered hfollows hc he
        exact hmet _ b hb

open scoped List in
/-- **Each arc is traversed once**: the arcs at the top, and those of each vertex
entered. -/
theorem arcs_perm {o : Exploration ε α} (hfollows : o.Follows succ) :
    o.arcs ~ o.top ++ o.entered.flatMap succ := by
  induction o with
  | done => exact List.Perm.nil
  | enter e a inside after ihin ihaf =>
    obtain ⟨hsucc, hin, haf⟩ := hfollows
    have hinside := ihin hin
    rw [hsucc] at hinside
    calc (enter e a inside after).arcs
        _ = inside.arcs ++ (e, a) :: after.arcs := rfl
        _ ~ ((e, a) :: (inside.arcs ++ after.arcs)) := List.perm_middle
        _ ~ ((e, a) :: (succ a ++ inside.entered.flatMap succ ++
              (after.top ++ after.entered.flatMap succ))) :=
            (hinside.append (ihaf haf)).cons _
        _ ~ ((e, a) :: (after.top ++ (succ a ++ inside.entered.flatMap succ ++
              after.entered.flatMap succ))) := (List.perm_append_comm_assoc ..).cons _
        _ = (enter e a inside after).top ++ (enter e a inside after).entered.flatMap succ := by
            simp [top, entered]
  | skip e a after ih => exact (ih hfollows).cons _

end Exploration

end Apatchy
