import Mathlib.Data.Finset.Card
import Mathlib.Data.List.Dedup

/-!
# Publishing to a shared list

Several writers share a list of records. Each writer has a key of its own, and
publishes a record by looking at the last record of the list only: one with its key is
replaced, and otherwise the new record is put at the end (`Apatchy.publish`).

What the list is meant to hold is what was there at first and the latest record of each
writer (`Apatchy.ListsLatest`). It does, after each publication of a sequence, exactly if
the writers take turns (`Apatchy.InTurns`) – none publishes again after another one has –
and the first of them does not find its key at the end of the list
(`Apatchy.listsLatest_iff`).
-/

namespace Apatchy

variable {ι κ S : Type*} [DecidableEq ι] [DecidableEq κ]

/-! ### The list and its records -/

/-- Whether the last record of a list has a key. -/
def EndsWith (key : S → κ) (l : List S) (k : κ) : Prop := ∃ y ∈ l.getLast?, key y = k

instance (key : S → κ) (l : List S) (k : κ) : Decidable (EndsWith key l k) :=
  match h : l.getLast? with
  | none => isFalse (by simp [EndsWith, h])
  | some y => decidable_of_iff (key y = k) (by simp [EndsWith, h])

/-- **Publish a record**: in the place of the last one if that has its key, and after it
otherwise. -/
def publish (key : S → κ) (l : List S) (x : S) : List S :=
  if EndsWith key l (key x) then l.dropLast ++ [x] else l ++ [x]

/-- Publish the records of some writers, in order. -/
def publishAll (key : S → κ) (l : List S) (ps : List (ι × S)) : List S :=
  ps.foldl (fun l p => publish key l p.2) l

/-- The latest record of a writer. -/
def latest (ps : List (ι × S)) (i : ι) : Option S :=
  (ps.reverse.find? fun p => p.1 = i).map Prod.snd

/-- **The list holds what was there at first, and the latest record of each writer** that
has published, once. -/
def ListsLatest (initial l : List S) (ps : List (ι × S)) : Prop :=
  ∃ is : List ι, is.Nodup ∧ (∀ i, i ∈ is ↔ i ∈ ps.map Prod.fst) ∧
    l.Perm (initial ++ is.filterMap (latest ps))

/-- **The writers take turns**: between two publications of one writer there is no
publication of another one. -/
def InTurns (is : List ι) : Prop :=
  ∀ i front mid back, is = front ++ i :: (mid ++ i :: back) → ∀ j ∈ mid, j = i

/-! ### One publication -/

omit [DecidableEq κ] in
theorem endsWith_concat (key : S → κ) (l : List S) (y : S) (k : κ) :
    EndsWith key (l ++ [y]) k ↔ key y = k := by
  simp [EndsWith]

theorem publish_of_endsWith {key : S → κ} {l : List S} {y x : S} (h : key y = key x) :
    publish key (l ++ [y]) x = l ++ [x] := by
  rw [publish, if_pos ((endsWith_concat ..).mpr h), List.dropLast_concat]

theorem publish_of_not_endsWith {key : S → κ} {l : List S} {x : S}
    (h : ¬ EndsWith key l (key x)) : publish key l x = l ++ [x] := by
  rw [publish, if_neg h]

omit [DecidableEq ι] in
theorem publishAll_concat (key : S → κ) (l : List S) (ps : List (ι × S)) (p : ι × S) :
    publishAll key l (ps ++ [p]) = publish key (publishAll key l ps) p.2 := by
  simp [publishAll]

theorem latest_concat (ps : List (ι × S)) (p : ι × S) (i : ι) :
    latest (ps ++ [p]) i = if p.1 = i then some p.2 else latest ps i := by
  by_cases h : p.1 = i <;> simp [latest, h]

/-- The latest records of other writers are what they were. -/
theorem filterMap_latest_concat (ps : List (ι × S)) {i : ι} (x : S) {js : List ι} (hjs : i ∉ js) :
    js.filterMap (latest (ps ++ [(i, x)])) = js.filterMap (latest ps) := by
  refine List.filterMap_congr fun j hj => ?_
  rw [latest_concat, if_neg]
  rintro rfl
  exact hjs hj

theorem latest_isSome_iff (ps : List (ι × S)) (i : ι) :
    (latest ps i).isSome ↔ i ∈ ps.map Prod.fst := by
  simp [latest]

/-- The latest record of a writer is one of its records. -/
theorem mem_of_latest {ps : List (ι × S)} {i : ι} {x : S} (h : latest ps i = some x) :
    (i, x) ∈ ps := by
  obtain ⟨p, hp, rfl⟩ := Option.map_eq_some_iff.mp h
  have hmem : p ∈ ps := List.mem_reverse.mp (List.mem_of_find?_eq_some hp)
  have hi : p.1 = i := by simpa using List.find?_some hp
  rwa [← hi]

/-! ### Turns -/

omit [DecidableEq ι] in
theorem inTurns_concat (is : List ι) (i : ι) :
    InTurns (is ++ [i]) ↔ InTurns is ∧ (i ∈ is → is.getLast? = some i) := by
  constructor
  · refine fun h => ⟨fun k front mid back hsplit => ?_, fun hmem => ?_⟩
    · exact h k front mid (back ++ [i]) (by simp [hsplit])
    · -- what is between a turn of the writer and this one is its own
      obtain ⟨front, mid, rfl⟩ := List.append_of_mem hmem
      have hmid := h i front mid [] (by simp)
      rcases mid.eq_nil_or_concat' with rfl | ⟨mid, j, rfl⟩
      · simp
      · have hj : j = i := hmid j (by simp)
        have hassoc : front ++ i :: (mid ++ [j]) = (front ++ i :: mid) ++ [j] := by simp
        rw [hassoc, List.getLast?_concat, hj]
  · rintro ⟨hturns, hlast⟩ k front mid back hsplit
    rcases back.eq_nil_or_concat' with rfl | ⟨back, j, rfl⟩
    · -- The last publication is one of the two, and the one before it is its writer's too.
      have hsplit' : is ++ [i] = (front ++ k :: mid) ++ [k] := by simpa using hsplit
      obtain ⟨rfl, hik⟩ := List.append_inj' hsplit' rfl
      obtain rfl : i = k := by simpa using hik
      have hend := hlast (by simp)
      rcases mid.eq_nil_or_concat' with rfl | ⟨mid, j, rfl⟩
      · simp
      · have hassoc : front ++ i :: (mid ++ [j]) = (front ++ i :: mid) ++ [j] := by simp
        rw [hassoc, List.getLast?_concat] at hend
        obtain rfl := Option.some.inj hend
        have hmid := hturns j front mid [] (by simp)
        simpa [or_imp, forall_and] using hmid
    · have hsplit' : is ++ [i] = (front ++ k :: (mid ++ k :: back)) ++ [j] := by
        simpa using hsplit
      obtain ⟨his, -⟩ := List.append_inj' hsplit' rfl
      exact hturns k front mid back his

/-! ### How many records there are -/

/-- The number of records is known. -/
theorem ListsLatest.length {initial l : List S} {ps : List (ι × S)}
    (h : ListsLatest initial l ps) :
    l.length = initial.length + (ps.map Prod.fst).toFinset.card := by
  obtain ⟨is, hnodup, hmem, hperm⟩ := h
  have hfilter : (is.filterMap (latest ps)).length = is.length := by
    rw [List.length_filterMap_eq_countP, List.countP_eq_length]
    exact fun i hi => (latest_isSome_iff ps i).mpr ((hmem i).mp hi)
  have hset : is.toFinset = (ps.map Prod.fst).toFinset := by
    ext i
    simp only [List.mem_toFinset, hmem]
  rw [hperm.length_eq, List.length_append, hfilter, ← hset, List.toFinset_card_of_nodup hnodup]

/-- **What a publication must find**: the key of the writer at the end exactly if it has
published before. -/
theorem endsWith_iff_of_listsLatest {key : S → κ} {initial l : List S} {ps : List (ι × S)}
    {i : ι} {x : S} (hpre : ListsLatest initial l ps)
    (hpost : ListsLatest initial (publish key l x) (ps ++ [(i, x)])) :
    EndsWith key l (key x) ↔ i ∈ ps.map Prod.fst := by
  have hcount : (ps ++ [(i, x)]).map Prod.fst = ps.map Prod.fst ++ [i] := by simp
  have hbefore := hpre.length
  have hafter := hpost.length
  rw [hcount, List.toFinset_append, List.toFinset_cons, List.toFinset_nil, insert_empty_eq,
    Finset.union_singleton] at hafter
  constructor
  · intro h
    by_contra hnew
    obtain ⟨front, y, rfl⟩ : ∃ front y, l = front ++ [y] := by
      rcases l.eq_nil_or_concat' with rfl | ⟨front, y, rfl⟩
      · simp [EndsWith] at h
      · exact ⟨front, y, rfl⟩
    rw [publish_of_endsWith ((endsWith_concat ..).mp h),
      Finset.card_insert_of_notMem (by simpa using hnew)] at hafter
    simp only [List.length_append, List.length_cons, List.length_nil] at hbefore hafter
    omega
  · intro hold
    by_contra h
    rw [publish_of_not_endsWith h, Finset.insert_eq_of_mem (List.mem_toFinset.mpr hold),
      List.length_append, List.length_singleton] at hafter
    omega

/-! ### Writers that take turns -/

/-- The list holds what was there at first and then the latest record of each writer, the
last writer's at the end. -/
def InOrder (initial l : List S) (ps : List (ι × S)) : Prop :=
  ∃ is : List ι, is.Nodup ∧ (∀ i, i ∈ is ↔ i ∈ ps.map Prod.fst) ∧
    is.getLast? = (ps.map Prod.fst).getLast? ∧ l = initial ++ is.filterMap (latest ps)

theorem InOrder.listsLatest {initial l : List S} {ps : List (ι × S)}
    (h : InOrder initial l ps) : ListsLatest initial l ps := by
  obtain ⟨is, hnodup, hmem, -, rfl⟩ := h
  exact ⟨is, hnodup, hmem, List.Perm.refl _⟩

section Keyed

variable {key : S → κ} {start : ι → κ}

omit [DecidableEq κ] in
/-- What the last publication of a sequence left at the end. -/
theorem InOrder.endsWith_iff (hstart : Function.Injective start) {initial l : List S}
    {ps : List (ι × S)} (hkey : ∀ p ∈ ps, key p.2 = start p.1) (h : InOrder initial l ps)
    {j : ι} (hj : (ps.map Prod.fst).getLast? = some j) (i : ι) :
    EndsWith key l (start i) ↔ j = i := by
  obtain ⟨is, -, hmem, hlast, rfl⟩ := h
  rw [hj] at hlast
  obtain ⟨front, rfl⟩ := List.getLast?_eq_some_iff.mp hlast
  obtain ⟨x, hx⟩ := Option.isSome_iff_exists.mp
    ((latest_isSome_iff ps j).mpr ((hmem j).mp (by simp)))
  have hxkey : key x = start j := hkey _ (mem_of_latest hx)
  rw [List.filterMap_append, ← List.append_assoc]
  simp only [List.filterMap_cons, hx, List.filterMap_nil]
  rw [endsWith_concat, hxkey]
  exact hstart.eq_iff

/-- Nobody has published. -/
theorem InOrder.nil (initial : List S) : InOrder (ι := ι) initial initial [] :=
  ⟨[], List.nodup_nil, by simp, by simp, by simp⟩

/-- A publication in turn keeps the order. -/
theorem InOrder.publish (hstart : Function.Injective start) {initial l : List S}
    {ps : List (ι × S)} (hkey : ∀ p ∈ ps, key p.2 = start p.1) (h : InOrder initial l ps)
    {i : ι} {x : S} (hx : key x = start i)
    (hturn : i ∈ ps.map Prod.fst → (ps.map Prod.fst).getLast? = some i)
    (hfirst : ps = [] → ¬ EndsWith key initial (start i)) :
    InOrder initial (publish key l x) (ps ++ [(i, x)]) := by
  have hends : ∀ j, (ps.map Prod.fst).getLast? = some j → (EndsWith key l (start i) ↔ j = i) :=
    fun j hj => h.endsWith_iff hstart hkey hj i
  obtain ⟨is, hnodup, hmem, hlast, rfl⟩ := h
  -- only the latest record of the publishing writer changes
  have hother : ∀ js : List ι, i ∉ js →
      js.filterMap (latest (ps ++ [(i, x)])) = js.filterMap (latest ps) :=
    fun _ hjs => filterMap_latest_concat ps x hjs
  have hown : latest (ps ++ [(i, x)]) i = some x := by simp [latest_concat]
  by_cases hold : i ∈ ps.map Prod.fst
  · -- Its record is at the end, and is replaced.
    rw [hturn hold] at hlast
    obtain ⟨front, rfl⟩ := List.getLast?_eq_some_iff.mp hlast
    have hfront : i ∉ front := fun hi => by
      simpa [hi] using (List.nodup_append'.mp hnodup).2.2
    obtain ⟨y, hy⟩ := Option.isSome_iff_exists.mp ((latest_isSome_iff ps i).mpr hold)
    have hyx : key y = key x := (hkey _ (mem_of_latest hy)).trans hx.symm
    refine ⟨front ++ [i], hnodup, fun j => ?_, by simp, ?_⟩
    · rw [hmem j]
      simp only [List.map_append, List.map_cons, List.map_nil, List.mem_append,
        List.mem_singleton]
      constructor
      · exact Or.inl
      · rintro (hj | rfl)
        · exact hj
        · exact hold
    · simp only [List.filterMap_append, hother front hfront, List.filterMap_cons, hown, hy,
        List.filterMap_nil]
      rw [← List.append_assoc, publish_of_endsWith hyx, List.append_assoc]
  · -- It has none, and the one at the end is another writer's or was there at first.
    have hi : i ∉ is := fun hi => hold ((hmem i).mp hi)
    have hnot : ¬ EndsWith key (initial ++ is.filterMap (latest ps)) (key x) := by
      rw [hx]
      rcases ps.eq_nil_or_concat' with rfl | ⟨front, p, rfl⟩
      · have his : is = [] := List.eq_nil_iff_forall_not_mem.mpr fun j hj => by
          simpa using (hmem j).mp hj
        simpa [his] using hfirst rfl
      · rw [hends p.1 (by simp)]
        intro hp
        exact hold (by simp [hp])
    refine ⟨is ++ [i], ?_, fun j => ?_, by simp, ?_⟩
    · exact List.nodup_append'.mpr ⟨hnodup, List.nodup_singleton i, by simpa using hi⟩
    · simp [hmem j]
    · rw [publish_of_not_endsWith hnot, List.append_assoc]
      simp [hother is hi, hown]

/-- **Writers that take turns keep the order.** -/
theorem inOrder_publishAll (hstart : Function.Injective start) (initial : List S)
    (ps : List (ι × S)) (hkey : ∀ p ∈ ps, key p.2 = start p.1)
    (hturns : InTurns (ps.map Prod.fst))
    (hfirst : ∀ p ∈ ps.head?, ¬ EndsWith key initial (start p.1)) :
    InOrder initial (publishAll key initial ps) ps := by
  induction ps using List.reverseRecOn with
  | nil => exact InOrder.nil initial
  | append_singleton ps p ih =>
    have hkeys : ∀ q ∈ ps, key q.2 = start q.1 := fun q hq => hkey q (by simp [hq])
    have hmap : (ps ++ [p]).map Prod.fst = ps.map Prod.fst ++ [p.1] := by simp
    rw [hmap, inTurns_concat] at hturns
    have hhead : ∀ q ∈ ps.head?, ¬ EndsWith key initial (start q.1) := by
      intro q hq
      exact hfirst q (by simp [Option.mem_def.mp hq])
    rw [publishAll_concat]
    refine (ih hkeys hturns.1 hhead).publish hstart hkeys (hkey p (by simp)) hturns.2 ?_
    rintro rfl
    exact hfirst p (by simp)

/-- **The list holds the latest records all along exactly if the writers take turns**, and
the first of them does not find its key at the end. -/
theorem listsLatest_iff (hstart : Function.Injective start) (initial : List S)
    (ps : List (ι × S)) (hkey : ∀ p ∈ ps, key p.2 = start p.1) :
    (∀ qs, qs <+: ps → ListsLatest initial (publishAll key initial qs) qs) ↔
      InTurns (ps.map Prod.fst) ∧ ∀ p ∈ ps.head?, ¬ EndsWith key initial (start p.1) := by
  constructor
  · intro h
    -- each list must be right before and after its last record
    induction ps using List.reverseRecOn with
    | nil => simp [InTurns]
    | append_singleton ps p ih =>
      have hkeys : ∀ q ∈ ps, key q.2 = start q.1 := fun q hq => hkey q (by simp [hq])
      have hp : key p.2 = start p.1 := hkey p (by simp)
      obtain ⟨hturns, hfirst⟩ := ih hkeys fun qs hqs => h qs (hqs.trans (List.prefix_append ..))
      have hpost := h _ (List.prefix_refl _)
      rw [publishAll_concat] at hpost
      have hmust := endsWith_iff_of_listsLatest (h ps (List.prefix_append ..)) hpost
      have hmap : (ps ++ [p]).map Prod.fst = ps.map Prod.fst ++ [p.1] := by simp
      rw [hp] at hmust
      rw [hmap, inTurns_concat]
      refine ⟨⟨hturns, fun hold => ?_⟩, fun q hq => ?_⟩
      · -- It finds its key at the end, which the last writer has put there.
        have horder := inOrder_publishAll hstart initial ps hkeys hturns hfirst
        obtain ⟨j, hj⟩ : ∃ j, (ps.map Prod.fst).getLast? = some j :=
          ⟨_, List.getLast?_eq_some_getLast (List.ne_nil_of_mem hold)⟩
        rw [hj, (horder.endsWith_iff hstart hkeys hj p.1).mp (hmust.mpr hold)]
      · -- the first record finds no earlier one to replace
        rcases ps with _ | ⟨q', ps⟩
        · obtain rfl : p = q := by simpa using hq
          intro hends
          simpa using hmust.mp hends
        · exact hfirst q (by simpa using hq)
  · rintro ⟨hturns, hfirst⟩ qs ⟨rest, rfl⟩
    have hkeys : ∀ q ∈ qs, key q.2 = start q.1 := fun q hq => hkey q (by simp [hq])
    refine (inOrder_publishAll hstart initial qs hkeys ?_ ?_).listsLatest
    · intro i front mid back hsplit
      exact hturns i front mid (back ++ rest.map Prod.fst) (by simp [hsplit])
    · intro p hp
      exact hfirst p (by simp [Option.mem_def.mp hp])

end Keyed

end Apatchy
