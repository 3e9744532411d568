import Apatchy.Foundations.Lines

/-!
# Messages on a stream

Messages that follow each other on a stream are items of a reader
(`Apatchy.Reader.items`). To say where one ends and the next begins, the reader has to take
something for each of them: it *consumes* (`Apatchy.Reader.Consumes`), and what it is made of
gives nothing back (`Apatchy.Reader.Keeps`).

The one rule is `Apatchy.Reader.items_eq_of_run`: the items of a stream are the first one and
the items of what is left, whatever comes after.
-/

namespace Apatchy

namespace Reader

variable {α β : Type}

/-- **The reader gives nothing back**: what is left is no longer than what there was. -/
def Keeps (p : Reader α) : Prop :=
  ∀ bs a rest, p.run bs = some (a, rest) → rest.length ≤ bs.length

/-- **The reader consumes**: what is left is shorter than what there was. -/
def Consumes (p : Reader α) : Prop :=
  ∀ bs a rest, p.run bs = some (a, rest) → rest.length < bs.length

theorem Consumes.keeps {p : Reader α} (h : Consumes p) : Keeps p :=
  fun bs a rest hrun => (h bs a rest hrun).le

theorem keeps_pure (a : α) : Keeps (Pure.pure a : Reader α) := by
  intro bs b rest h
  obtain ⟨-, rfl⟩ := Prod.mk.inj (Option.some.inj h)
  exact le_rfl

theorem keeps_ofOption (o : Option α) : Keeps (ofOption o) := by
  intro bs a rest h
  obtain ⟨b, -, hb⟩ := Option.map_eq_some_iff.mp h
  exact (congrArg List.length (Prod.mk.inj hb).2.symm).le

theorem keeps_bytes (n : ℕ) : Keeps (bytes n) := by
  intro bs a rest h
  simp only [StateT.run, bytes] at h
  split_ifs at h
  obtain ⟨-, rfl⟩ := Prod.mk.inj (Option.some.inj h)
  simp

/-- What a reader of two steps has read. -/
theorem run_bind_eq_some {p : Reader α} {f : α → Reader β} {bs rest : List UInt8} {b : β} :
    (p >>= f).run bs = some (b, rest) ↔
      ∃ a rest', p.run bs = some (a, rest') ∧ (f a).run rest' = some (b, rest) := by
  rw [StateT.run_bind]
  constructor
  · intro h
    obtain ⟨⟨a, rest'⟩, hrun, hnext⟩ := Option.bind_eq_some_iff.mp h
    exact ⟨a, rest', hrun, hnext⟩
  · rintro ⟨a, rest', hrun, hnext⟩
    exact Option.bind_eq_some_iff.mpr ⟨(a, rest'), hrun, hnext⟩

/-- A reader of two steps goes on behind what the first one reads. -/
theorem Reads.run_bind {p : Reader α} {bs : List UInt8} {a : α} (h : Reads p bs a)
    (f : α → Reader β) (rest : List UInt8) : (p >>= f).run (bs ++ rest) = (f a).run rest := by
  rw [StateT.run_bind, h rest]
  rfl

/-- A reader whose first step is decided goes on where it is. -/
theorem run_ofOption_bind (o : Option α) (f : α → Reader β) (bs : List UInt8) :
    (ofOption o >>= f).run bs = o.bind fun a => (f a).run bs := by
  rcases o with _ | a
  · rfl
  · rfl

theorem Keeps.bind {p : Reader α} {f : α → Reader β} (h : Keeps p) (h' : ∀ a, Keeps (f a)) :
    Keeps (p >>= f) := by
  intro bs b rest hrun
  obtain ⟨a, rest', hfirst, hnext⟩ := run_bind_eq_some.mp hrun
  exact (h' a _ _ _ hnext).trans (h _ _ _ hfirst)

/-- **A reader that begins with one that consumes consumes.** -/
theorem Consumes.bind {p : Reader α} {f : α → Reader β} (h : Consumes p)
    (h' : ∀ a, Keeps (f a)) : Consumes (p >>= f) := by
  intro bs b rest hrun
  obtain ⟨a, rest', hfirst, hnext⟩ := run_bind_eq_some.mp hrun
  exact (h' a _ _ _ hnext).trans_lt (h _ _ _ hfirst)

/-- Reading up to a separator takes the separator at least. -/
theorem consumes_upTo {sep : List UInt8} (hsep : sep ≠ []) : Consumes (upTo sep) := by
  intro bs a rest h
  obtain ⟨i, hi, hrest⟩ := Option.map_eq_some_iff.mp h
  obtain ⟨-, rfl⟩ := Prod.mk.inj hrest
  obtain ⟨hle, hbegins, -⟩ := find_eq_some_iff.mp hi
  have hlength := hbegins.length_le
  have hpos := List.length_pos_iff.mpr hsep
  simp only [List.length_drop] at hlength ⊢
  omega

theorem consumes_line : Consumes line := consumes_upTo (by decide)

theorem keeps_linesUpTo (n : ℕ) : Keeps (linesUpTo n) := by
  induction n with
  | zero => exact fun bs a rest h => absurd h (by simp [linesUpTo, StateT.run])
  | succ n ih =>
    refine consumes_line.keeps.bind fun l => ?_
    split_ifs
    · exact keeps_pure []
    · exact ih.bind fun ls => keeps_pure (l :: ls)

theorem keeps_block : Keeps block := fun bs a rest h => keeps_linesUpTo bs.length bs a rest h

/-! ### Items -/

@[simp] theorem items_nil (p : Reader α) : items p [] = some [] := rfl

/-- Bounds on the number of items that are no smaller than that of the bytes are none. -/
theorem itemsUpTo_eq_itemsUpTo {p : Reader α} (hp : Consumes p) {n m : ℕ} {bs : List UInt8}
    (hn : bs.length ≤ n) (hm : bs.length ≤ m) : itemsUpTo p n bs = itemsUpTo p m bs := by
  induction n generalizing m bs with
  | zero =>
    obtain rfl := List.eq_nil_of_length_eq_zero (Nat.le_zero.mp hn)
    cases m <;> rfl
  | succ n ih =>
    rcases bs with _ | ⟨b, bs⟩
    · cases m <;> rfl
    · obtain ⟨m, rfl⟩ : ∃ k, m = k + 1 := ⟨m - 1, by simp at hm; omega⟩
      rw [itemsUpTo, itemsUpTo]
      rcases hrun : p.run (b :: bs) with _ | ⟨a, rest⟩
      · rfl
      · have hless := hp _ _ _ hrun
        simp only [List.length_cons] at hless hn hm
        have hrest : itemsUpTo p n rest = itemsUpTo p m rest := ih (by omega) (by omega)
        simp [hrest]

/-- **The items of a stream** are the first one and the items of what is left. -/
theorem items_eq_of_run {p : Reader α} (hp : Consumes p) {bs rest : List UInt8} {a : α}
    (hrun : p.run bs = some (a, rest)) : items p bs = (items p rest).map (a :: ·) := by
  have hless := hp _ _ _ hrun
  rcases bs with _ | ⟨b, bs⟩
  · simp at hless
  · have hrest : itemsUpTo p bs.length rest = items p rest :=
      itemsUpTo_eq_itemsUpTo hp (by simpa [Nat.lt_succ_iff] using hless) le_rfl
    rw [items, List.length_cons, itemsUpTo, hrun]
    change (itemsUpTo p bs.length rest).bind (fun as => some (a :: as)) = _
    rw [hrest]
    rcases items p rest with _ | as
    · rfl
    · rfl

/-- Where no first item is read there are none. -/
theorem items_eq_none_of_run {p : Reader α} {bs : List UInt8} (hbs : bs ≠ [])
    (hrun : p.run bs = none) : items p bs = none := by
  obtain ⟨b, bs, rfl⟩ := List.exists_cons_of_ne_nil hbs
  rw [items, List.length_cons, itemsUpTo, hrun]
  rfl

/-- Only an empty stream has no items. -/
theorem eq_nil_of_items_eq_nil {p : Reader α} {bs : List UInt8} (h : items p bs = some []) :
    bs = [] := by
  rcases bs with _ | ⟨b, bs⟩
  · rfl
  · rw [items, List.length_cons, itemsUpTo] at h
    obtain ⟨⟨a, rest⟩, -, h⟩ := Option.bind_eq_some_iff.mp h
    obtain ⟨as, -, h⟩ := Option.bind_eq_some_iff.mp h
    exact absurd (Option.some.inj h) (List.cons_ne_nil a as)

end Reader

end Apatchy
