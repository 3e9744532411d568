import Mathlib.Data.List.Basic

/-!
# Allocated blocks, and pointers to them

What C leaves to the programmer about `malloc` and `free` is when a block may be used. Here a
block is the number of the call that made it, so that no two blocks are ever the same even
where an allocator gives out an address again, and the heap says which blocks were released
(`Apatchy.Allocations`). To release a block twice, or to use it afterwards, is a fault
(`Apatchy.MemoryFault`).

A variable that holds a pointer is *empty*, *live* or *dangling* (`Apatchy.Slot`), and what a
command does to it – allocate, free, use – is a matter of that alone
(`Apatchy.Slot.next`, `Apatchy.Slot.Faults`), and not of what another variable holds as long as
they hold different blocks (`Apatchy.Allocations.Pair`). Two disciplines are common: allocating
may first free what is held, or may forget it; the flag `frees` says which. What the commands
have to look like for nothing to fault is `Apatchy.Slot.safeFrom_empty_iff`, in terms of the
commands alone.
-/

namespace Apatchy

/-! ### The heap -/

/-- What can be wrong with the use of a block. -/
inductive MemoryFault where
  /-- A released block is used. -/
  | useAfterFree : MemoryFault
  /-- A released block is released. -/
  | doubleFree : MemoryFault
deriving DecidableEq, Repr

/-- **The heap**: how many blocks were made, and which of them were released. -/
structure Allocations where
  /-- How many blocks were made. -/
  made : ℕ := 0
  /-- The blocks that were released. -/
  released : List ℕ := []
deriving DecidableEq, Repr

/-- What a variable holds. -/
inductive Slot where
  /-- The null pointer. -/
  | empty : Slot
  /-- A pointer to a block that may be used. -/
  | live : Slot
  /-- A pointer to a block that was released. -/
  | dangling : Slot
deriving DecidableEq, Repr

namespace Allocations

/-- A new block. -/
def malloc (h : Allocations) : ℕ × Allocations := (h.made, { h with made := h.made + 1 })

/-- A block is released. -/
def free (h : Allocations) (b : ℕ) : Except MemoryFault Allocations :=
  if b ∈ h.released then .error .doubleFree else .ok { h with released := b :: h.released }

/-- A block is used. -/
def access (h : Allocations) (b : ℕ) : Except MemoryFault Unit :=
  if b ∈ h.released then .error .useAfterFree else .ok ()

/-- What a variable with this value holds. -/
def slot (h : Allocations) : Option ℕ → Slot
  | none => .empty
  | some b => if b ∈ h.released then .dangling else .live

/-- **The released blocks and those that are held were made.** -/
structure Holds (h : Allocations) (p : Option ℕ) : Prop where
  /-- So were the released ones. -/
  released : ∀ b ∈ h.released, b < h.made
  /-- So was the one that is held. -/
  held : ∀ b ∈ p, b < h.made

variable {h : Allocations} {p q : Option ℕ} {b : ℕ}

@[simp] theorem slot_none : h.slot none = .empty := rfl

theorem slot_some_eq_dangling : h.slot (some b) = .dangling ↔ b ∈ h.released := by
  by_cases hb : b ∈ h.released
  · simp [slot, hb]
  · simp [slot, hb]

theorem slot_some_ne_empty : h.slot (some b) ≠ .empty := by
  by_cases hb : b ∈ h.released
  · simp [slot, hb]
  · simp [slot, hb]

/-- A new block is live. -/
theorem slot_malloc (hp : h.Holds p) : h.malloc.2.slot (some h.malloc.1) = .live := by
  have hnew : h.made ∉ h.released := fun hmem => absurd (hp.released _ hmem) (Nat.lt_irrefl _)
  simp [malloc, slot, hnew]

@[simp] theorem slot_malloc_of_old (p : Option ℕ) : h.malloc.2.slot p = h.slot p := rfl

theorem Holds.malloc (hp : h.Holds p) : h.malloc.2.Holds p where
  released b hb := Nat.lt_succ_of_lt (hp.released b hb)
  held b hb := Nat.lt_succ_of_lt (hp.held b hb)

theorem Holds.malloc_new (hp : h.Holds p) : h.malloc.2.Holds (some h.malloc.1) where
  released := hp.malloc.released
  held b hb := by
    obtain rfl : h.malloc.1 = b := Option.some.inj hb
    exact Nat.lt_succ_self _

theorem Holds.none (hp : h.Holds p) : h.Holds none where
  released := hp.released
  held b hb := by simp at hb

/-- The new block is held nowhere else. -/
theorem Holds.ne_malloc (hp : h.Holds p) : p ≠ some h.malloc.1 := by
  rintro rfl
  exact absurd (hp.held _ rfl) (Nat.lt_irrefl _)

/-- **A block is released unless it was released.** -/
theorem free_eq (h : Allocations) (b : ℕ) :
    h.free b = if h.slot (some b) = .dangling then .error .doubleFree
      else .ok { h with released := b :: h.released } := by
  simp only [free, slot_some_eq_dangling]

/-- What releasing a block does to a variable that holds another one. -/
theorem slot_free_of_ne (hq : q ≠ some b) :
    ({ h with released := b :: h.released } : Allocations).slot q = h.slot q := by
  rcases q with _ | c
  · rfl
  · have hc : c ≠ b := fun h => hq (h ▸ rfl)
    simp [slot, hc]

theorem slot_free_self :
    ({ h with released := b :: h.released } : Allocations).slot (some b) = .dangling := by
  simp [slot]

theorem Holds.free (hp : h.Holds p) (hb : b < h.made) :
    ({ h with released := b :: h.released } : Allocations).Holds p where
  released c hc := by
    rcases List.mem_cons.mp hc with rfl | hc
    · exact hb
    · exact hp.released c hc
  held := hp.held

/-! ### Two variables -/

/-- **What two variables hold**, which do not hold the same block. -/
structure Pair (h : Allocations) (p q : Option ℕ) (a b : Slot) : Prop where
  /-- What the first one holds was made. -/
  left : h.Holds p
  /-- So was what the second one holds. -/
  right : h.Holds q
  /-- These are two blocks. -/
  distinct : ∀ x ∈ p, q ≠ some x
  /-- What the first one holds. -/
  slot_left : h.slot p = a
  /-- What the second one holds. -/
  slot_right : h.slot q = b

namespace Pair

variable {a a' : Slot}

theorem symm (hs : h.Pair p q a a') : h.Pair q p a' a where
  left := hs.right
  right := hs.left
  distinct x hx hp := hs.distinct x hp hx
  slot_left := hs.slot_right
  slot_right := hs.slot_left

/-- The first variable gets a new block. -/
theorem malloc (hs : h.Pair p q a a') : h.malloc.2.Pair (some h.malloc.1) q .live a' where
  left := hs.left.malloc_new
  right := hs.right.malloc
  distinct x hx := by
    obtain rfl : h.malloc.1 = x := Option.some.inj hx
    exact hs.right.ne_malloc
  slot_left := slot_malloc hs.left
  slot_right := hs.slot_right

/-- The first variable gets the null pointer. -/
theorem forget (hs : h.Pair p q a a') : h.Pair none q .empty a' where
  left := hs.left.none
  right := hs.right
  distinct x hx := by simp at hx
  slot_left := rfl
  slot_right := hs.slot_right

/-- The block of the first variable is released. -/
theorem free {x : ℕ} (hs : h.Pair (some x) q a a') :
    ({ h with released := x :: h.released } : Allocations).Pair (some x) q .dangling a' where
  left := hs.left.free (hs.left.held x rfl)
  right := hs.right.free (hs.left.held x rfl)
  distinct := hs.distinct
  slot_left := slot_free_self
  slot_right := (slot_free_of_ne (hs.distinct x rfl)).trans hs.slot_right

end Pair

end Allocations

/-! ### Commands -/

/-- A command on a variable that holds a pointer. -/
inductive SlotCommand where
  /-- A block is asked for, and there is one or not. -/
  | alloc (found : Bool) : SlotCommand
  /-- The block is released, and the pointer is kept. -/
  | free : SlotCommand
  /-- The block is used. -/
  | use : SlotCommand
deriving DecidableEq, Repr

namespace Slot

/-- What a variable holds after a command. -/
def next : Slot → SlotCommand → Slot
  | _, .alloc found => if found then .live else .empty
  | .empty, _ => .empty
  | .live, .free => .dangling
  | s, _ => s

/-- **A command looks at the block**: allocating does if it frees what is held. -/
def Touches (frees : Bool) : SlotCommand → Prop
  | .alloc _ => frees = true
  | _ => True

instance decidableTouches (frees : Bool) : DecidablePred (Touches frees) := fun c => by
  cases c <;> unfold Touches <;> infer_instance

/-- **A command faults** if it looks at a released block. -/
def Faults (frees : Bool) (s : Slot) (c : SlotCommand) : Prop := s = .dangling ∧ Touches frees c

instance decidableFaults (frees : Bool) (s : Slot) (c : SlotCommand) :
    Decidable (Faults frees s c) := inferInstanceAs (Decidable (_ ∧ _))

/-- What a variable holds after some commands. -/
def after (s : Slot) (cs : List SlotCommand) : Slot := cs.foldl next s

/-- No command of a row faults. -/
def SafeFrom (frees : Bool) : Slot → List SlotCommand → Prop
  | _, [] => True
  | s, c :: cs => ¬ Faults frees s c ∧ SafeFrom frees (s.next c) cs

/-- **Something was allocated, and since then it was freed and nothing was allocated.** -/
def FreedSince (cs : List SlotCommand) : Prop :=
  ∃ a b, cs = a ++ .alloc true :: b ∧ (∀ found, .alloc found ∉ b) ∧ .free ∈ b

theorem safeFrom_iff {frees : Bool} {s : Slot} {cs : List SlotCommand} :
    SafeFrom frees s cs ↔
      ∀ pre c post, cs = pre ++ c :: post → ¬ Faults frees (s.after pre) c := by
  induction cs generalizing s with
  | nil => simp [SafeFrom]
  | cons d cs ih =>
    rw [SafeFrom, ih]
    constructor
    · rintro ⟨hfirst, hrest⟩ pre c post heq
      rcases pre with _ | ⟨e, pre⟩
      · obtain ⟨rfl, -⟩ := List.cons.inj heq
        exact hfirst
      · obtain ⟨rfl, hcs⟩ := List.cons.inj heq
        exact hrest pre c post hcs
    · intro hall
      refine ⟨hall [] d cs rfl, fun pre c post heq => ?_⟩
      exact hall (d :: pre) c post (congrArg (d :: ·) heq)

/-- Without an allocation, a variable comes to dangle only by a free of what it held. -/
theorem after_of_no_alloc {s : Slot} {b : List SlotCommand} (hb : ∀ found, .alloc found ∉ b) :
    s.after b = .dangling ↔ s = .dangling ∨ s = .live ∧ .free ∈ b := by
  induction b generalizing s with
  | nil => simp [after]
  | cons c b ih =>
    have htail : ∀ found, SlotCommand.alloc found ∉ b :=
      fun found hmem => hb found (List.mem_cons_of_mem _ hmem)
    have hstep : s.after (c :: b) = (s.next c).after b := rfl
    rw [hstep, ih htail]
    rcases c with found | _ | _
    · exact absurd (List.mem_cons_self ..) (hb found)
    · cases s <;> simp [next]
    · cases s <;> simp [next]

/-- Commands, at the last allocation among them. -/
theorem exists_last_alloc (cs : List SlotCommand) :
    (∀ found, .alloc found ∉ cs) ∨
      ∃ a found b, cs = a ++ .alloc found :: b ∧ ∀ found, .alloc found ∉ b := by
  induction cs with
  | nil => exact Or.inl fun _ => List.not_mem_nil
  | cons c cs ih =>
    rcases ih with hnone | ⟨a, found, b, rfl, hb⟩
    · rcases c with found | _ | _
      · exact Or.inr ⟨[], found, cs, rfl, hnone⟩
      · exact Or.inl fun found => by simpa using hnone found
      · exact Or.inl fun found => by simpa using hnone found
    · exact Or.inr ⟨c :: a, found, b, rfl, hb⟩

/-- What follows the last allocation is the same in every way of writing it. -/
theorem last_alloc_unique {a b a' b' : List SlotCommand} {found found' : Bool}
    (heq : a ++ .alloc found :: b = a' ++ .alloc found' :: b')
    (hb : ∀ found, .alloc found ∉ b) (hb' : ∀ found, .alloc found ∉ b') :
    found = found' ∧ b = b' := by
  rcases List.append_eq_append_iff.mp heq with ⟨m, rfl, hm⟩ | ⟨m, rfl, hm⟩
  · rcases m with _ | ⟨c, m⟩
    · obtain ⟨hfound, rfl⟩ := List.cons.inj hm
      exact ⟨SlotCommand.alloc.inj hfound, rfl⟩
    · obtain ⟨-, rfl⟩ := List.cons.inj hm
      exact absurd (List.mem_append_right m (List.mem_cons_self ..)) (hb found')
  · rcases m with _ | ⟨c, m⟩
    · obtain ⟨hfound, rfl⟩ := List.cons.inj hm
      exact ⟨(SlotCommand.alloc.inj hfound).symm, rfl⟩
    · obtain ⟨-, rfl⟩ := List.cons.inj hm
      exact absurd (List.mem_append_right m (List.mem_cons_self ..)) (hb' found)

/-- **A variable that was empty dangles where its block was freed since it was allocated.** -/
theorem after_empty_eq_dangling_iff (cs : List SlotCommand) :
    Slot.empty.after cs = .dangling ↔ FreedSince cs := by
  rcases exists_last_alloc cs with hnone | ⟨a, found, b, rfl, hb⟩
  · rw [after_of_no_alloc hnone]
    refine iff_of_false (by simp) ?_
    rintro ⟨a, b, rfl, -, -⟩
    exact hnone true (by simp)
  · have hsplit : Slot.empty.after (a ++ .alloc found :: b) =
        ((Slot.empty.after a).next (.alloc found)).after b := by
      simp [after]
    rw [hsplit, after_of_no_alloc hb]
    constructor
    · rintro (h | ⟨hlive, hfree⟩)
      · rcases found with _ | _ <;> simp [next] at h
      · obtain rfl : found = true := by
          rcases found with _ | _
          · simp [next] at hlive
          · rfl
        exact ⟨a, b, rfl, hb, hfree⟩
    · rintro ⟨a', b', heq, hb', hfree⟩
      obtain ⟨rfl, rfl⟩ := last_alloc_unique heq hb hb'
      exact Or.inr ⟨rfl, hfree⟩

/-- **When nothing faults**: no command looks at the block when it was freed since it was
allocated. -/
theorem safeFrom_empty_iff {frees : Bool} {cs : List SlotCommand} :
    SafeFrom frees .empty cs ↔
      ∀ pre c post, cs = pre ++ c :: post → Touches frees c → ¬ FreedSince pre := by
  rw [safeFrom_iff]
  refine forall_congr' fun pre => forall_congr' fun c => forall_congr' fun post =>
    forall_congr' fun _ => ?_
  rw [Faults, after_empty_eq_dangling_iff]
  exact ⟨fun h htouches hfreed => h ⟨hfreed, htouches⟩, fun h ⟨hfreed, htouches⟩ =>
    h htouches hfreed⟩

end Slot

end Apatchy
