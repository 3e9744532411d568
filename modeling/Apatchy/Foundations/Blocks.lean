import Mathlib.Algebra.Group.Nat.Defs
import Mathlib.Data.List.Basic

/-!
# Blocks of memory

A block of memory is the list of what its cells hold. All writing is copying: the first
`count` cells of a source go into a block, from an offset on (`Apatchy.Copy`), and to store
one value is to copy one cell (`Apatchy.Copy.store`). A copy may say anything, but it means
something only if it stays in the block and in the source (`Apatchy.Copy.InBounds`); a program
that makes a copy has to show that.

A block that is filled from its front holds a list there: the list is a prefix of it. There
are two rules for that: a copy that begins where the front ends makes the front longer
(`Apatchy.Copy.isPrefix_result`), and a copy of all of the front to the beginning of another
block moves it (`Apatchy.Copy.isPrefix_moved`).

Sizes and offsets are unsigned numbers of 64 bits, whose arithmetic wraps around; the lemmas
of the last section say where it does not.
-/

namespace Apatchy

/-! ### Copies -/

/-- **A copy** of the first cells of a source into a block. -/
structure Copy (α : Type*) where
  /-- The block written to, as it is before. -/
  block : List α
  /-- Where the copy begins in it. -/
  offset : ℕ
  /-- The source. -/
  source : List α
  /-- How many cells are copied. -/
  count : ℕ
  deriving DecidableEq

namespace Copy

variable {α : Type*} (c : Copy α)

/-- **The copy stays in the block**, and the source has as many cells. -/
def InBounds : Prop := c.offset + c.count ≤ c.block.length ∧ c.count ≤ c.source.length

instance decidableInBounds : Decidable c.InBounds := inferInstanceAs (Decidable (_ ∧ _))

/-- The block after the copy. -/
def result : List α :=
  c.block.take c.offset ++ c.source.take c.count ++ c.block.drop (c.offset + c.count)

/-- One value is stored: `block[i] = x`. -/
def store (block : List α) (i : ℕ) (x : α) : Copy α where
  block := block
  offset := i
  source := [x]
  count := 1

variable {c}

theorem length_result (h : c.InBounds) : c.result.length = c.block.length := by
  obtain ⟨hblock, hsource⟩ := h
  simp only [result, List.length_append, List.length_take, List.length_drop]
  omega

/-- **A copy behind the front makes the front longer.** -/
theorem isPrefix_result {front : List α} (hfront : front <+: c.block)
    (hoffset : c.offset = front.length) : front ++ c.source.take c.count <+: c.result := by
  have htake : c.block.take c.offset = front := by
    rw [hoffset]
    exact (List.prefix_iff_eq_take.mp hfront).symm
  rw [result, htake]
  exact List.prefix_append ..

/-- **A copy of the front of another block** to the beginning holds it too. -/
theorem isPrefix_moved {front : List α} (hfront : front <+: c.source)
    (hcount : c.count = front.length) (hoffset : c.offset = 0) : front <+: c.result := by
  have htake : c.source.take c.count = front := by
    rw [hcount]
    exact (List.prefix_iff_eq_take.mp hfront).symm
  have hmoved : [] ++ c.source.take c.count <+: c.result :=
    isPrefix_result List.nil_prefix hoffset
  rwa [List.nil_append, htake] at hmoved

theorem inBounds_store {block : List α} {i : ℕ} {x : α} :
    (store block i x).InBounds ↔ i < block.length := by
  simp only [InBounds, store, List.length_singleton]
  omega

theorem isPrefix_store {front block : List α} (hfront : front <+: block) {i : ℕ}
    (hi : i = front.length) (x : α) : front ++ [x] <+: (store block i x).result :=
  isPrefix_result (c := store block i x) hfront hi

end Copy

/-! ### Sizes -/

/-- A sum that fits does not wrap around. -/
theorem toNat_add_of_fits {a b : UInt64} (h : a.toNat + b.toNat < 2 ^ 64) :
    (a + b).toNat = a.toNat + b.toNat := by
  rw [UInt64.toNat_add, Nat.mod_eq_of_lt h]

/-- A double that fits does not wrap around. -/
theorem toNat_double_of_fits {a : UInt64} (h : 2 * a.toNat < 2 ^ 64) :
    (a * 2).toNat = 2 * a.toNat := by
  have htwo : (2 : UInt64).toNat = 2 := rfl
  rw [UInt64.toNat_mul, htwo, Nat.mul_comm, Nat.mod_eq_of_lt h]

/-- What is less than a number has a successor. -/
theorem toNat_succ_of_lt {a b : UInt64} (h : a < b) : (a + 1).toNat = a.toNat + 1 := by
  have hlt : a.toNat < b.toNat := UInt64.lt_iff_toNat_lt.mp h
  have hb : b.toNat < 2 ^ 64 := b.toNat_lt
  exact toNat_add_of_fits (by rw [UInt64.toNat_one]; omega)

end Apatchy
