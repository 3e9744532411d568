import Mathlib.Data.List.Basic
import Mathlib.Data.Nat.Digits.Defs
import Mathlib.Tactic.IntervalCases

/-!
# Numerals

Numbers are written in ASCII digits of some base up to sixteen (`Apatchy.numeral`), as
`std::to_string` and the `%zx` of `printf` write them, and read back digit by digit
(`Apatchy.readNumeral`). The one fact about them is `Apatchy.readNumeral_numeral`.
-/

namespace Apatchy

/-- A digit, in lower case. -/
def digitByte (d : ℕ) : UInt8 := if d < 10 then UInt8.ofNat (48 + d) else UInt8.ofNat (87 + d)

/-- What a digit stands for, in either case. -/
def digitValue (c : UInt8) : Option ℕ :=
  if 48 ≤ c ∧ c ≤ 57 then some (c.toNat - 48)
  else if 97 ≤ c ∧ c ≤ 102 then some (c.toNat - 87)
  else if 65 ≤ c ∧ c ≤ 70 then some (c.toNat - 55)
  else none

/-- **The numeral of a number**, most significant digit first and without leading zeros. -/
def numeral (base n : ℕ) : List UInt8 :=
  if n = 0 then [48] else ((Nat.digits base n).map digitByte).reverse

/-- The number that some digits spell after others. -/
def readDigits (base : ℕ) : ℕ → List UInt8 → Option ℕ
  | acc, [] => some acc
  | acc, c :: cs =>
    match digitValue c with
    | some d => if d < base then readDigits base (base * acc + d) cs else none
    | none => none

/-- **The number that a numeral spells**: it has a digit at least. -/
def readNumeral (base : ℕ) : List UInt8 → Option ℕ
  | [] => none
  | c :: cs => readDigits base 0 (c :: cs)

theorem digitValue_digitByte {d : ℕ} (h : d < 16) : digitValue (digitByte d) = some d := by
  interval_cases d <;> rfl

theorem readDigits_append {base acc n : ℕ} {cs cs' : List UInt8}
    (h : readDigits base acc cs = some n) :
    readDigits base acc (cs ++ cs') = readDigits base n cs' := by
  induction cs generalizing acc with
  | nil =>
    obtain rfl : acc = n := Option.some.inj h
    rfl
  | cons c cs ih =>
    rw [List.cons_append, readDigits]
    rw [readDigits] at h
    split at h
    · split_ifs at h with hlt
      rw [if_pos hlt, ih h]
    · exact absurd h (by simp)

/-- Digits, least significant first, read back from the other end. -/
theorem readDigits_reverse {base : ℕ} (hbase : base ≤ 16) {ds : List ℕ} (h : ∀ d ∈ ds, d < base) :
    readDigits base 0 (ds.map digitByte).reverse = some (Nat.ofDigits base ds) := by
  induction ds with
  | nil => rfl
  | cons d ds ih =>
    have hd := h d (List.mem_cons_self ..)
    have hds := ih fun d hd => h d (List.mem_cons_of_mem _ hd)
    rw [List.map_cons, List.reverse_cons, readDigits_append hds, readDigits,
      digitValue_digitByte (by omega)]
    simp [hd, readDigits, Nat.ofDigits_cons, Nat.add_comm]

theorem numeral_ne_nil (base n : ℕ) : numeral base n ≠ [] := by
  rw [numeral]
  split_ifs with h
  · simp
  · simpa using Nat.digits_ne_nil_iff_ne_zero.mpr h

/-- **A numeral reads back as its number.** -/
theorem readNumeral_numeral {base : ℕ} (hbase : 1 < base) (hbase' : base ≤ 16) (n : ℕ) :
    readNumeral base (numeral base n) = some n := by
  have hread : readDigits base 0 (numeral base n) = some n := by
    rw [numeral]
    split_ifs with h
    · subst h
      have hzero : digitValue 48 = some 0 := rfl
      simp [readDigits, hzero, show 0 < base by omega]
    · have hdigits := readDigits_reverse hbase' fun d (hd : d ∈ Nat.digits base n) =>
        Nat.digits_lt_base hbase hd
      rw [hdigits, Nat.ofDigits_digits]
  rcases hn : numeral base n with _ | ⟨c, cs⟩
  · exact absurd hn (numeral_ne_nil base n)
  · rwa [hn] at hread

/-- The bytes of a numeral are digits. -/
theorem digitValue_of_mem_numeral {base : ℕ} (hbase : 1 < base) (hbase' : base ≤ 16) {n : ℕ}
    {c : UInt8} (hc : c ∈ numeral base n) : digitValue c ≠ none := by
  rw [numeral] at hc
  split_ifs at hc with h
  · rw [List.mem_singleton.mp hc]
    decide
  · obtain ⟨d, hd, rfl⟩ := List.mem_map.mp (List.mem_reverse.mp hc)
    have hlt := Nat.digits_lt_base hbase hd
    rw [digitValue_digitByte (by omega)]
    simp

/-- A byte that is no digit is not in a numeral. -/
theorem not_mem_numeral {base : ℕ} (hbase : 1 < base) (hbase' : base ≤ 16) (n : ℕ) {c : UInt8}
    (hc : digitValue c = none) : c ∉ numeral base n :=
  fun hmem => digitValue_of_mem_numeral hbase hbase' hmem hc

end Apatchy
