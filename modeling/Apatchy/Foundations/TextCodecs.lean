import Apatchy.Foundations.Numerals

/-!
# Bytes in text

Two ways of writing bytes with few letters, and of reading them back: base64
(`Apatchy.base64`, `Apatchy.ofBase64`), which takes three bytes at a time and fills up
the end with `=`, and percent-encoding (`Apatchy.percentEncode`,
`Apatchy.percentDecode`), which leaves some bytes as they are.

Both read back what they wrote (`Apatchy.ofBase64_base64`,
`Apatchy.percentDecode_percentEncode`), and for both it is known which bytes their text
holds (`Apatchy.isBase64_of_mem`, `Apatchy.of_mem_percentEncode`).
-/

namespace Apatchy

/-! ### Base64 -/

/-- The letter of a number below 64. -/
def sextet (n : ℕ) : UInt8 :=
  if n < 26 then UInt8.ofNat (65 + n)
  else if n < 52 then UInt8.ofNat (71 + n)
  else if n < 62 then UInt8.ofNat (n - 4)
  else if n = 62 then 43
  else 47

/-- What a letter stands for. -/
def sextetValue (c : UInt8) : Option ℕ :=
  if 65 ≤ c ∧ c ≤ 90 then some (c.toNat - 65)
  else if 97 ≤ c ∧ c ≤ 122 then some (c.toNat - 71)
  else if 48 ≤ c ∧ c ≤ 57 then some (c.toNat + 4)
  else if c = 43 then some 62
  else if c = 47 then some 63
  else none

/-- What fills up the end. -/
def pad : UInt8 := 61

/-- **Base64**, without line breaks. -/
def base64 : List UInt8 → List UInt8
  | [] => []
  | [a] =>
    let v := a.toNat * 16
    [sextet (v / 64), sextet (v % 64), pad, pad]
  | [a, b] =>
    let v := (a.toNat * 256 + b.toNat) * 4
    [sextet (v / 4096), sextet (v / 64 % 64), sextet (v % 64), pad]
  | a :: b :: c :: rest =>
    let v := (a.toNat * 256 + b.toNat) * 256 + c.toNat
    sextet (v / 262144) :: sextet (v / 4096 % 64) :: sextet (v / 64 % 64) :: sextet (v % 64) ::
      base64 rest

/-- The bytes that four letters stand for. -/
def ofQuad (a b c d : UInt8) : Option (List UInt8) := do
  let x ← sextetValue a
  let y ← sextetValue b
  if c = pad ∧ d = pad then
    if y % 16 = 0 then some [UInt8.ofNat ((x * 64 + y) / 16)] else none
  else do
    let z ← sextetValue c
    if d = pad then
      let v := (x * 64 + y) * 64 + z
      if z % 4 = 0 then some [UInt8.ofNat (v / 1024), UInt8.ofNat (v / 4)] else none
    else do
      let w ← sextetValue d
      let v := ((x * 64 + y) * 64 + z) * 64 + w
      some [UInt8.ofNat (v / 65536), UInt8.ofNat (v / 256), UInt8.ofNat v]

/-- **The bytes that base64 text stands for**: it comes in fours, and only the last of them
is filled up. -/
def ofBase64 : List UInt8 → Option (List UInt8)
  | [] => some []
  | a :: b :: c :: d :: rest => do
    let front ← ofQuad a b c d
    if d = pad ∧ rest ≠ [] then none else return front ++ (← ofBase64 rest)
  | _ => none

/-- Whether a byte may be in base64 text. -/
def isBase64 (c : UInt8) : Bool := (sextetValue c).isSome || c == pad

theorem sextetValue_sextet {n : ℕ} (h : n < 64) : sextetValue (sextet n) = some n := by
  interval_cases n <;> rfl

theorem sextet_ne_pad {n : ℕ} (h : n < 64) : sextet n ≠ pad := by
  intro hpad
  have hvalue := sextetValue_sextet h
  have hnone : sextetValue pad = none := rfl
  rw [hpad, hnone] at hvalue
  simp at hvalue

theorem ofQuad_one {x y : ℕ} (hx : x < 64) (hy : y < 64) (hrest : y % 16 = 0) :
    ofQuad (sextet x) (sextet y) pad pad = some [UInt8.ofNat ((x * 64 + y) / 16)] := by
  rw [ofQuad, sextetValue_sextet hx, sextetValue_sextet hy]
  simp [hrest]

theorem ofQuad_two {x y z : ℕ} (hx : x < 64) (hy : y < 64) (hz : z < 64) (hrest : z % 4 = 0) :
    ofQuad (sextet x) (sextet y) (sextet z) pad =
      some [UInt8.ofNat (((x * 64 + y) * 64 + z) / 1024),
        UInt8.ofNat (((x * 64 + y) * 64 + z) / 4)] := by
  rw [ofQuad, sextetValue_sextet hx, sextetValue_sextet hy, sextetValue_sextet hz]
  simp [sextet_ne_pad hz, hrest]

theorem ofQuad_three {x y z w : ℕ} (hx : x < 64) (hy : y < 64) (hz : z < 64) (hw : w < 64) :
    ofQuad (sextet x) (sextet y) (sextet z) (sextet w) =
      some [UInt8.ofNat ((((x * 64 + y) * 64 + z) * 64 + w) / 65536),
        UInt8.ofNat ((((x * 64 + y) * 64 + z) * 64 + w) / 256),
        UInt8.ofNat (((x * 64 + y) * 64 + z) * 64 + w)] := by
  rw [ofQuad, sextetValue_sextet hx, sextetValue_sextet hy, sextetValue_sextet hz,
    sextetValue_sextet hw]
  simp [sextet_ne_pad hz, sextet_ne_pad hw]

/-- A byte is what a number is below 256. -/
theorem ofNat_eq {n : ℕ} {a : UInt8} (h : n % 256 = a.toNat) : UInt8.ofNat n = a := by
  rw [← UInt8.toNat_inj, UInt8.toNat_ofNat', h]

/-- **Base64 text reads back as the bytes it was written from.** -/
theorem ofBase64_base64 (bs : List UInt8) : ofBase64 (base64 bs) = some bs := by
  induction bs using base64.induct with
  | case1 => rfl
  | case2 a =>
    have ha := a.toNat_lt
    have hfirst : UInt8.ofNat ((a.toNat * 16 / 64 * 64 + a.toNat * 16 % 64) / 16) = a :=
      ofNat_eq (by omega)
    rw [base64, ofBase64, ofQuad_one (by omega) (by omega) (by omega), hfirst]
    simp [ofBase64]
  | case3 a b =>
    have ha := a.toNat_lt
    have hb := b.toNat_lt
    rw [base64, ofBase64, ofQuad_two (by omega) (by omega) (by omega) (by omega),
      ofNat_eq (a := a) (by omega), ofNat_eq (a := b) (by omega)]
    simp [ofBase64]
  | case4 a b c rest ih =>
    have ha := a.toNat_lt
    have hb := b.toNat_lt
    have hc := c.toNat_lt
    have hlast : sextet (((a.toNat * 256 + b.toNat) * 256 + c.toNat) % 64) ≠ pad :=
      sextet_ne_pad (by omega)
    rw [base64, ofBase64, ofQuad_three (by omega) (by omega) (by omega) (by omega),
      ofNat_eq (a := a) (by omega), ofNat_eq (a := b) (by omega), ofNat_eq (a := c) (by omega)]
    simp [hlast, ih]

theorem isBase64_sextet {n : ℕ} (h : n < 64) : isBase64 (sextet n) := by
  simp [isBase64, sextetValue_sextet h]

/-- **Base64 text holds letters and what fills it up.** -/
theorem isBase64_of_mem {bs : List UInt8} {c : UInt8} (h : c ∈ base64 bs) : isBase64 c := by
  induction bs using base64.induct with
  | case1 => simp [base64] at h
  | case2 a =>
    have ha := a.toNat_lt
    simp only [base64, List.mem_cons, List.not_mem_nil, or_false] at h
    rcases h with rfl | rfl | rfl | rfl
    · exact isBase64_sextet (by omega)
    · exact isBase64_sextet (by omega)
    · rfl
    · rfl
  | case3 a b =>
    have ha := a.toNat_lt
    have hb := b.toNat_lt
    simp only [base64, List.mem_cons, List.not_mem_nil, or_false] at h
    rcases h with rfl | rfl | rfl | rfl
    · exact isBase64_sextet (by omega)
    · exact isBase64_sextet (by omega)
    · exact isBase64_sextet (by omega)
    · rfl
  | case4 a b c rest ih =>
    have ha := a.toNat_lt
    have hb := b.toNat_lt
    have hc := c.toNat_lt
    simp only [base64, List.mem_cons] at h
    rcases h with rfl | rfl | rfl | rfl | h
    · exact isBase64_sextet (by omega)
    · exact isBase64_sextet (by omega)
    · exact isBase64_sextet (by omega)
    · exact isBase64_sextet (by omega)
    · exact ih h

/-- The size of base64 text. -/
theorem length_base64 (bs : List UInt8) : (base64 bs).length = 4 * ((bs.length + 2) / 3) := by
  induction bs using base64.induct with
  | case1 => rfl
  | case2 a => simp [base64]
  | case3 a b => simp [base64]
  | case4 a b c rest ih =>
    simp only [base64, List.length_cons, ih]
    omega

/-! ### Percent-encoding -/

/-- A digit, in upper case. -/
def upperDigit (d : ℕ) : UInt8 := if d < 10 then UInt8.ofNat (48 + d) else UInt8.ofNat (55 + d)

/-- A percent sign. -/
def percent : UInt8 := 37

/-- **Percent-encoding**: a byte that is not left as it is becomes a percent sign and two
digits. -/
def percentEncode (keep : UInt8 → Bool) (bs : List UInt8) : List UInt8 :=
  bs.flatMap fun c =>
    if keep c then [c] else [percent, upperDigit (c.toNat / 16), upperDigit (c.toNat % 16)]

/-- **The bytes that percent-encoded text stands for.** -/
def percentDecode : List UInt8 → Option (List UInt8)
  | [] => some []
  | [a] => if a = percent then none else some [a]
  | [a, b] => if a = percent then none else (percentDecode [b]).map (a :: ·)
  | a :: b :: c :: rest =>
    if a = percent then do
      let high ← digitValue b
      let low ← digitValue c
      return UInt8.ofNat (16 * high + low) :: (← percentDecode rest)
    else (percentDecode (b :: c :: rest)).map (a :: ·)

theorem digitValue_upperDigit {d : ℕ} (h : d < 16) : digitValue (upperDigit d) = some d := by
  interval_cases d <;> rfl

theorem percentDecode_cons {a : UInt8} (h : a ≠ percent) (rest : List UInt8) :
    percentDecode (a :: rest) = (percentDecode rest).map (a :: ·) := by
  rcases rest with _ | ⟨b, _ | ⟨c, rest⟩⟩ <;> simp [percentDecode, h]

/-- **Percent-encoded text reads back as the bytes it was written from**, if the percent
sign is not left as it is. -/
theorem percentDecode_percentEncode {keep : UInt8 → Bool} (hkeep : keep percent = false)
    (bs : List UInt8) : percentDecode (percentEncode keep bs) = some bs := by
  induction bs with
  | nil => rfl
  | cons c bs ih =>
    have hc := c.toNat_lt
    rw [percentEncode, List.flatMap_cons]
    change percentDecode (_ ++ percentEncode keep bs) = _
    by_cases hkept : keep c
    · have hne : c ≠ percent := by
        rintro rfl
        simp [hkept] at hkeep
      rw [if_pos hkept, List.cons_append, List.nil_append, percentDecode_cons hne, ih]
      rfl
    · have hvalue : UInt8.ofNat (16 * (c.toNat / 16) + c.toNat % 16) = c := ofNat_eq (by omega)
      rw [if_neg hkept]
      simp only [List.cons_append, List.nil_append, percentDecode, if_true,
        digitValue_upperDigit (show c.toNat / 16 < 16 by omega),
        digitValue_upperDigit (show c.toNat % 16 < 16 by omega), ih, Option.bind_eq_bind,
        Option.bind_some, hvalue]
      rfl

/-- **Percent-encoded text holds kept bytes, percent signs and digits.** -/
theorem of_mem_percentEncode {keep : UInt8 → Bool} {bs : List UInt8} {c : UInt8}
    (h : c ∈ percentEncode keep bs) : keep c ∨ c = percent ∨ ∃ d < 16, c = upperDigit d := by
  obtain ⟨a, -, hmem⟩ := List.mem_flatMap.mp h
  have ha := a.toNat_lt
  by_cases hkept : keep a
  · rw [if_pos hkept, List.mem_singleton] at hmem
    exact .inl (hmem ▸ hkept)
  · rw [if_neg hkept] at hmem
    simp only [List.mem_cons, List.not_mem_nil, or_false] at hmem
    rcases hmem with rfl | rfl | rfl
    · exact .inr (.inl rfl)
    · exact .inr (.inr ⟨a.toNat / 16, by omega, rfl⟩)
    · exact .inr (.inr ⟨a.toNat % 16, by omega, rfl⟩)

end Apatchy
