import Apatchy.Foundations.Reader

/-!
# What the converters write with

The converters turn a protobuf message into the bytes that one of httpd's modules
reads. In the source a converter appends to a string; here it is the list of the
bytes it appends, and a `std::string` or a `bytes` field is a list of bytes. A
proto2 `optional` field is an `Option`, read with `Option.getD` at the default its
schema gives.

Every converter cuts its words into bytes with shifts and masks
(`Apatchy.octets16`, `Apatchy.octets24`, `Apatchy.octets32`). That this is the
big-endian order of `Apatchy.bigEndian` is proved once, and nothing after this
module looks at a shift again.
-/

namespace Apatchy

/-- A header of a request: the message `Header`. -/
structure Header where
  /-- The field name. -/
  name : List UInt8
  /-- The field value. -/
  value : List UInt8
deriving DecidableEq, Repr

/-- The bytes of a string literal of the source: ASCII, without the final NUL. -/
def ascii (s : String) : List UInt8 := s.toList.map fun c => UInt8.ofNat c.toNat

/-! ### Words cut into bytes -/

/-- The bytes of a 16-bit word. -/
def octets16 (v : UInt16) : List UInt8 :=
  [(v >>> 8 &&& 0xff).toUInt8, (v &&& 0xff).toUInt8]

/-- The low three bytes of a 32-bit word. -/
def octets24 (v : UInt32) : List UInt8 :=
  [(v >>> 16 &&& 0xff).toUInt8, (v >>> 8 &&& 0xff).toUInt8, (v &&& 0xff).toUInt8]

/-- The bytes of a 32-bit word, with the mask of the highest one: a word whose top
bit is reserved is written with the mask `0x7f`. -/
def octets32 (mask v : UInt32) : List UInt8 :=
  [(v >>> 24 &&& mask).toUInt8, (v >>> 16 &&& 0xff).toUInt8, (v >>> 8 &&& 0xff).toUInt8,
    (v &&& 0xff).toUInt8]

/-- Masking with `0xff` is reducing to a byte. -/
theorem and_0xff (n : ℕ) : n &&& 255 = n % 256 := Nat.and_two_pow_sub_one_eq_mod n 8

theorem and_0x7f (n : ℕ) : n &&& 127 = n % 128 := Nat.and_two_pow_sub_one_eq_mod n 7

theorem octets16_eq (v : UInt16) : octets16 v = bigEndian 2 v.toNat := by
  simp [octets16, bigEndian, ← UInt8.toNat_inj, Nat.shiftRight_eq_div_pow, and_0xff]

theorem octets24_eq (v : UInt32) : octets24 v = bigEndian 3 v.toNat := by
  simp [octets24, bigEndian, ← UInt8.toNat_inj, Nat.shiftRight_eq_div_pow, and_0xff]

theorem octets32_eq (v : UInt32) : octets32 0xff v = bigEndian 4 v.toNat := by
  simp [octets32, bigEndian, ← UInt8.toNat_inj, Nat.shiftRight_eq_div_pow, and_0xff]

/-- Masking the highest byte with `0x7f` clears the top bit of the word. -/
theorem octets32_reserved (v : UInt32) : octets32 0x7f v = bigEndian 4 (v.toNat % 2 ^ 31) := by
  simp [octets32, bigEndian, ← UInt8.toNat_inj, Nat.shiftRight_eq_div_pow, and_0xff, and_0x7f]
  omega

end Apatchy
