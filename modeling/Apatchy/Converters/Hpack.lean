import Apatchy.Converters.Http2
import Mathlib.Algebra.Order.BigOperators.Group.List

/-!
# Header blocks

`WriteHpackHeaders` writes the headers of an HTTP/2 frame as HPACK literals: a zero byte,
and name and value with their lengths before them. A length is a 7-bit-prefix integer: up
to 126 it is one byte, and from 127 on that byte is 127 and more bytes follow
(`Apatchy.Hpack.stringLiteral`). The converter writes one byte whatever the length is, so
the block decodes to its headers exactly if none of them is that long
(`Apatchy.Hpack.decode_writeHpackHeaders_iff`).

That it does not decode otherwise is a matter of counting: the headers that should come
out take more bytes than were written.
-/

namespace Apatchy

namespace Hpack

open Reader

/-! ### The decoder -/

/-- The bytes of an integer after its prefix: seven bits each, least significant first, and
the top bit set on all but the last. -/
def integerTail : ℕ → Reader ℕ
  | _, [] => none
  | shift, b :: bs =>
    if b.toNat < 128 then some (b.toNat * 2 ^ shift, bs)
    else (integerTail (shift + 7) bs).map fun (n, rest) => ((b.toNat - 128) * 2 ^ shift + n, rest)

/-- A string literal without Huffman code: its length, a 7-bit-prefix integer, and its
bytes. -/
def stringLiteral : Reader (List UInt8)
  | [] => none
  | b :: bs =>
    if b.toNat < 127 then (bytes b.toNat).run bs
    else if b.toNat = 127 then do
      let (n, rest) ← integerTail 0 bs
      (bytes (127 + n)).run rest
    else none

/-- A literal header field without indexing, with a new name. -/
def literal : Reader Header := do
  let pattern ← bytes 1
  if pattern = [0x00] then do
    let name ← stringLiteral
    let value ← stringLiteral
    return { name, value }
  else failure

/-- **The headers of a block of literals.** -/
def decode (bs : List UInt8) : Option (List Header) := items literal bs

/-! ### Short headers -/

/-- A header with lengths of one byte. -/
def Short (h : Header) : Prop := h.name.length < 127 ∧ h.value.length < 127

theorem reads_stringLiteral {s : List UInt8} (h : s.length < 127) :
    Reads stringLiteral ([UInt8.ofNat (s.length &&& 0x7f)] ++ s) s := by
  intro rest
  have hlength : (UInt8.ofNat (s.length &&& 0x7f)).toNat = s.length := by
    rw [and_0x7f, UInt8.toNat_ofNat']
    omega
  have hread := reads_bytes s rfl rest
  simp only [StateT.run, List.cons_append, List.nil_append, stringLiteral, hlength, h, if_true]
  exact hread

/-- The literal of a short header reads back. -/
theorem reads_literal {h : Header} (hh : Short h) :
    Reads literal ([0x00, UInt8.ofNat (h.name.length &&& 0x7f)] ++ h.name ++
      [UInt8.ofNat (h.value.length &&& 0x7f)] ++ h.value) h := by
  have hread : Reads literal ([0x00] ++ ([UInt8.ofNat (h.name.length &&& 0x7f)] ++ h.name ++
      ([UInt8.ofNat (h.value.length &&& 0x7f)] ++ h.value))) h := by
    refine (reads_bytes [0x00] rfl).bind ?_
    rw [if_pos rfl]
    exact (reads_stringLiteral hh.1).bind (reads_stringLiteral hh.2).map
  simpa using hread

/-- **Short headers decode** to those that have a name. -/
theorem decode_of_short {headers : List Header}
    (h : ∀ hdr ∈ headers, hdr.name ≠ [] → Short hdr) :
    decode (writeHpackHeaders headers) = some (headers.filter fun hdr => hdr.name ≠ []) := by
  have hfilter : headers.filter (fun hdr => hdr.name ≠ []) =
      headers.filterMap fun hdr => if hdr.name ≠ [] then some hdr else none := by
    rw [← List.filterMap_eq_filter]
    exact List.filterMap_congr fun hdr _ => by by_cases hname : hdr.name = [] <;> simp [hname]
  rw [hfilter]
  refine items_flatMap _ _ fun hdr hmem => ?_
  by_cases hname : hdr.name = []
  · exact .inl ⟨by simp [hname], by simp [hname]⟩
  · refine .inr ⟨by simp [hname], hdr, by simp [hname], ?_⟩
    rw [if_neg (by simpa using hname)]
    exact reads_literal (h hdr hmem hname)

/-! ### Counting bytes -/

/-- The bytes that a string literal takes at least. -/
def stringSize (n : ℕ) : ℕ := n + if n < 127 then 1 else 2

/-- The bytes that a literal takes at least. -/
def literalSize (h : Header) : ℕ := 1 + stringSize h.name.length + stringSize h.value.length

theorem length_of_bytes {n : ℕ} {bs s rest : List UInt8}
    (h : (bytes n).run bs = some (s, rest)) : s.length = n ∧ n + rest.length = bs.length := by
  rw [StateT.run, bytes] at h
  split_ifs at h with hn
  obtain ⟨rfl, rfl⟩ := Prod.mk.inj (Option.some.inj h)
  rw [List.length_take, List.length_drop]
  omega

/-- An integer takes a byte after its prefix. -/
theorem length_of_integerTail {shift n : ℕ} {bs rest : List UInt8}
    (h : integerTail shift bs = some (n, rest)) : rest.length + 1 ≤ bs.length := by
  induction bs generalizing shift n with
  | nil => simp [integerTail] at h
  | cons b bs ih =>
    rw [integerTail] at h
    split_ifs at h with hb
    · obtain ⟨-, rfl⟩ := Prod.mk.inj (Option.some.inj h)
      simp
    · obtain ⟨⟨m, rest'⟩, htail, heq⟩ := Option.map_eq_some_iff.mp h
      obtain ⟨-, rfl⟩ := Prod.mk.inj heq
      have hlength := ih htail
      simp only [List.length_cons]
      omega

theorem size_of_stringLiteral {bs s rest : List UInt8}
    (h : stringLiteral.run bs = some (s, rest)) :
    stringSize s.length + rest.length ≤ bs.length := by
  rcases bs with _ | ⟨b, bs⟩
  · exact absurd h (by simp [StateT.run, stringLiteral])
  rw [StateT.run, stringLiteral] at h
  split_ifs at h with hshort hlong
  · obtain ⟨hs, hlength⟩ := length_of_bytes h
    simp only [stringSize, hs, hshort, if_true, List.length_cons]
    omega
  · obtain ⟨⟨n, rest'⟩, htail, h⟩ := Option.bind_eq_some_iff.mp h
    obtain ⟨hs, hlength⟩ := length_of_bytes h
    have hrest := length_of_integerTail htail
    simp only [stringSize, hs, List.length_cons]
    split_ifs <;> omega

/-- **A literal takes its size.** -/
theorem size_of_literal {bs : List UInt8} {h : Header} {rest : List UInt8}
    (hread : literal.run bs = some (h, rest)) : literalSize h + rest.length ≤ bs.length := by
  rw [literal, StateT.run_bind] at hread
  obtain ⟨⟨pattern, bs₁⟩, hpattern, hread⟩ := Option.bind_eq_some_iff.mp hread
  obtain ⟨-, hlength⟩ := length_of_bytes hpattern
  dsimp only at hread
  split_ifs at hread
  · rw [StateT.run_bind] at hread
    obtain ⟨⟨name, bs₂⟩, hname, hread⟩ := Option.bind_eq_some_iff.mp hread
    rw [StateT.run_bind] at hread
    obtain ⟨⟨value, bs₃⟩, hvalue, hread⟩ := Option.bind_eq_some_iff.mp hread
    obtain ⟨rfl, rfl⟩ := Prod.mk.inj (Option.some.inj hread)
    have hnameSize := size_of_stringLiteral hname
    have hvalueSize := size_of_stringLiteral hvalue
    simp only [literalSize] at hvalueSize ⊢
    omega
  · exact absurd hread (by simp [StateT.run, failure, StateT.failure])

/-- The bytes that are written for headers. -/
theorem length_writeHpackHeaders (headers : List Header) :
    (writeHpackHeaders headers).length =
      ((headers.filter fun hdr => hdr.name ≠ []).map
        fun hdr => 3 + hdr.name.length + hdr.value.length).sum := by
  induction headers with
  | nil => rfl
  | cons hdr headers ih =>
    rw [writeHpackHeaders, List.flatMap_cons, List.length_append]
    change _ + (writeHpackHeaders headers).length = _
    rw [ih]
    by_cases hname : hdr.name = []
    · simp [hname]
    · simp [hname]
      omega

/-- **A block decodes to its headers exactly if they are short.** -/
theorem decode_writeHpackHeaders_iff (headers : List Header) :
    decode (writeHpackHeaders headers) = some (headers.filter fun hdr => hdr.name ≠ []) ↔
      ∀ hdr ∈ headers, hdr.name ≠ [] → hdr.name.length < 127 ∧ hdr.value.length < 127 := by
  constructor
  · intro hdecode
    by_contra hlong
    simp only [not_forall] at hlong
    obtain ⟨hdr, hmem, hname, hlong⟩ := hlong
    have hsize := sum_size_le_of_items (fun _ _ _ => size_of_literal) hdecode
    rw [length_writeHpackHeaders] at hsize
    -- Every literal takes what was written for it, and a long one more.
    refine absurd hsize (not_le.mpr (List.sum_lt_sum _ _ (fun h _ => ?_) ⟨hdr, ?_, ?_⟩))
    · simp only [literalSize, stringSize]
      split_ifs <;> omega
    · simp [hmem, hname]
    · simp only [literalSize, stringSize]
      split_ifs <;> omega
  · exact decode_of_short

/-- **A value of 127 bytes is not read back**: its length is written as one byte that says
that more follow, and the first byte of the value is taken for one. -/
theorem decode_long :
    writeHpackHeaders [⟨ascii "x", List.replicate 127 97⟩] =
      [0, 1, 120, 127] ++ List.replicate 127 97 ∧
    decode (writeHpackHeaders [⟨ascii "x", List.replicate 127 97⟩]) = none := by
  decide +kernel

end Hpack

end Apatchy
