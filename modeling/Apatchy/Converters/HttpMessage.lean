import Apatchy.Converters.Message
import Apatchy.Foundations.Lines

/-!
# HTTP messages

An HTTP message is a first line, headers and a body (`Apatchy.HttpMessage`). On the
wire it is its lines, a blank line and the body (`Apatchy.HttpMessage.bytes`), and it is
read back from there (`Apatchy.HttpMessage.parse`).

The converters that edit a message do so on the wire, by searching for the first blank
line. What the two edits do to the message is said here once: text inserted before the
blank line (`Apatchy.HttpMessage.insertAt_bytes`), and everything after it replaced
(`Apatchy.HttpMessage.take_bytes`).
-/

namespace Apatchy

/-- A colon. -/
def colon : UInt8 := 58

/-- A space. -/
def space : UInt8 := 32

/-- **An HTTP message.** -/
structure HttpMessage where
  /-- The first line. -/
  start : List UInt8
  /-- The headers. -/
  headers : List Header
  /-- The body. -/
  body : List UInt8
deriving DecidableEq

/-! ### Headers -/

/-- The line of a header. -/
def headerLine (h : Header) : List UInt8 := h.name ++ [colon, space] ++ h.value

/-- A header as a line spells it: the name up to the first colon, and the value after it
and a space. -/
def parseHeaderLine (line : List UInt8) : Option Header := do
  let (name, rest) ← (Reader.upTo [colon]).run line
  match rest with
  | [] => return { name, value := [] }
  | c :: value => return { name, value := if c = space then value else c :: value }

/-- **A header that is one line**: its name is not empty, and no colon, CR or LF is where
it would end something. -/
structure Header.IsLine (h : Header) : Prop where
  /-- The name is not empty. -/
  name_ne_nil : h.name ≠ []
  /-- No colon is in the name. -/
  colon : Apatchy.colon ∉ h.name
  /-- No CR is in the name. -/
  name_cr : 13 ∉ h.name
  /-- No CR is in the value. -/
  value_cr : 13 ∉ h.value

theorem isLine_headerLine {h : Header} (hh : h.IsLine) : IsLine (headerLine h) where
  ne_nil := by simp [headerLine]
  cr := by
    have hcolon : (13 : UInt8) ∉ [colon, space] := by decide
    simp only [headerLine, List.mem_append, not_or]
    exact ⟨⟨hh.name_cr, hcolon⟩, hh.value_cr⟩

/-- **A header reads back from its line.** -/
theorem parseHeaderLine_headerLine {h : Header} (hh : h.IsLine) :
    parseHeaderLine (headerLine h) = some h := by
  have hname : (Reader.upTo [colon]).run (h.name ++ [colon] ++ space :: h.value) =
      some (h.name, space :: h.value) := Reader.reads_upTo hh.colon _
  have hline : headerLine h = h.name ++ [colon] ++ space :: h.value := by simp [headerLine]
  rw [parseHeaderLine, hline, hname]
  simp

theorem mapM_parseHeaderLine {hs : List Header} (hhs : ∀ h ∈ hs, h.IsLine) :
    (hs.map headerLine).mapM parseHeaderLine = some hs := by
  induction hs with
  | nil => rfl
  | cons h hs ih =>
    have hfirst := parseHeaderLine_headerLine (hhs h (List.mem_cons_self ..))
    have hrest := ih fun h hh => hhs h (List.mem_cons_of_mem _ hh)
    simp [hfirst, hrest]

namespace HttpMessage

/-! ### On the wire, and back -/

/-- The lines before the blank line. -/
def lines (m : HttpMessage) : List (List UInt8) := m.start :: m.headers.map headerLine

/-- **A message on the wire.** -/
def bytes (m : HttpMessage) : List UInt8 := joinLines m.lines ++ crlf ++ m.body

/-- A message, read. -/
def reader : Reader HttpMessage := do
  let start ← Reader.line
  let lines ← Reader.block
  let headers ← Reader.ofOption (lines.mapM parseHeaderLine)
  let body ← Reader.remaining
  return { start, headers, body }

/-- **The message that some bytes spell.** -/
def parse (bs : List UInt8) : Option HttpMessage := Reader.whole reader bs

/-- **A message whose first line and headers are lines**; its body is any bytes. -/
structure Valid (m : HttpMessage) : Prop where
  /-- The first line is a line. -/
  start : IsLine m.start
  /-- So is each header. -/
  headers : ∀ h ∈ m.headers, h.IsLine

theorem Valid.lines {m : HttpMessage} (hm : m.Valid) : ∀ l ∈ m.lines, IsLine l := by
  intro l hl
  rcases List.mem_cons.mp hl with rfl | hl
  · exact hm.start
  · obtain ⟨h, hh, rfl⟩ := List.mem_map.mp hl
    exact isLine_headerLine (hm.headers h hh)

/-- **A message reads back from the wire.** -/
theorem parse_bytes {m : HttpMessage} (hm : m.Valid) : parse m.bytes = some m := by
  have hlines : ∀ l ∈ m.headers.map headerLine, IsLine l :=
    fun l hl => hm.lines l (List.mem_cons_of_mem _ hl)
  have hread : Reader.ReadsAll reader
      (m.start ++ crlf ++ (joinLines (m.headers.map headerLine) ++ crlf ++ m.body)) m := by
    refine (Reader.reads_line hm.start.cr).bindAll ?_
    refine (Reader.reads_block hlines).bindAll ?_
    rw [mapM_parseHeaderLine hm.headers, ← List.nil_append m.body]
    exact (Reader.reads_ofOption _).bindAll (Reader.readsAll_remaining _).map
  have hbytes : m.bytes =
      m.start ++ crlf ++ (joinLines (m.headers.map headerLine) ++ crlf ++ m.body) := by
    simp [bytes, lines]
  rw [parse, hbytes]
  exact Reader.whole_of_readsAll hread

/-! ### Edits at the first blank line -/

/-- A message with more headers and another body. -/
def extend (m : HttpMessage) (hs : List Header) (body : List UInt8) : HttpMessage where
  start := m.start
  headers := m.headers ++ hs
  body := body

theorem Valid.extend {m : HttpMessage} (hm : m.Valid) {hs : List Header}
    (hhs : ∀ h ∈ hs, h.IsLine) (body : List UInt8) : (m.extend hs body).Valid where
  start := hm.start
  headers := by
    intro h hh
    rcases List.mem_append.mp hh with hh | hh
    · exact hm.headers h hh
    · exact hhs h hh

/-- Where the blank line of a message is. -/
theorem find_bytes {m : HttpMessage} (hm : m.Valid) :
    ∃ i, find blankLine m.bytes = some i ∧ i + 2 = (joinLines m.lines).length := by
  have hfind := find_blankLine (by simp [lines]) hm.lines m.body
  obtain ⟨i, hi, hlength⟩ := Option.map_eq_some_iff.mp hfind
  exact ⟨i, hi, hlength⟩

/-- Text inserted before the blank line. -/
theorem insertAt_bytes (m : HttpMessage) (t : List UInt8) :
    insertAt (joinLines m.lines).length t m.bytes = joinLines m.lines ++ t ++ (crlf ++ m.body) := by
  rw [bytes, List.append_assoc, insertAt_append]

/-- Headers inserted before the blank line. -/
theorem insertAt_headers (m : HttpMessage) (hs : List Header) :
    insertAt (joinLines m.lines).length (joinLines (hs.map headerLine)) m.bytes =
      (m.extend hs m.body).bytes := by
  rw [insertAt_bytes]
  simp [bytes, lines, extend]

/-- What follows the blank line, replaced. -/
theorem take_bytes {m : HttpMessage} (hm : m.Valid) (body : List UInt8) {i : ℕ}
    (hi : find blankLine m.bytes = some i) :
    m.bytes.take (i + 4) ++ body = (m.extend [] body).bytes := by
  obtain ⟨j, hj, hlength⟩ := find_bytes hm
  obtain rfl : i = j := Option.some.inj (hi.symm.trans hj)
  have hfront : i + 4 = (joinLines m.lines ++ crlf).length := by
    simp only [List.length_append, crlf, List.length_cons, List.length_nil]
    omega
  rw [bytes, hfront, List.take_left]
  simp [bytes, lines, extend]

end HttpMessage

end Apatchy
