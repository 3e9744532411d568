import Apatchy.Converters.HttpRequest

/-!
# The charset converter

`BuildCharsetRequest` writes a request whose body comes in two chunks, so that a
character that is cut in two straddles them: a primer of at most seven bytes, and a
driver that repeats a unit until it is long enough (`Apatchy.buildCharsetRequest`). The
body is read back by a decoder of chunked bodies (`Apatchy.Reader.chunked`), and what it
finds is worked out from the message (`Apatchy.buildCharsetRequest_chunks`).

The driver is bounded twice, by the number of repetitions that is asked for and by a
size, and the second is checked before each repetition: the unit is repeated as often as
it takes to reach the size, and no more than asked for
(`Apatchy.driverLoop_replicate`).
-/

namespace Apatchy

/-! ### Chunked bodies -/

namespace Reader

/-- The chunks of a body up to the last one, which is empty, and the lines of the trailer
after it; with a bound on their number. -/
def chunkedUpTo : ℕ → Reader (List (List UInt8) × List (List UInt8))
  | 0 => failure
  | n + 1 => do
    let sizeLine ← line
    let size ← ofOption (readNumeral 16 sizeLine)
    if size = 0 then do
      let trailer ← block
      return ([], trailer)
    else do
      let data ← bytes size
      let ending ← bytes 2
      if ending = crlf then do
        let (chunks, trailer) ← chunkedUpTo n
        return (data :: chunks, trailer)
      else failure

/-- **A chunked body**: its chunks, and the lines of its trailer. -/
def chunked : Reader (List (List UInt8) × List (List UInt8)) := fun bs =>
  (chunkedUpTo bs.length).run bs

end Reader

/-! ### The converter -/

/-- `Chunk`. -/
def chunk (data : List UInt8) : List UInt8 := numeral 16 data.length ++ crlf ++ data ++ crlf

/-- The enum `XlateTarget`. -/
inductive XlateTarget
  | jp | jp2 | kr | cn
deriving DecidableEq, Repr

/-- `TargetUri`. -/
def targetUri : XlateTarget → String
  | .jp2 => "/jp2"
  | .kr => "/kr"
  | .cn => "/cn"
  | .jp => "/jp"

/-- The message `CharsetBody`. -/
structure CharsetBody where
  /-- The location. -/
  target : Option XlateTarget := none
  /-- Whether the method is `PUT`. -/
  usePut : Option Bool := none
  /-- More headers. -/
  extraHeaders : List Header := []
  /-- The first chunk. -/
  primer : Option (List UInt8) := none
  /-- What the second chunk repeats. -/
  driver : Option (List UInt8) := none
  /-- How often. -/
  driverRepeat : Option UInt32 := none

/-- The escape byte. -/
def esc : List UInt8 := [0x1b]

/-- The loop that builds the driver, with the repetitions that are left. -/
def driverLoop (unit : List UInt8) : ℕ → List UInt8 → List UInt8
  | 0, driver => driver
  | n + 1, driver =>
    if driver.length < 8192 then driverLoop unit n (driver ++ unit) else driver

/-- **`BuildCharsetRequest`.** -/
def buildCharsetRequest (req : CharsetBody) : List UInt8 :=
  let method := if req.usePut.getD false then "PUT" else "POST"
  let uri := targetUri (req.target.getD .jp)
  let primer := req.primer.getD []
  let primer := if primer.length > 7 then primer.take 7 else primer
  let primer := if primer = [] then esc else primer
  let unit := req.driver.getD []
  let unit := if unit = [] then esc else unit
  let rep := req.driverRepeat.getD 256
  let rep := if rep = 0 then 1 else rep
  let driver := driverLoop unit rep.toNat []
  ascii method ++ ascii " " ++ ascii uri ++ ascii " HTTP/1.1\r\n" ++
    ascii "Host: localhost\r\n" ++ ascii "Transfer-Encoding: chunked\r\n" ++
    headerLines req.extraHeaders ++ crlf ++
    chunk primer ++ chunk driver ++ ascii "0\r\n\r\n"

/-! ### Reading chunks back -/

/-- A chunk that is not empty is read back. -/
theorem reads_chunk {data : List UInt8} (hdata : data ≠ []) {n : ℕ} {bs : List UInt8}
    {chunks trailer : List (List UInt8)}
    (h : Reader.Reads (Reader.chunkedUpTo n) bs (chunks, trailer)) :
    Reader.Reads (Reader.chunkedUpTo (n + 1)) (chunk data ++ bs) (data :: chunks, trailer) := by
  have hsize : readNumeral 16 (numeral 16 data.length) = some data.length :=
    readNumeral_numeral (by decide) (by decide) _
  have hcr : 13 ∉ numeral 16 data.length := not_mem_numeral (by decide) (by decide) _ rfl
  have hlength : data.length ≠ 0 := by simpa using hdata
  have hread : Reader.Reads (Reader.chunkedUpTo (n + 1)) ((numeral 16 data.length ++ crlf) ++
      ([] ++ (data ++ (crlf ++ (bs ++ []))))) (data :: chunks, trailer) := by
    refine (Reader.reads_line hcr).bind ?_
    rw [hsize]
    refine (Reader.reads_ofOption data.length).bind ?_
    rw [if_neg hlength]
    refine (Reader.reads_bytes data rfl).bind ((Reader.reads_bytes crlf rfl).bind ?_)
    rw [if_pos rfl]
    exact h.bind (Reader.Reads.pure _)
  simpa [chunk] using hread

/-- The last chunk ends the body. -/
theorem reads_lastChunk (n : ℕ) :
    Reader.Reads (Reader.chunkedUpTo (n + 1)) (ascii "0\r\n\r\n") ([], []) := by
  have hsize : readNumeral 16 (ascii "0") = some 0 := rfl
  have hread : Reader.Reads (Reader.chunkedUpTo (n + 1)) ((ascii "0" ++ crlf) ++
      ([] ++ (joinLines [] ++ crlf))) ([], []) := by
    refine (Reader.reads_line (by decide)).bind ?_
    rw [hsize]
    refine (Reader.reads_ofOption 0).bind ?_
    rw [if_pos rfl]
    exact (Reader.reads_block (by simp)).map
  exact hread

/-- **Two chunks are read back.** -/
theorem whole_chunked {a b : List UInt8} (ha : a ≠ []) (hb : b ≠ []) :
    Reader.whole Reader.chunked (chunk a ++ (chunk b ++ ascii "0\r\n\r\n")) =
      some ([a, b], []) := by
  have hread (n : ℕ) : Reader.Reads (Reader.chunkedUpTo (n + 3))
      (chunk a ++ (chunk b ++ ascii "0\r\n\r\n")) ([a, b], []) :=
    reads_chunk ha (reads_chunk hb (reads_lastChunk n))
  obtain ⟨n, hn⟩ : ∃ n, (chunk a ++ (chunk b ++ ascii "0\r\n\r\n")).length = n + 3 := by
    have hlast : (ascii "0\r\n\r\n").length = 5 := by decide
    exact ⟨(chunk a ++ (chunk b ++ ascii "0\r\n\r\n")).length - 3, by
      simp only [List.length_append, hlast]
      omega⟩
  refine Reader.whole_of_readsAll ?_
  change (Reader.chunkedUpTo (chunk a ++ (chunk b ++ ascii "0\r\n\r\n")).length).run _ = _
  rw [hn]
  exact (hread n).readsAll

/-! ### The driver -/

/-- How often a unit fits into the size bound, the last time in part. -/
def repetitions (unit : List UInt8) : ℕ := (8192 + unit.length - 1) / unit.length

theorem lt_repetitions_iff {unit : List UInt8} (hunit : unit ≠ []) (j : ℕ) :
    j < repetitions unit ↔ j * unit.length < 8192 := by
  have hpos : 0 < unit.length := List.length_pos_iff.mpr hunit
  rw [repetitions, ← Nat.succ_le_iff, Nat.le_div_iff_mul_le hpos, Nat.succ_mul]
  omega

/-- **The driver repeats its unit** as often as asked for, unless the size is reached
before. -/
theorem driverLoop_replicate {unit : List UInt8} (hunit : unit ≠ []) (n : ℕ) {j : ℕ}
    (hj : j ≤ repetitions unit) :
    driverLoop unit n (List.replicate j unit).flatten =
      (List.replicate (min (j + n) (repetitions unit)) unit).flatten := by
  induction n generalizing j with
  | zero => rw [driverLoop, Nat.add_zero, Nat.min_eq_left hj]
  | succ n ih =>
    have hlength : (List.replicate j unit).flatten.length = j * unit.length := by simp
    have hnext : (List.replicate j unit).flatten ++ unit =
        (List.replicate (j + 1) unit).flatten := by
      rw [List.replicate_succ', List.flatten_append]
      simp
    rw [driverLoop, hlength]
    by_cases hlt : j * unit.length < 8192
    · have hj' := (lt_repetitions_iff hunit j).mpr hlt
      have hcount : j.succ + n = j + (n + 1) := by omega
      rw [if_pos hlt, hnext, ih hj', hcount]
    · have hge : repetitions unit ≤ j := not_lt.mp fun h => hlt ((lt_repetitions_iff hunit j).mp h)
      rw [if_neg hlt, Nat.min_eq_right (by omega), le_antisymm hj hge]

/-! ### What the body holds -/

namespace CharsetBody

variable (req : CharsetBody)

/-- The primer that is sent: the first seven bytes, and an escape if there are none. -/
def sentPrimer : List UInt8 :=
  if (req.primer.getD []).take 7 = [] then esc else (req.primer.getD []).take 7

/-- The unit of the driver, and an escape if there is none. -/
def unit : List UInt8 := if req.driver.getD [] = [] then esc else req.driver.getD []

/-- How often the unit is asked for, once at least. -/
def wanted : ℕ := max (req.driverRepeat.getD 256).toNat 1

/-- The headers that are sent. -/
def sentHeaders : List Header :=
  [⟨ascii "Host", ascii "localhost"⟩, ⟨ascii "Transfer-Encoding", ascii "chunked"⟩] ++
    req.extraHeaders.filter (fun h => h.name ≠ [])

/-- The message that is sent: the body is two chunks and the last one. -/
def message : HttpMessage where
  start := requestLine (ascii (if req.usePut.getD false then "PUT" else "POST"))
    (ascii (targetUri (req.target.getD .jp))) (ascii "HTTP/1.1")
  headers := req.sentHeaders
  body := chunk req.sentPrimer ++ (chunk (List.replicate (min req.wanted (repetitions req.unit))
    req.unit).flatten ++ ascii "0\r\n\r\n")

/-- **A message with clean headers**: the names that are not empty are tokens, and the
values hold no CR and no LF. -/
structure Clean : Prop where
  /-- The names are tokens. -/
  names : ∀ h ∈ req.extraHeaders, h.name ≠ [] → IsToken h.name
  /-- The values hold no CR and no LF. -/
  values : ∀ h ∈ req.extraHeaders, 13 ∉ h.value ∧ 10 ∉ h.value

variable {req}

theorem unit_ne_nil : req.unit ≠ [] := by
  rw [unit]
  split_ifs with h
  · decide
  · exact h

theorem sentPrimer_ne_nil : req.sentPrimer ≠ [] := by
  rw [sentPrimer]
  split_ifs with h
  · decide
  · exact h

/-- **The builder writes the message.** -/
theorem buildCharsetRequest_eq : buildCharsetRequest req = req.message.bytes := by
  -- the branches of the source are a prefix and a maximum
  have hprimer : (if (req.primer.getD []).length > 7 then (req.primer.getD []).take 7
      else req.primer.getD []) = (req.primer.getD []).take 7 := by
    split_ifs with h
    · rfl
    · exact (List.take_of_length_le (by omega)).symm
  have hrep : (if req.driverRepeat.getD 256 = 0 then 1 else req.driverRepeat.getD 256).toNat =
      req.wanted := by
    rw [wanted]
    split_ifs with h
    · simp [h]
    · have hpos : (req.driverRepeat.getD 256).toNat ≠ 0 := fun h0 =>
        h (UInt32.toNat_inj.mp h0)
      omega
  -- the loop appends whole units, until the driver is long enough or it has run out
  have hunit : req.unit ≠ [] := unit_ne_nil
  have hdriver := driverLoop_replicate hunit req.wanted (Nat.zero_le _)
  rw [List.replicate_zero, List.flatten_nil, Nat.zero_add] at hdriver
  have hstart : ascii " " = [space] := by decide
  have hversion : ascii " HTTP/1.1\r\n" = [space] ++ ascii "HTTP/1.1" ++ crlf := by decide
  have hhost : ascii "Host: localhost\r\n" =
      headerLine ⟨ascii "Host", ascii "localhost"⟩ ++ crlf := by decide
  have hcoding : ascii "Transfer-Encoding: chunked\r\n" =
      headerLine ⟨ascii "Transfer-Encoding", ascii "chunked"⟩ ++ crlf := by decide
  simp only [buildCharsetRequest, hprimer, hrep]
  rw [← unit, ← sentPrimer, hdriver, hstart, hversion, hhost, hcoding, headerLines_eq]
  simp [message, HttpMessage.bytes, HttpMessage.lines, sentHeaders, requestLine]

theorem Clean.message (hreq : req.Clean) : req.message.Valid where
  start := by
    constructor
    · simp [CharsetBody.message, requestLine]
    · simp only [CharsetBody.message]
      cases req.usePut.getD false <;> cases req.target.getD .jp <;> decide
  headers := by
    intro h hh
    rcases List.mem_append.mp hh with hh | hh
    · simp only [List.mem_cons, List.not_mem_nil, or_false] at hh
      rcases hh with rfl | rfl <;> exact ⟨by decide, by decide, by decide, by decide⟩
    · obtain ⟨hmem, hname⟩ := List.mem_filter.mp hh
      exact HttpRequest.isLine_of_isToken (hreq.names h hmem (by simpa using hname))
        (hreq.values h hmem).1

end CharsetBody

/-- **De-chunk after chunk.** What comes after the first blank line of the request is a
chunked body, read to its end: the primer, which has one to seven bytes, and the driver,
which repeats its unit as often as asked for, or as often as it takes to reach 8192 bytes
if that is less. -/
theorem buildCharsetRequest_chunks (req : CharsetBody) (hreq : req.Clean) :
    ∃ m, HttpMessage.parse (buildCharsetRequest req) = some m ∧
      Reader.whole Reader.chunked m.body = some ([req.sentPrimer,
        (List.replicate (min req.wanted (repetitions req.unit)) req.unit).flatten], []) ∧
      1 ≤ req.sentPrimer.length ∧ req.sentPrimer.length ≤ 7 := by
  have hrepetitions : 0 < repetitions req.unit :=
    (lt_repetitions_iff CharsetBody.unit_ne_nil 0).mpr (by omega)
  have hwanted : 0 < req.wanted := by
    rw [CharsetBody.wanted]
    omega
  have hdriver :
      (List.replicate (min req.wanted (repetitions req.unit)) req.unit).flatten ≠ [] := by
    obtain ⟨k, hk⟩ : ∃ k, min req.wanted (repetitions req.unit) = k + 1 :=
      ⟨min req.wanted (repetitions req.unit) - 1, by omega⟩
    simp [hk, List.replicate_succ, CharsetBody.unit_ne_nil]
  refine ⟨req.message, ?_, whole_chunked CharsetBody.sentPrimer_ne_nil hdriver,
    List.length_pos_iff.mpr CharsetBody.sentPrimer_ne_nil, ?_⟩
  · rw [CharsetBody.buildCharsetRequest_eq]
    exact HttpMessage.parse_bytes hreq.message
  · rw [CharsetBody.sentPrimer]
    split_ifs
    · decide
    · exact List.length_take_le ..

/-- A primer that is cut, and a driver that looks like the end of the body. -/
theorem buildCharsetRequest_chunks_cut :
    CharsetBody.Clean { primer := some (List.replicate 9 65), driver := some (ascii "\r\n0\r\n") } ∧
    ∃ m, HttpMessage.parse (buildCharsetRequest
        { primer := some (List.replicate 9 65), driver := some (ascii "\r\n0\r\n") }) = some m ∧
      Reader.whole Reader.chunked m.body = some ([List.replicate 7 65,
        (List.replicate 256 (ascii "\r\n0\r\n")).flatten], []) := by
  have hclean : CharsetBody.Clean
      { primer := some (List.replicate 9 65), driver := some (ascii "\r\n0\r\n") } :=
    ⟨by simp, by simp⟩
  obtain ⟨m, hm, hchunks, -⟩ := buildCharsetRequest_chunks _ hclean
  exact ⟨hclean, m, hm, hchunks⟩

end Apatchy
