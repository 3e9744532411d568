import Apatchy.Converters.HttpRequest

/-!
# The multipart converter

`ApplyMultipart` gives a serialised request a multipart body
(`Apatchy.applyMultipart`): it inserts a `Content-Type` and a `Content-Length` before
the first blank line, and replaces what comes after the first blank line – which it
searches for again, after the insertion.

Two things decide whether the result is framed as it says
(`Apatchy.framedByLength_iff`). `BuildHttpRequest` has already given a request with a body
a `Content-Length`, which stays. And a boundary that is a line end is a blank line of
its own, so the search after the insertion stops there and the inserted
`Content-Length` is cut off with the old body.
-/

namespace Apatchy

/-! ### The converter -/

/-- The enum `MultipartBoundary`. -/
inductive MultipartBoundary
  | a | ab | x | dashes | word | fuzz | aaaa | quadDash | zero | crlf
deriving DecidableEq, Repr

/-- `boundary_strings`. -/
def MultipartBoundary.text : MultipartBoundary → String
  | .a => "a"
  | .ab => "ab"
  | .x => "x"
  | .dashes => "--"
  | .word => "boundary"
  | .fuzz => "fuzzboundary"
  | .aaaa => "AAAA"
  | .quadDash => "----"
  | .zero => "0"
  | .crlf => "\r\n"

/-- The enum `MultipartDisposition`. -/
inductive MultipartDisposition
  | formData | attachment | inline | empty | withFilename | minimal
deriving DecidableEq, Repr

/-- `disposition_strings`. -/
def MultipartDisposition.text : MultipartDisposition → String
  | .formData => "form-data"
  | .attachment => "attachment"
  | .inline => "inline"
  | .empty => ""
  | .withFilename => "form-data; name=\"test\"; filename=\"x.txt\""
  | .minimal => "form-data; name=\"a\""

/-- The message `MultipartPart`. -/
structure MultipartPart where
  /-- The disposition. -/
  disposition : Option MultipartDisposition := none
  /-- The name of the field. -/
  fieldName : Option (List UInt8) := none
  /-- The body of the part. -/
  body : Option (List UInt8) := none
  /-- Whether a boundary is put after the body. -/
  injectFakeBoundary : Option Bool := none
  /-- How many dashes are put before the boundary. -/
  extraDashes : Option UInt32 := none

/-- The message `MultipartRequest`. -/
structure MultipartRequest where
  /-- The request that is given a multipart body. -/
  http : HttpRequest
  /-- The boundary. -/
  boundary : MultipartBoundary
  /-- The parts. -/
  parts : List MultipartPart := []
  /-- `tight_spacing`. -/
  tightSpacing : Option Bool := none

/-- The name of the field of a part, as a parameter. -/
def nameParameter (part : MultipartPart) : List UInt8 :=
  if part.fieldName.isSome ∧ part.fieldName.getD [] ≠ [] then
    ascii "; name=\"" ++ part.fieldName.getD [] ++ ascii "\""
  else []

/-- The disposition of a part, as its header. -/
def dispositionLine (part : MultipartPart) : List UInt8 :=
  let disp := ascii (part.disposition.getD .formData).text
  if disp ≠ [] then
    ascii "Content-Disposition: " ++ disp ++ nameParameter part ++ crlf
  else []

/-- A part, as it is written. -/
def partBytes (mp : MultipartRequest) (part : MultipartPart) : List UInt8 :=
  let boundary := ascii mp.boundary.text
  ascii "--" ++ List.replicate (part.extraDashes.getD 0).toNat 45 ++ boundary ++ crlf ++
    dispositionLine part ++
    (if mp.tightSpacing.getD false then crlf else crlf) ++
    part.body.getD [] ++
    (if part.injectFakeBoundary.getD false then ascii "\r\n--" ++ boundary ++ crlf else []) ++
    crlf

/-- The body that `ApplyMultipart` builds. -/
def multipartBody (mp : MultipartRequest) : List UInt8 :=
  let boundary := ascii mp.boundary.text
  if mp.parts.length = 0 then
    ascii "--" ++ boundary ++ ascii "\r\n\r\n\r\n--" ++ boundary ++ ascii "--\r\n"
  else mp.parts.flatMap (partBytes mp) ++ ascii "--" ++ boundary ++ ascii "--\r\n"

/-- **`ApplyMultipart`.** -/
def applyMultipart (mp : MultipartRequest) (request : List UInt8) : List UInt8 :=
  let body := multipartBody mp
  let ctHeader :=
    ascii "Content-Type: multipart/form-data; boundary=" ++ ascii mp.boundary.text ++ crlf
  let clHeader := ascii "Content-Length: " ++ toDecimal body.length ++ crlf
  match find blankLine request with
  | none => request
  | some hend =>
    let request := insertAt (hend + 2) (ctHeader ++ clHeader) request
    -- the end of the headers is searched for again, now behind the new ones
    match find blankLine request with
    | none => request
    | some hend => request.take (hend + 4) ++ body

/-! ### What it does to a message -/

/-- The `Content-Type` that is inserted. -/
def multipartType (boundary : List UInt8) : Header :=
  ⟨ascii "Content-Type", ascii "multipart/form-data; boundary=" ++ boundary⟩

/-- The `Content-Length` that is inserted. -/
def multipartLength (mp : MultipartRequest) : Header :=
  ⟨ascii "Content-Length", toDecimal (multipartBody mp).length⟩

theorem multipartType_isLine {boundary : List UInt8} (h : 13 ∉ boundary) :
    (multipartType boundary).IsLine where
  name_ne_nil := by simp only [multipartType]; decide
  colon := by simp only [multipartType]; decide
  name_cr := by simp only [multipartType]; decide
  value_cr := by
    have htext : 13 ∉ ascii "multipart/form-data; boundary=" := by decide
    simp only [multipartType, List.mem_append, not_or]
    exact ⟨htext, h⟩

theorem multipartLength_isLine (mp : MultipartRequest) : (multipartLength mp).IsLine where
  name_ne_nil := by simp only [multipartLength]; decide
  colon := by simp only [multipartLength]; decide
  name_cr := by simp only [multipartLength]; decide
  value_cr := not_mem_numeral (by decide) (by decide) _ (by decide)

/-- With the two headers, a valid message stays one. -/
theorem extend_multipart_valid (mp : MultipartRequest) {m : HttpMessage} (hm : m.Valid)
    (hb : 13 ∉ ascii mp.boundary.text) (body : List UInt8) :
    (m.extend [multipartType (ascii mp.boundary.text), multipartLength mp] body).Valid := by
  refine hm.extend (fun h hh => ?_) _
  simp only [List.mem_cons, List.not_mem_nil, or_false] at hh
  rcases hh with rfl | rfl
  · exact multipartType_isLine hb
  · exact multipartLength_isLine mp

theorem extend_multipartType_valid {m : HttpMessage} (hm : m.Valid) (body : List UInt8) :
    (m.extend [multipartType []] body).Valid := by
  refine hm.extend (fun h hh => ?_) _
  rw [List.mem_singleton.mp hh]
  exact multipartType_isLine (by simp)

/-- **A boundary on one line**: the two headers are inserted, and the body is replaced. -/
theorem applyMultipart_bytes (mp : MultipartRequest) {m : HttpMessage} (hm : m.Valid)
    (hb : 13 ∉ ascii mp.boundary.text) :
    applyMultipart mp m.bytes = (m.extend [multipartType (ascii mp.boundary.text),
      multipartLength mp] (multipartBody mp)).bytes := by
  obtain ⟨i, hi, hlength⟩ := HttpMessage.find_bytes hm
  have htext : ascii "Content-Type: multipart/form-data; boundary=" =
      ascii "Content-Type" ++ [colon, space] ++ ascii "multipart/form-data; boundary=" := by
    decide
  have hfield : ascii "Content-Length: " = ascii "Content-Length" ++ [colon, space] := by decide
  have hheaders : ascii "Content-Type: multipart/form-data; boundary=" ++ ascii mp.boundary.text ++
      crlf ++ (ascii "Content-Length: " ++ toDecimal (multipartBody mp).length ++ crlf) =
      joinLines ([multipartType (ascii mp.boundary.text), multipartLength mp].map headerLine) := by
    rw [htext, hfield]
    simp [multipartType, multipartLength, headerLine]
  have hvalid := extend_multipart_valid mp hm hb m.body
  obtain ⟨j, hj, -⟩ := HttpMessage.find_bytes hvalid
  simp only [applyMultipart, hi, hlength, hheaders, HttpMessage.insertAt_headers, hj,
    HttpMessage.take_bytes hvalid _ hj]
  simp [HttpMessage.extend]

/-- **A boundary that is a line end**: the message ends its headers at the blank line that
the boundary makes, and what was inserted after it is replaced with the body. -/
theorem applyMultipart_bytes_crlf (mp : MultipartRequest) {m : HttpMessage} (hm : m.Valid)
    (hb : mp.boundary = .crlf) :
    applyMultipart mp m.bytes = (m.extend [multipartType []] (multipartBody mp)).bytes := by
  obtain ⟨i, hi, hlength⟩ := HttpMessage.find_bytes hm
  have htext : ascii "Content-Type: multipart/form-data; boundary=" ++ ascii mp.boundary.text ++
      crlf = headerLine (multipartType []) ++ crlf ++ crlf := by
    rw [hb]
    decide
  -- What was inserted after the blank line of the boundary counts as body.
  have hinsert (cl : List UInt8) : insertAt (joinLines m.lines).length
      (headerLine (multipartType []) ++ crlf ++ crlf ++ cl) m.bytes =
      (m.extend [multipartType []] (cl ++ crlf ++ m.body)).bytes := by
    rw [HttpMessage.insertAt_bytes]
    simp [HttpMessage.bytes, HttpMessage.lines, HttpMessage.extend]
  have hvalid := extend_multipartType_valid hm (ascii "Content-Length: " ++
    toDecimal (multipartBody mp).length ++ crlf ++ crlf ++ m.body)
  obtain ⟨j, hj, -⟩ := HttpMessage.find_bytes hvalid
  simp only [applyMultipart, hi, hlength, htext, hinsert, hj,
    HttpMessage.take_bytes hvalid _ hj]
  simp [HttpMessage.extend]

/-! ### Framing -/

/-- **A message is framed by its length**: it has one `Content-Length`, and that spells the
number of bytes after the first blank line. -/
def FramedByLength (bs : List UInt8) : Prop :=
  ∃ m, HttpMessage.parse bs = some m ∧
    ∃ h, m.headers.filter (fun h => h.Named "content-length") = [h] ∧
      readNumeral 10 h.value = some m.body.length

/-- The requests that bring neither a `Content-Length` nor a `Transfer-Encoding`. -/
structure MultipartRequest.Admissible (mp : MultipartRequest) : Prop where
  /-- The request comes in lines. -/
  inLines : mp.http.InLines
  /-- No header is named so. -/
  unframed : ∀ h ∈ mp.http.headers,
    ¬ h.Named "content-length" ∧ ¬ h.Named "transfer-encoding"

/-- The lengths among the headers of a request that brings none are the default. -/
theorem filter_sentHeaders {req : HttpRequest}
    (h : ∀ h ∈ req.headers, ¬ h.Named "content-length") :
    req.sentHeaders.filter (fun h => h.Named "content-length") =
      if req.content = [] then [] else
        [⟨ascii "Content-Length", toDecimal req.content.length⟩] := by
  -- only the default can be one
  have hbrought : (req.headers.filter (fun h => h.name ≠ [])).filter
      (fun h => h.Named "content-length") = [] := by
    rw [List.filter_eq_nil_iff]
    intro header hheader
    simpa using h header (List.mem_of_mem_filter hheader)
  have hhost : req.hostDefault.filter (fun h => h.Named "content-length") = [] := by
    rw [HttpRequest.hostDefault]
    split_ifs
    · rfl
    · decide
  have hnone : ¬ ∃ h ∈ req.headers, h.Named "content-length" := by
    rintro ⟨header, hheader, hname⟩
    exact h header hheader hname
  have hnamed (n : List UInt8) : Header.Named "content-length" ⟨ascii "Content-Length", n⟩ := by
    simp only [Header.Named]
    decide
  rw [HttpRequest.sentHeaders, List.filter_append, List.filter_append, hbrought, hhost,
    HttpRequest.lengthDefault]
  by_cases hbody : req.content = []
  · simp [hbody, hnone]
  · rw [toDecimal_eq_decimal (by simpa using hbody)]
    simp [hbody, hnone, hnamed]

theorem readNumeral_toDecimal (n : ℕ) : readNumeral 10 (toDecimal n) = some n :=
  readNumeral_numeral (by decide) (by decide) n

theorem toDecimal_inj {m n : ℕ} (h : readNumeral 10 (toDecimal m) = some n) : m = n := by
  rw [readNumeral_toDecimal] at h
  exact Option.some.inj h

/-! ### The size of the body -/

/-- The size of the disposition of a part. -/
def dispositionSize (part : MultipartPart) : ℕ :=
  let disp := (part.disposition.getD .formData).text
  if disp.length = 0 then 0
  else 23 + disp.length +
    (if part.fieldName.getD [] = [] then 0 else 9 + (part.fieldName.getD []).length)

/-- The size of a part, for a boundary of the given length. -/
def partSize (n : ℕ) (part : MultipartPart) : ℕ :=
  8 + (part.extraDashes.getD 0).toNat + n + dispositionSize part + (part.body.getD []).length +
    (if part.injectFakeBoundary.getD false then 6 + n else 0)

/-- **The size of a multipart body**, read off its parts. -/
def multipartSize (n : ℕ) (parts : List MultipartPart) : ℕ :=
  if parts = [] then 14 + 2 * n else (parts.map (partSize n)).sum + 6 + n

theorem length_ascii (s : String) : (ascii s).length = s.length := by
  simp [ascii, String.length_toList]

theorem length_nameParameter (part : MultipartPart) :
    (nameParameter part).length =
      if part.fieldName.getD [] = [] then 0 else 9 + (part.fieldName.getD []).length := by
  have hname : (ascii "; name=\"").length = 8 := by decide
  have hquote : (ascii "\"").length = 1 := by decide
  rw [nameParameter]
  rcases part.fieldName with _ | name
  · simp
  · by_cases hempty : name = []
    · simp [hempty]
    · simp [hempty, hname, hquote]
      omega

theorem length_dispositionLine (part : MultipartPart) :
    (dispositionLine part).length = dispositionSize part := by
  have hbegins : (ascii "Content-Disposition: ").length = 21 := by decide
  have hdisp : ascii (part.disposition.getD .formData).text = [] ↔
      (part.disposition.getD .formData).text.length = 0 := by
    rw [← List.length_eq_zero_iff, length_ascii]
  by_cases hzero : (part.disposition.getD .formData).text.length = 0
  · simp only [dispositionLine, dispositionSize, ne_eq, hdisp, hzero]
    simp
  · simp only [dispositionLine, dispositionSize, ne_eq, hdisp, hzero, if_false, if_true,
      not_false_eq_true, List.length_append, length_nameParameter, hbegins, length_ascii, crlf,
      List.length_cons, List.length_nil]
    omega

theorem length_partBytes (mp : MultipartRequest) (part : MultipartPart) :
    (partBytes mp part).length = partSize (ascii mp.boundary.text).length part := by
  have hdashes : (ascii "--").length = 2 := by decide
  have hfake : (ascii "\r\n--").length = 4 := by decide
  simp only [partBytes, partSize, ite_self, List.length_append, List.length_replicate,
    length_dispositionLine, hdashes]
  split_ifs <;> simp [hfake, crlf] <;> omega

/-- **The body has the size of its parts.** -/
theorem length_multipartBody (mp : MultipartRequest) :
    (multipartBody mp).length = multipartSize (ascii mp.boundary.text).length mp.parts := by
  have hdashes : (ascii "--").length = 2 := by decide
  have hopen : (ascii "\r\n\r\n\r\n--").length = 8 := by decide
  have hclose : (ascii "--\r\n").length = 4 := by decide
  simp only [multipartBody, multipartSize, List.length_eq_zero_iff]
  split_ifs
  · simp only [List.length_append, hdashes, hopen, hclose]
    omega
  · have hparts : (mp.parts.flatMap (partBytes mp)).length =
        (mp.parts.map (partSize (ascii mp.boundary.text).length)).sum := by
      simp only [List.length_flatMap, length_partBytes]
    simp only [List.length_append, hparts, hdashes, hclose]
    omega

/-! ### When the result is framed -/

/-- **When the converter frames its body**: the request has no body of its own, or the
boundary is a line end and the request has a body that is as long as the parts by
coincidence. -/
def MultipartRequest.Frames (mp : MultipartRequest) : Prop :=
  if mp.boundary = .crlf then
    mp.http.content ≠ [] ∧ mp.http.content.length = multipartSize 2 mp.parts
  else mp.http.content = []

theorem named_multipartLength (mp : MultipartRequest) :
    (multipartLength mp).Named "content-length" := by
  simp only [Header.Named, multipartLength]
  decide

theorem not_named_multipartType (boundary : List UInt8) :
    ¬ (multipartType boundary).Named "content-length" := by
  simp only [Header.Named, multipartType]
  decide

/-- A valid message is framed as its headers and its body say. -/
theorem framedByLength_bytes {m : HttpMessage} (hm : m.Valid) :
    FramedByLength m.bytes ↔ ∃ h, m.headers.filter (fun h => h.Named "content-length") = [h] ∧
      readNumeral 10 h.value = some m.body.length := by
  rw [FramedByLength, HttpMessage.parse_bytes hm]
  constructor
  · rintro ⟨m', hm', hframed⟩
    obtain rfl : m = m' := Option.some.inj hm'
    exact hframed
  · exact fun hframed => ⟨m, rfl, hframed⟩

/-- **The result is framed exactly if the request has no body of its own**, apart from the
boundary that is a line end. -/
theorem framedByLength_iff (mp : MultipartRequest) (h : mp.Admissible) :
    FramedByLength (applyMultipart mp (buildHttpRequest mp.http)) ↔ mp.Frames := by
  have hm := h.inLines.message
  have hsent := filter_sentHeaders fun header hheader => (h.unframed header hheader).1
  rw [HttpRequest.buildHttpRequest_eq h.inLines.names, MultipartRequest.Frames]
  have hheaders : mp.http.message.headers = mp.http.sentHeaders := rfl
  by_cases hb : mp.boundary = .crlf
  · have hvalid := extend_multipartType_valid hm (multipartBody mp)
    have hsize : (multipartBody mp).length = multipartSize 2 mp.parts := by
      rw [length_multipartBody, hb]
      rfl
    rw [if_pos hb, applyMultipart_bytes_crlf mp hm hb, framedByLength_bytes hvalid, ← hsize]
    -- The only length is that of the old body.
    have hinserted : [multipartType []].filter (fun h => h.Named "content-length") = [] := by
      simp [not_named_multipartType]
    simp only [HttpMessage.extend, List.filter_append, hheaders, hsent, hinserted]
    by_cases hbody : mp.http.content = []
    · simp [hbody]
    · simp only [hbody, if_false, List.append_nil, ne_eq, not_false_eq_true, true_and]
      constructor
      · rintro ⟨header, hheader, hvalue⟩
        rw [← (List.cons.inj hheader).1] at hvalue
        exact toDecimal_inj hvalue
      · intro hequal
        exact ⟨_, rfl, by rw [readNumeral_toDecimal, hequal]⟩
  · have hcr : 13 ∉ ascii mp.boundary.text := by
      cases hboundary : mp.boundary <;> first | exact absurd hboundary hb | decide
    have hvalid := extend_multipart_valid mp hm hcr (multipartBody mp)
    rw [if_neg hb, applyMultipart_bytes mp hm hcr, framedByLength_bytes hvalid]
    -- The length of the body comes after that of the old one, if there was one.
    have hinserted : [multipartType (ascii mp.boundary.text), multipartLength mp].filter
        (fun h => h.Named "content-length") = [multipartLength mp] := by
      simp [not_named_multipartType, named_multipartLength]
    simp only [HttpMessage.extend, List.filter_append, hheaders, hsent, hinserted]
    by_cases hbody : mp.http.content = []
    · simp only [hbody, if_true, List.nil_append, iff_true]
      exact ⟨_, rfl, readNumeral_toDecimal _⟩
    · simp [hbody]

/-- A request without a body, with two headers and two parts. -/
def uploaded : MultipartRequest where
  http :=
    { method := .post
      uri := ascii "upload"
      headers := [⟨ascii "Accept", ascii "*/*"⟩, ⟨ascii "X-Id", ascii "7"⟩] }
  boundary := .fuzz
  parts := [
    { fieldName := some (ascii "file")
      body := some (ascii "data")
      injectFakeBoundary := some true
      extraDashes := some 2 },
    { disposition := some .empty }]

theorem uploaded_admissible : uploaded.Admissible where
  inLines :=
    { names := by
        simp only [uploaded, List.forall_mem_cons, IsToken]
        decide +kernel
      values := by
        simp only [uploaded]
        decide +kernel
      uri := by
        simp only [uploaded]
        decide +kernel
      version := by simp [uploaded] }
  unframed := by
    simp only [uploaded]
    decide +kernel

/-- **A request without a body is framed** by the converter, also with headers and parts. -/
theorem framedByLength_uploaded :
    FramedByLength (applyMultipart uploaded (buildHttpRequest uploaded.http)) := by
  refine (framedByLength_iff uploaded uploaded_admissible).mpr ?_
  simp [MultipartRequest.Frames, uploaded, HttpRequest.content]

/-- A request with a body. -/
def posted (body : List UInt8) : MultipartRequest where
  http := { method := .post, uri := ascii "/upload", body := some body }
  boundary := .a

theorem posted_admissible (body : List UInt8) : (posted body).Admissible where
  inLines :=
    { names := by simp [posted]
      values := by simp [posted]
      uri := by simp only [posted]; decide
      version := by simp [posted] }
  unframed := by simp [posted]

/-- **A request with a body is not**: it keeps the length of the body that is replaced, and
gets another. -/
theorem not_framedByLength_posted :
    (posted (ascii "x")).Admissible ∧
    (HttpMessage.parse (applyMultipart (posted (ascii "x"))
      (buildHttpRequest (posted (ascii "x")).http))).map
        (fun m => m.headers.filter fun h => h.Named "content-length") =
      some [⟨ascii "Content-Length", ascii "1"⟩, ⟨ascii "Content-Length", ascii "16"⟩] ∧
    ¬ FramedByLength (applyMultipart (posted (ascii "x"))
      (buildHttpRequest (posted (ascii "x")).http)) := by
  have hparse : (HttpMessage.parse (applyMultipart (posted (ascii "x"))
      (buildHttpRequest (posted (ascii "x")).http))).map
        (fun m => m.headers.filter fun h => h.Named "content-length") =
      some [⟨ascii "Content-Length", ascii "1"⟩, ⟨ascii "Content-Length", ascii "16"⟩] := by
    decide +kernel
  refine ⟨posted_admissible _, hparse, ?_⟩
  rintro ⟨m, hm, header, hheader, -⟩
  rw [hm, Option.map_some, hheader] at hparse
  simp at hparse

end Apatchy
