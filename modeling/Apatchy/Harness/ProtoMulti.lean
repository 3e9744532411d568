import Apatchy.Converters.HttpRequest
import Apatchy.Foundations.Streams
import Mathlib.Data.List.Find

/-!
# Several requests on one connection

`mod_fuzzy_proto_multi.cc` sends the requests of a message in one of two ways: each as the
input of a connection of its own, or, with `keep_alive`, one after the other as the input of a
single one (`Apatchy.protoMulti`). The second way is meant to send the same requests, and that
depends on where a server takes one to end.

A request is read from a stream by its `Content-Length` (`Apatchy.Reader.request`), and the
requests of a connection are read until its input ends (`Apatchy.Reader.connection`).
`Apatchy.protoMulti_serves_iff`: in either way, the requests that are read are the first
sixteen of the message exactly if each of them is *framed* (`Apatchy.HttpRequest.Framed`) – a
length that it brings itself is that of its body, and it brings no `Transfer-Encoding`.
`BuildHttpRequest` adds the right length to the others.
-/

namespace Apatchy

/-! ### The harness -/

/-- The message `MultiRequest`. -/
structure MultiRequest where
  /-- The requests. -/
  requests : List HttpRequest := []
  /-- Whether they share a connection. -/
  keepAlive : Option Bool := none

/-- `MAX_REQUESTS` of `mod_fuzzy_proto_multi.cc`. -/
def maxRequests : ℕ := 16

/-- **The harness**: what it passes to `fuzz_one_input`, call by call. -/
def protoMulti (multi : MultiRequest) : List (List UInt8) :=
  let count := multi.requests.length
  if count = 0 then []
  else
    let count := if count > maxRequests then maxRequests else count
    if multi.keepAlive.getD false then [(multi.requests.take count).flatMap buildHttpRequest]
    else (multi.requests.take count).map buildHttpRequest

/-- The requests that are sent. -/
def MultiRequest.sent (multi : MultiRequest) : List HttpRequest := multi.requests.take maxRequests

theorem protoMulti_eq (multi : MultiRequest) :
    protoMulti multi =
      if multi.sent = [] then []
      else if multi.keepAlive.getD false then [multi.sent.flatMap buildHttpRequest]
      else multi.sent.map buildHttpRequest := by
  have hcount : multi.requests.take (if multi.requests.length > maxRequests then maxRequests
      else multi.requests.length) = multi.sent := by
    split_ifs with hmany
    · rfl
    · rw [MultiRequest.sent, List.take_length, List.take_of_length_le (by omega)]
  have hnone : multi.requests.length = 0 ↔ multi.sent = [] := by
    simp [MultiRequest.sent, maxRequests]
  simp only [protoMulti, hnone, hcount]

/-! ### A server -/

/-- The length of the body that headers declare: none if they declare it in another way. -/
def declaredLength (headers : List Header) : Option ℕ :=
  if headers.any fun h => h.Named "transfer-encoding" then none
  else
    match headers.find? fun h => h.Named "content-length" with
    | none => some 0
    | some h => readNumeral 10 h.value

namespace Reader

/-- **A request**, with a body of the length that its headers declare. -/
def request : Reader ParsedRequest := do
  let start ← line
  let (method, uri, version) ← ofOption (parseRequestLine start)
  let lines ← block
  let headers ← ofOption (lines.mapM parseHeaderLine)
  let n ← ofOption (declaredLength headers)
  let body ← bytes n
  return { method, uri, version, headers, body }

/-- **The requests of a connection**, until its input ends. -/
def connection (bs : List UInt8) : Option (List ParsedRequest) := items request bs

theorem consumes_request : Consumes request := by
  refine consumes_line.bind fun _ => (keeps_ofOption _).bind ?_
  rintro ⟨method, uri, version⟩
  refine keeps_block.bind fun _ => (keeps_ofOption _).bind fun _ => ?_
  exact (keeps_ofOption _).bind fun n => (keeps_bytes n).bind fun _ => keeps_pure _

end Reader

/-- **The requests that are read** from what the harness sends, connection by connection. -/
def MultiRequest.served (multi : MultiRequest) : Option (List ParsedRequest) :=
  ((protoMulti multi).mapM Reader.connection).map List.flatten

/-! ### One request of a stream -/

theorem buildHttpRequest_ne_nil (req : HttpRequest) : buildHttpRequest req ≠ [] := by
  simp [buildHttpRequest, space]

/-- **A request is framed** if what it says of the length of its body is true. -/
structure HttpRequest.Framed (req : HttpRequest) : Prop where
  /-- It declares no other way to find the end. -/
  encoding : ∀ h ∈ req.headers, ¬ h.Named "transfer-encoding"
  /-- The length that it brings is that of its body. -/
  length : ∀ h ∈ req.headers.find? fun h => h.Named "content-length",
    readNumeral 10 h.value = some req.content.length

section Request

variable {req : HttpRequest}

/-- Headers without a name are called nothing. -/
theorem Header.Named.name_ne_nil {h : Header} {name : String} (hname : ascii name ≠ [])
    (hnamed : h.Named name) : h.name ≠ [] := by
  intro hnil
  rw [Header.Named, hnil] at hnamed
  exact hname hnamed.symm

/-- The headers that are sent, searched for one that is called in some way. -/
theorem find?_sentHeaders {name : String} (hname : ascii name ≠ [])
    (hhost : ¬ (⟨ascii "Host", ascii "localhost"⟩ : Header).Named name) :
    req.sentHeaders.find? (fun h => h.Named name) =
      (req.headers.find? fun h => h.Named name).or
        (req.lengthDefault.find? fun h => h.Named name) := by
  have hdefault : req.hostDefault.find? (fun h => h.Named name) = none := by
    rw [HttpRequest.hostDefault]
    split_ifs
    · rfl
    · simpa using hhost
  have hown : (req.headers.filter fun h => h.name ≠ []).find? (fun h => h.Named name) =
      req.headers.find? fun h => h.Named name := by
    rw [List.find?_filter]
    refine List.find?_congr fun h _ => ?_
    by_cases hnamed : h.Named name
    · simp [hnamed, hnamed.name_ne_nil hname]
    · simp [hnamed]
  rw [HttpRequest.sentHeaders, List.find?_append, List.find?_append, hown, hdefault,
    Option.or_none]

/-- The default for the length, searched for a header. -/
theorem find?_lengthDefault (name : String) :
    req.lengthDefault.find? (fun h => h.Named name) =
      if ascii "content-length" = ascii name then req.lengthDefault.head? else none := by
  have hnamed (value : List UInt8) : (⟨ascii "Content-Length", value⟩ : Header).Named name ↔
      ascii "content-length" = ascii name := by
    have hlower : (ascii "Content-Length").map smallLetter = ascii "content-length" := by decide
    rw [Header.Named, hlower]
  rw [HttpRequest.lengthDefault]
  split_ifs with hadd hname hname
  · simp [hnamed, hname]
  · simp [hnamed, hname]
  · rfl
  · rfl

/-- **The length that the headers declare is right exactly if the request is framed.** -/
theorem declaredLength_sentHeaders :
    declaredLength req.sentHeaders = some req.content.length ↔ req.Framed := by
  -- the headers added are no encodings
  have hencoding : (req.sentHeaders.any fun h => h.Named "transfer-encoding") = true ↔
      ∃ h ∈ req.headers, h.Named "transfer-encoding" := by
    rw [List.any_eq_true, ← List.find?_isSome, find?_sentHeaders (by decide) (by decide),
      find?_lengthDefault, if_neg (by decide), Option.or_none]
    simp
  rw [declaredLength]
  by_cases hany : ∃ h ∈ req.headers, h.Named "transfer-encoding"
  · rw [if_pos (hencoding.mpr hany)]
    refine iff_of_false (by simp) fun hframed => ?_
    obtain ⟨h, hh, hnamed⟩ := hany
    exact hframed.encoding h hh hnamed
  · have hplain : ∀ h ∈ req.headers, ¬ h.Named "transfer-encoding" :=
      fun h hh hnamed => hany ⟨h, hh, hnamed⟩
    rw [if_neg (hencoding.not.mpr hany), find?_sentHeaders (by decide) (by decide),
      find?_lengthDefault, if_pos rfl]
    rcases hown : req.headers.find? (fun h => h.Named "content-length") with _ | h
    · -- the length is the default, if there is a body
      refine iff_of_true ?_ ⟨hplain, by simp [hown]⟩
      have hno : ¬ ∃ h ∈ req.headers, h.Named "content-length" := by
        simpa using List.find?_eq_none.mp hown
      rw [hown, Option.none_or, HttpRequest.lengthDefault]
      by_cases hbody : req.content = []
      · simp [hbody]
      · rw [if_pos ⟨hbody, hno⟩, ← toDecimal_eq_decimal (by simpa using hbody)]
        exact readNumeral_numeral (by decide) (by decide) _
    · -- the length is that of the request itself
      rw [hown, Option.some_or]
      refine ⟨fun hvalue => ⟨hplain, fun h' hh' => ?_⟩, fun hframed => hframed.length h hown⟩
      rw [hown] at hh'
      exact Option.some.inj hh' ▸ hvalue

/-- **A request on a stream** is read with the length that its headers declare, whatever comes
after it. -/
theorem run_request (hreq : req.Clean) (rest : List UInt8) :
    Reader.request.run (buildHttpRequest req ++ rest) =
      (declaredLength req.sentHeaders).bind fun n =>
        ((Reader.bytes n).run (req.content ++ rest)).map fun p =>
          ({ req.parsed with body := p.1 }, p.2) := by
  have hvalid := hreq.toInLines.message
  have hbytes : buildHttpRequest req ++ rest = req.message.start ++ crlf ++
      (joinLines (req.sentHeaders.map headerLine) ++ crlf ++ (req.content ++ rest)) := by
    rw [HttpRequest.buildHttpRequest_eq hreq.names]
    simp [HttpMessage.bytes, HttpMessage.lines, HttpRequest.message]
  have hline : parseRequestLine req.message.start =
      some (req.parsed.method, req.parsed.uri, req.parsed.version) := by
    rw [HttpRequest.parsed, ← HttpRequest.ascii_toText, ← HttpRequest.absoluteUri_eq]
    exact parseRequestLine_requestLine (HttpRequest.toText_not_mem _ (.inr rfl))
      (HttpRequest.not_mem_absoluteUri (by decide) hreq.uri_space) _
  have hblock : Reader.Reads Reader.block (joinLines (req.sentHeaders.map headerLine) ++ crlf)
      (req.sentHeaders.map headerLine) :=
    Reader.reads_block fun l hl => hvalid.lines l (List.mem_cons_of_mem _ hl)
  have hheaders : (req.sentHeaders.map headerLine).mapM parseHeaderLine = some req.sentHeaders :=
    mapM_parseHeaderLine hvalid.headers
  -- the reader takes the request line, the block of headers and the body, one after the other
  rw [hbytes, Reader.request, (Reader.reads_line hvalid.start.cr).run_bind,
    Reader.run_ofOption_bind, hline, Option.bind_some, hblock.run_bind, Reader.run_ofOption_bind,
    hheaders, Option.bind_some, Reader.run_ofOption_bind]
  refine congrArg _ (funext fun n => ?_)
  rw [StateT.run_bind]
  rcases (Reader.bytes n).run (req.content ++ rest) with _ | ⟨body, rest'⟩
  · rfl
  · rfl

/-- **A request is read back from a stream exactly if it is framed**, and then the stream goes
on behind it. -/
theorem connection_eq_some_iff (hreq : req.Clean) {rest : List UInt8} {ps : List ParsedRequest} :
    Reader.connection (buildHttpRequest req ++ rest) = some (req.parsed :: ps) ↔
      req.Framed ∧ Reader.connection rest = some ps := by
  have hne : buildHttpRequest req ++ rest ≠ [] := by simp [buildHttpRequest_ne_nil]
  have hrun := run_request hreq rest
  rw [← declaredLength_sentHeaders]
  -- the reader takes as many bytes as the headers declare
  rcases hn : declaredLength req.sentHeaders with _ | n
  · rw [hn] at hrun
    rw [Reader.connection, Reader.items_eq_none_of_run hne hrun]
    simp
  · rw [hn, Option.bind_some] at hrun
    by_cases hfits : n ≤ (req.content ++ rest).length
    · have hbytes : (Reader.bytes n).run (req.content ++ rest) =
          some ((req.content ++ rest).take n, (req.content ++ rest).drop n) := by
        simp only [StateT.run, Reader.bytes, if_pos hfits]
      rw [hbytes, Option.map_some] at hrun
      rw [Reader.connection, Reader.items_eq_of_run Reader.consumes_request hrun]
      constructor
      · -- the body read is the one sent only if the length is right
        intro h
        obtain ⟨qs, hqs, hcons⟩ := Option.map_eq_some_iff.mp h
        obtain ⟨hparsed, rfl⟩ := List.cons.inj hcons
        have hbody : (req.content ++ rest).take n = req.content :=
          congrArg ParsedRequest.body hparsed
        have hlength := congrArg List.length hbody
        rw [List.length_take, Nat.min_eq_left hfits] at hlength
        rw [hlength, List.drop_left] at hqs
        exact ⟨congrArg some hlength, hqs⟩
      · rintro ⟨hlength, hps⟩
        rw [Option.some.inj hlength, List.take_left, List.drop_left]
        exact Option.map_eq_some_iff.mpr ⟨ps, hps, rfl⟩
    · -- more is declared than there is, even with what follows
      have hbytes : (Reader.bytes n).run (req.content ++ rest) = none := by
        simp only [StateT.run, Reader.bytes, if_neg hfits]
      rw [hbytes] at hrun
      rw [Reader.connection, Reader.items_eq_none_of_run hne hrun]
      refine iff_of_false (by simp) fun h => hfits ?_
      rw [Option.some.inj h.1]
      simp

end Request

/-! ### All requests -/

/-- The requests of one connection. -/
theorem connection_flatMap_iff {reqs : List HttpRequest} (hreqs : ∀ req ∈ reqs, req.Clean) :
    Reader.connection (reqs.flatMap buildHttpRequest) = some (reqs.map HttpRequest.parsed) ↔
      ∀ req ∈ reqs, req.Framed := by
  induction reqs with
  | nil => exact iff_of_true rfl (by simp)
  | cons req reqs ih =>
    obtain ⟨hreq, hrest⟩ := List.forall_mem_cons.mp hreqs
    rw [List.flatMap_cons, List.map_cons, connection_eq_some_iff hreq, ih hrest,
      List.forall_mem_cons]

/-- The requests of connections of their own. -/
theorem mapM_connection_iff {reqs : List HttpRequest} (hreqs : ∀ req ∈ reqs, req.Clean) :
    ((reqs.map buildHttpRequest).mapM Reader.connection).map List.flatten =
        some (reqs.map HttpRequest.parsed) ↔
      ∀ req ∈ reqs, req.Framed := by
  induction reqs with
  | nil => exact iff_of_true rfl (by simp)
  | cons req reqs ih =>
    obtain ⟨hreq, hrest⟩ := List.forall_mem_cons.mp hreqs
    have hfirst {ps : List ParsedRequest} :
        Reader.connection (buildHttpRequest req) = some (req.parsed :: ps) ↔
          req.Framed ∧ ps = [] := by
      have halone : Reader.connection (buildHttpRequest req ++ []) = some (req.parsed :: ps) ↔ _ :=
        connection_eq_some_iff hreq
      rw [List.append_nil] at halone
      rw [halone, Reader.connection, Reader.items_nil, Option.some.injEq, eq_comm (a := [])]
    rw [List.forall_mem_cons, ← ih hrest, List.map_cons, List.map_cons, List.mapM_cons]
    constructor
    · intro h
      obtain ⟨pss, hpss, hflat⟩ := Option.map_eq_some_iff.mp h
      obtain ⟨ps, hps, hpss⟩ := Option.bind_eq_some_iff.mp hpss
      obtain ⟨qss, hqss, hpss⟩ := Option.bind_eq_some_iff.mp hpss
      obtain rfl := Option.some.inj hpss
      rcases ps with _ | ⟨p, ps⟩
      · -- a connection with a request is not read as none
        exact absurd (Reader.eq_nil_of_items_eq_nil hps) (buildHttpRequest_ne_nil req)
      · obtain ⟨rfl, htail⟩ := List.cons.inj hflat
        obtain ⟨hframed, rfl⟩ := hfirst.mp hps
        exact ⟨hframed, Option.map_eq_some_iff.mpr ⟨qss, hqss, htail⟩⟩
    · rintro ⟨hframed, h⟩
      obtain ⟨qss, hqss, hflat⟩ := Option.map_eq_some_iff.mp h
      simp [hfirst.mpr ⟨hframed, rfl⟩, hqss, hflat]

/-- **Either way sends the same requests**: the requests that are read from what the harness
sends are the first sixteen of the message exactly if each of those is framed, whether they
share a connection or not. -/
theorem protoMulti_serves_iff (multi : MultiRequest) (hclean : ∀ req ∈ multi.sent, req.Clean) :
    multi.served = some (multi.sent.map HttpRequest.parsed) ↔
      ∀ req ∈ multi.sent, req.Framed := by
  rw [MultiRequest.served, protoMulti_eq]
  split_ifs with hnone hkeep
  · simp [hnone]
  · have hone (bs : List UInt8) :
        ([bs].mapM Reader.connection).map List.flatten = Reader.connection bs := by
      rw [List.mapM_cons, List.mapM_nil]
      rcases Reader.connection bs with _ | ps
      · rfl
      · exact congrArg some (List.append_nil ps)
    rw [hone]
    exact connection_flatMap_iff hclean
  · exact mapM_connection_iff hclean

/-- Two requests whose bodies look like the end of headers, on one connection. -/
theorem protoMulti_serves_two :
    MultiRequest.served ⟨[blankBody, blankBody], some true⟩ =
      some [blankBody.parsed, blankBody.parsed] := by
  have hsent : MultiRequest.sent ⟨[blankBody, blankBody], some true⟩ = [blankBody, blankBody] := rfl
  have hframed : blankBody.Framed := by
    have hnames : ∀ h ∈ blankBody.headers, ¬ h.Named "transfer-encoding" ∧
        ¬ h.Named "content-length" := by decide
    refine ⟨fun h hh => (hnames h hh).1, ?_⟩
    have hnone : blankBody.headers.find? (fun h => h.Named "content-length") = none :=
      List.find?_eq_none.mpr fun h hh => by simpa using (hnames h hh).2
    simp [hnone]
  refine (protoMulti_serves_iff ⟨[blankBody, blankBody], some true⟩ ?_).mpr ?_
  · simp [hsent, blankBody_clean]
  · simp [hsent, hframed]

end Apatchy
