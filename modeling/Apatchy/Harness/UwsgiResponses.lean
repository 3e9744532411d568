import Apatchy.Converters.HttpRequest
import Apatchy.Harness.Backend

/-!
# The response of a uwsgi backend

The harness of `mod_proxy_uwsgi` writes the response of a message as text
(`Apatchy.buildUwsgiResponse`), or a short one if the message has none
(`Apatchy.uwsgiBackend`), and places it for the fuzzed backend. On the other side the proxy
reads it line by line and byte by byte, in pieces of its own choice.

`Apatchy.uwsgiBackend_read` is about both ends: over every sequence of connections and of line
and byte reads, one connection is answered or none, and where its end is reported – at most two
calls later than the response has bytes – what was read from it is the response of the message:
the same version, code, headers and body (`Apatchy.UwsgiResponse.parsed`).
-/

namespace Apatchy

/-! ### The message -/

/-- The enum `ResponseCode`. -/
inductive ResponseCode
  | ok200 | redirect301 | redirect302 | clientError400 | serverError500
deriving DecidableEq, Repr

/-- `StatusFromCode`. -/
def ResponseCode.status : ResponseCode → String
  | .ok200 => "200 OK"
  | .redirect301 => "301 Moved Permanently"
  | .redirect302 => "302 Found"
  | .clientError400 => "400 Bad Request"
  | .serverError500 => "500 Internal Server Error"

/-- The message `UwsgiResponse`. -/
structure UwsgiResponse where
  /-- The code. -/
  rc : ResponseCode
  /-- The version, if it is set. -/
  httpVersion : Option (List UInt8) := none
  /-- The headers. -/
  headers : List Header := []
  /-- The body, if it is set. -/
  body : Option (List UInt8) := none

/-- **`BuildUwsgiResponse`.** -/
def buildUwsgiResponse (resp : UwsgiResponse) : List UInt8 :=
  resp.httpVersion.getD (ascii "HTTP/1.1") ++ [space] ++ ascii resp.rc.status ++ crlf ++
    (resp.headers.flatMap fun h => h.name ++ ascii ": " ++ h.value ++ crlf) ++ crlf ++
    (match resp.body with
      | none => []
      | some body => body)

/-- The response that the harness places for a message. -/
def uwsgiBackend (resp : Option UwsgiResponse) : List UInt8 :=
  match resp with
  | some resp => buildUwsgiResponse resp
  | none => ascii "HTTP/1.1 200 OK\r\n\r\n"

/-! ### Responses, read -/

/-- A response, as its reader sees it. -/
structure ParsedResponse where
  /-- The version. -/
  version : List UInt8
  /-- The code and the reason. -/
  status : List UInt8
  /-- The headers. -/
  headers : List Header
  /-- The body. -/
  body : List UInt8
deriving DecidableEq

/-- The version and the status in the line of a response. -/
def parseStatusLine (line : List UInt8) : Option (List UInt8 × List UInt8) :=
  Reader.whole (do
    let version ← Reader.upTo [space]
    let status ← Reader.remaining
    return (version, status)) line

/-- **The response that some bytes spell.** -/
def parseResponse (bs : List UInt8) : Option ParsedResponse := do
  let m ← HttpMessage.parse bs
  let (version, status) ← parseStatusLine m.start
  return { version, status, headers := m.headers, body := m.body }

/-- The number that a code has in its name. -/
def ResponseCode.number : ResponseCode → ℕ
  | .ok200 => 200
  | .redirect301 => 301
  | .redirect302 => 302
  | .clientError400 => 400
  | .serverError500 => 500

/-- The phrase that HTTP has for a number. -/
def reasonPhrase (number : ℕ) : String :=
  if number = 200 then "OK"
  else if number = 301 then "Moved Permanently"
  else if number = 302 then "Found"
  else if number = 400 then "Bad Request"
  else if number = 500 then "Internal Server Error"
  else ""

namespace UwsgiResponse

variable (resp : UwsgiResponse)

/-- The version, or the default. -/
def version : List UInt8 := resp.httpVersion.getD (ascii "HTTP/1.1")

/-- The response that is asked for, as its reader should see it. -/
def parsed : ParsedResponse where
  version := resp.version
  status := decimal resp.rc.number ++ [space] ++ ascii (reasonPhrase resp.rc.number)
  headers := resp.headers
  body := resp.body.getD []

/-- **A response without ambiguity**: each header is one line, and the version has no blank and
no CR. -/
structure Clean : Prop where
  /-- The headers are lines. -/
  headers : ∀ h ∈ resp.headers, h.IsLine
  /-- The version has no CR and no blank. -/
  version : ∀ v, resp.httpVersion = some v → 13 ∉ v ∧ space ∉ v

/-- The message that is written. -/
def message : HttpMessage where
  start := resp.version ++ [space] ++ ascii resp.rc.status
  headers := resp.headers
  body := resp.body.getD []

end UwsgiResponse

section Response

variable {resp : UwsgiResponse}

theorem buildUwsgiResponse_eq (resp : UwsgiResponse) :
    buildUwsgiResponse resp = resp.message.bytes := by
  have hfield : ascii ": " = [colon, space] := by decide
  have hlines : (resp.headers.flatMap fun h => h.name ++ ascii ": " ++ h.value ++ crlf) =
      joinLines (resp.headers.map headerLine) := by
    simp [joinLines, List.flatMap_map, headerLine, hfield]
  have hbody : (match resp.body with
      | none => []
      | some body => body) = resp.body.getD [] := by
    rcases resp.body with _ | body
    · rfl
    · rfl
  rw [buildUwsgiResponse, hlines, hbody]
  simp [HttpMessage.bytes, HttpMessage.lines, UwsgiResponse.message, UwsgiResponse.version]

theorem UwsgiResponse.Clean.version_not_mem (hresp : resp.Clean) :
    13 ∉ resp.version ∧ space ∉ resp.version := by
  rw [UwsgiResponse.version]
  rcases hv : resp.httpVersion with _ | v
  · decide
  · exact hresp.version v hv

theorem UwsgiResponse.Clean.message (hresp : resp.Clean) : resp.message.Valid where
  start := by
    have hstatus : 13 ∉ ascii resp.rc.status := by cases resp.rc <;> decide
    refine ⟨by simp [UwsgiResponse.message], ?_⟩
    simp only [UwsgiResponse.message, List.mem_append, not_or]
    exact ⟨⟨hresp.version_not_mem.1, by decide⟩, hstatus⟩
  headers := hresp.headers

/-- **A response reads back as it was asked for.** -/
theorem parse_buildUwsgiResponse (hresp : resp.Clean) :
    parseResponse (buildUwsgiResponse resp) = some resp.parsed := by
  have hline : parseStatusLine resp.message.start =
      some (resp.version, ascii resp.rc.status) := by
    refine Reader.whole_of_readsAll ((Reader.reads_upTo hresp.version_not_mem.2).bindAll ?_)
    exact (Reader.readsAll_remaining _).map
  have hstatus : decimal resp.rc.number ++ [space] ++ ascii (reasonPhrase resp.rc.number) =
      ascii resp.rc.status := by cases resp.rc <;> decide
  rw [parseResponse, buildUwsgiResponse_eq, HttpMessage.parse_bytes hresp.message]
  simp only [Option.bind_eq_bind, Option.bind_some, hline, UwsgiResponse.parsed, hstatus]
  rfl

end Response

/-- The response that is read for a message. -/
def expectedResponse (resp : Option UwsgiResponse) : ParsedResponse :=
  match resp with
  | some resp => resp.parsed
  | none => { version := ascii "HTTP/1.1", status := ascii "200 OK", headers := [], body := [] }

theorem parse_uwsgiBackend {resp : Option UwsgiResponse} (hresp : ∀ r ∈ resp, r.Clean) :
    parseResponse (uwsgiBackend resp) = some (expectedResponse resp) := by
  rcases resp with _ | resp
  · -- the short response is that of an empty message
    have hshort : uwsgiBackend none = buildUwsgiResponse { rc := .ok200 } := by decide
    rw [hshort]
    exact parse_buildUwsgiResponse ⟨by simp, by simp⟩
  · exact parse_buildUwsgiResponse (hresp resp rfl)

theorem uwsgiBackend_ne_nil (resp : Option UwsgiResponse) : uwsgiBackend resp ≠ [] := by
  rcases resp with _ | resp
  · decide
  · simp [uwsgiBackend, buildUwsgiResponse]

/-! ### Both ends -/

/-- **A message is answered once**: on one connection, whose reads load the response that was
written for it and get it in at most two calls more than it has bytes; and where the end of that
one is reported, the bytes spell the response that is asked for. -/
structure AnsweredOnce (resp : Option UwsgiResponse) (k₀ : ℕ) (tr : List BackendEntry) :
    Prop extends DeliveredOnce (uwsgiBackend resp) k₀ tr where
  /-- A read of the connection loads the response. -/
  loads : ∃ e ∈ tr, Loads k₀ e
  /-- Once the end is reported, what was delivered reads as the response. -/
  reads : (∃ e ∈ tr, ∃ r ∈ replyOn k₀ e, r.status = .eof) →
    parseResponse (deliveredOn k₀ tr) = some (expectedResponse resp)

/-- **What the proxy reads is what the message asks for**: whichever connections are made and
read, by lines or by bytes, nothing is answered, or one connection gets the response and the
others nothing. -/
theorem uwsgiBackend_read {apr : Apr} (hapr : apr.TakesFront) {resp : Option UwsgiResponse}
    (hresp : ∀ r ∈ resp, r.Clean) {events : List BackendEvent} (hreads : ∀ i ∈ events, i.Reads) :
    (∀ e ∈ (fuzzBackend apr).trace (placedResponse true (uwsgiBackend resp)) events,
        e.answer = none) ∨
      ∃ k₀, AnsweredOnce resp k₀
        ((fuzzBackend apr).trace (placedResponse true (uwsgiBackend resp)) events) := by
  rcases run_of_waiting hapr (uwsgiBackend_ne_nil resp) hreads (waiting_placedResponse _ _) with
    hnone | ⟨k₀, hloads, bb', hout⟩
  · exact Or.inl hnone
  · have honce := hout.deliveredOnce
    refine Or.inr ⟨k₀, honce, hloads, fun hend => ?_⟩
    rw [honce.whole hend]
    exact parse_uwsgiBackend hresp

/-- A redirection with a header and a body. -/
def movedAway : UwsgiResponse where
  rc := .redirect302
  headers := [⟨ascii "Location", ascii "/b"⟩]
  body := some [66]

theorem movedAway_clean : movedAway.Clean where
  headers := by
    intro h hh
    rw [List.mem_singleton.mp hh]
    exact ⟨by decide, by decide, by decide, by decide⟩
  version := by simp [movedAway]

/-- Two connections, of which the second is read line by line. -/
def readSecond : List BackendEvent :=
  .connect ⟨[]⟩ :: .connect ⟨[]⟩ :: List.replicate 6 (.read 1 ⟨.getline, .blockRead, 0⟩)

/-- The second connection gets the redirection. -/
theorem uwsgiBackend_read_movedAway :
    parseResponse (deliveredOn 1 ((fuzzBackend Apr.memory).trace
      (placedResponse true (uwsgiBackend (some movedAway))) readSecond)) =
        some (expectedResponse (some movedAway)) := by
  have hclean : ∀ r ∈ some movedAway, r.Clean := by
    intro r hr
    rw [← Option.some.inj hr]
    exact movedAway_clean
  have hreads : ∀ i ∈ readSecond, i.Reads := by
    simp [readSecond, BackendEvent.Reads, FilterCall.Reads]
  obtain ⟨tr, htr⟩ : ∃ tr, tr = (fuzzBackend Apr.memory).trace
    (placedResponse true (uwsgiBackend (some movedAway))) readSecond := ⟨_, rfl⟩
  have hsome : deliveredOn 1 tr ≠ [] := by
    rw [htr]
    decide +kernel
  have hend : ∃ e ∈ tr, ∃ r ∈ replyOn 1 e, r.status = .eof := by
    rw [htr]
    decide +kernel
  rcases uwsgiBackend_read Apr.takesFront_memory hclean hreads with hnone | ⟨k₀, honce⟩
  · -- an answer was read
    rw [← htr] at hnone
    obtain ⟨e, he, r, hr, -⟩ := hend
    have hanswer := hnone e he
    rcases hinput : e.input with c | ⟨k, c⟩
    · simp [replyOn, hinput] at hr
    · simp [replyOn, hinput, hanswer] at hr
  · rw [← htr] at honce ⊢
    obtain rfl : 1 = k₀ := by
      by_contra hne
      exact hsome (honce.elsewhere 1 hne)
    exact honce.reads hend

end Apatchy
