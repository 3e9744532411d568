import Apatchy.Converters.HttpRequest
import Apatchy.Converters.SessionCrypto

/-!
# The session converter on a request

`ApplySessionCrypto` edits a serialised request: the URI becomes the path of the route,
and a `Cookie` is inserted before the *last* blank line of the whole message. That is the
end of the headers unless the body has a blank line too, or begins with a line end, and
then the cookie lands in the body (`Apatchy.keepsRequest_iff`).
-/

namespace Apatchy

/-! ### The URI -/

/-- The URI is what is between the first two spaces of a request. -/
theorem overrideUri_requestLine {method uri : List UInt8} (hmethod : space ∉ method)
    (huri : space ∉ uri) (path version rest : List UInt8) :
    overrideUri path (requestLine method uri version ++ rest) =
      requestLine method path version ++ rest := by
  have hline (t : List UInt8) : requestLine method t version ++ rest =
      (method ++ [space]) ++ t ++ (space :: version ++ rest) := by simp [requestLine]
  have hfront : method.length + 1 = (method ++ [space]).length := by simp
  have hlength : uri.length + (method.length + 1) - method.length - 1 = uri.length := by omega
  simp only [overrideUri, find_requestLine hmethod uri version rest,
    findFrom_requestLine huri method version rest, hlength]
  rw [hline, hline, hfront, replaceAt_append]

/-! ### The last blank line -/

/-- The body has no blank line, and does not begin with one that the headers complete. -/
def NoBlankLine (body : List UInt8) : Prop := ¬ crlf <+: body ∧ ¬ blankLine <:+: body

/-- Where a blank line can begin after the one that ends the headers. -/
theorem infix_after_iff (body : List UInt8) :
    blankLine <:+: 10 :: (crlf ++ body) ↔ ¬ NoBlankLine body := by
  have hlf (l : List UInt8) : ¬ blankLine <+: 10 :: l := by simp [blankLine, crlf]
  have hbody : blankLine <+: crlf ++ body ↔ crlf <+: body := List.prefix_append_right_inj crlf
  have hcons : crlf ++ body = 13 :: 10 :: body := rfl
  rw [NoBlankLine, not_and_or, not_not, not_not, ← hbody, hcons, List.infix_cons_iff,
    List.infix_cons_iff, List.infix_cons_iff]
  simp [hlf]

theorem exists_joinLines {ls : List (List UInt8)} (hne : ls ≠ []) :
    ∃ front, joinLines ls = front ++ crlf := by
  obtain ⟨init, last, rfl⟩ : ∃ init last, ls = init ++ [last] :=
    ⟨ls.dropLast, ls.getLast hne, (List.dropLast_append_getLast hne).symm⟩
  exact ⟨joinLines init ++ last, by simp⟩

/-- A message, from where its headers end. -/
theorem bytes_eq {m : HttpMessage} {front : List UInt8} (h : joinLines m.lines = front ++ crlf) :
    m.bytes = front ++ 13 :: 10 :: (crlf ++ m.body) := by
  simp [HttpMessage.bytes, h, crlf]

/-- **The last blank line is the one that ends the headers**, if the body brings none. -/
theorem rfind_bytes {m : HttpMessage} (h : NoBlankLine m.body) :
    ∃ i, rfind blankLine m.bytes = some i ∧ i + 2 = (joinLines m.lines).length := by
  have hlines : m.lines ≠ [] := by simp [HttpMessage.lines]
  obtain ⟨front, hfront⟩ := exists_joinLines hlines
  have hbegins : blankLine <+: 13 :: 10 :: (crlf ++ m.body) := List.prefix_append blankLine m.body
  have hlast : rfind blankLine (13 :: 10 :: (crlf ++ m.body)) = some 0 :=
    rfind_cons hbegins fun hafter => (infix_after_iff m.body).mp hafter h
  refine ⟨front.length, ?_, by simp [hfront, crlf]⟩
  rw [bytes_eq hfront, rfind_append hlast]
  rfl

/-- **Otherwise it is in the body**, from where text is inserted on. -/
theorem rfind_bytes_of_not {m : HttpMessage} (h : ¬ NoBlankLine m.body) :
    ∃ i j, rfind blankLine m.bytes = some i ∧
      i + 2 = (joinLines m.lines ++ crlf).length + j := by
  have hlines : m.lines ≠ [] := by simp [HttpMessage.lines]
  obtain ⟨front, hfront⟩ := exists_joinLines hlines
  obtain ⟨k, hk⟩ := exists_rfind ((infix_after_iff m.body).mpr h)
  have hpos : k ≠ 0 := by
    rintro rfl
    have hbegins := prefix_drop_of_rfind hk
    simp [blankLine, crlf] at hbegins
  have hlast : rfind blankLine (13 :: 10 :: (crlf ++ m.body)) = some (1 + k) :=
    rfind_append hk [13]
  refine ⟨front.length + (1 + k), k - 1, ?_, ?_⟩
  · rw [bytes_eq hfront, rfind_append hlast]
  · simp only [hfront, List.length_append, crlf, List.length_cons, List.length_nil]
    omega

/-! ### What the converter does to a request -/

/-- The cookie of a route. -/
def sessionHeader (route : SessionRoute) (value : List UInt8) : Header :=
  ⟨ascii "Cookie", ascii route.info.cookieName ++ ascii "=" ++ value⟩

/-- **The converter keeps the request**: it is read as the same request, but for the URI,
which is the path of the route, and the cookie of the route after its headers. -/
def KeepsRequest (ssl : OpenSsl) (cookie : SessionCookie) (route : SessionRoute)
    (req : HttpRequest) : Prop :=
  ∃ value bytes, cookieValue ssl cookie route = .ok value ∧
    applySessionCrypto ssl cookie route (buildHttpRequest req) = .ok bytes ∧
    parseRequest bytes = some { req.parsed with
      uri := ascii route.info.path
      headers := req.parsed.headers ++ [sessionHeader route value] }

variable {ssl : OpenSsl} {cookie : SessionCookie} {route : SessionRoute} {req : HttpRequest}

/-- The message of a request, with another URI. -/
def routed (req : HttpRequest) (uri : List UInt8) : HttpMessage where
  start := requestLine (ascii req.method.toText) uri req.version
  headers := req.sentHeaders
  body := req.content

theorem path_not_mem (route : SessionRoute) {c : UInt8} (hc : c = 13 ∨ c = space) :
    c ∉ ascii route.info.path := by
  rcases hc with rfl | rfl <;> cases route <;> decide

theorem routed_valid (hreq : req.Clean) (route : SessionRoute) :
    (routed req (ascii route.info.path)).Valid where
  start := by
    constructor
    · simp [routed, requestLine]
    · have hversion : 13 ∉ req.version :=
        HttpRequest.not_mem_version (by decide) fun v hv => (hreq.version v hv).1
      simp only [routed, requestLine, List.mem_append, not_or]
      exact ⟨⟨⟨⟨HttpRequest.toText_not_mem _ (.inl rfl), by decide⟩,
        path_not_mem route (.inl rfl)⟩, by decide⟩, hversion⟩
  headers := hreq.sentHeaders

/-- The URI of a built request is replaced. -/
theorem overrideUri_build (hreq : req.Clean) (path : List UInt8) :
    overrideUri path (buildHttpRequest req) = (routed req path).bytes := by
  have hmethod : space ∉ ascii req.method.toText := HttpRequest.toText_not_mem _ (.inr rfl)
  have huri : space ∉ absoluteUri req.uri :=
    HttpRequest.not_mem_absoluteUri (by decide) hreq.uri_space
  have hbytes (uri : List UInt8) : (routed req uri).bytes =
      requestLine (ascii req.method.toText) uri req.version ++
        (crlf ++ joinLines (req.sentHeaders.map headerLine) ++ crlf ++ req.content) := by
    simp [HttpMessage.bytes, HttpMessage.lines, routed]
  have hmessage : req.message = routed req (absoluteUri req.uri) := rfl
  rw [HttpRequest.buildHttpRequest_eq hreq.names, hmessage, hbytes, hbytes,
    overrideUri_requestLine hmethod huri]

/-- The cookie is inserted before the last blank line. -/
theorem applySessionCrypto_eq (hreq : req.Clean) {value : List UInt8}
    (hvalue : cookieValue ssl cookie route = .ok value) {i : ℕ}
    (hi : rfind blankLine (routed req (ascii route.info.path)).bytes = some i) :
    applySessionCrypto ssl cookie route (buildHttpRequest req) =
      .ok (insertAt (i + 2) (joinLines ([sessionHeader route value].map headerLine))
        (routed req (ascii route.info.path)).bytes) := by
  have hline : ascii "Cookie: " ++ ascii route.info.cookieName ++ ascii "=" ++ value ++ crlf =
      joinLines ([sessionHeader route value].map headerLine) := by
    have hfield : ascii "Cookie: " = ascii "Cookie" ++ [colon, space] := by decide
    simp [sessionHeader, headerLine, hfield]
  simp only [applySessionCrypto, overrideUri_build hreq, hvalue, bind, Except.bind, hi, hline,
    pure, Except.pure]

theorem sessionHeader_isLine (h : ssl.Lawful) (hfits : cookie.Fits route) {value : List UInt8}
    (hvalue : cookieValue ssl cookie route = .ok value) : (sessionHeader route value).IsLine where
  name_ne_nil := by simp only [sessionHeader]; decide
  colon := by simp only [sessionHeader]; decide
  name_cr := by simp only [sessionHeader]; decide
  value_cr := by
    have hname : 13 ∉ ascii route.info.cookieName := by cases route <;> decide
    have hequals : 13 ∉ ascii "=" := by decide
    have hcr : 13 ∉ value := fun hmem => cookieValue_delimiters h hfits hvalue 13 hmem (by decide)
    simp only [sessionHeader, List.mem_append, not_or]
    exact ⟨⟨hname, hequals⟩, hcr⟩

/-- How a routed message is read. -/
theorem parseRequest_routed (hreq : req.Clean) (route : SessionRoute) {hs : List Header}
    (hhs : ∀ h ∈ hs, h.IsLine) (body : List UInt8) :
    parseRequest ((routed req (ascii route.info.path)).extend hs body).bytes =
      some { req.parsed with
        uri := ascii route.info.path
        headers := req.parsed.headers ++ hs
        body } := by
  have hread := parseRequest_bytes (HttpRequest.toText_not_mem req.method (.inr rfl))
    (path_not_mem route (.inr rfl)) ((routed_valid hreq route).extend hhs body)
  rw [HttpRequest.parsed, ← HttpRequest.ascii_toText]
  exact hread

/-- **A request that is kept has no blank line in its body**, whatever OpenSSL does. -/
theorem KeepsRequest.noBlankLine (hreq : req.Clean) (h : KeepsRequest ssl cookie route req) :
    NoBlankLine req.content := by
  obtain ⟨value, bytes, hvalue, happly, hparse⟩ := h
  by_contra hblank
  have hbody : ¬ NoBlankLine (routed req (ascii route.info.path)).body := hblank
  -- The cookie is in the body, and the headers are what they were.
  obtain ⟨i, j, hi, hij⟩ := rfind_bytes_of_not hbody
  rw [applySessionCrypto_eq hreq hvalue hi, hij, HttpMessage.bytes, insertAt_append_add] at happly
  obtain rfl := Except.ok.inj happly
  have hnone : ∀ h ∈ ([] : List Header), h.IsLine := by simp
  have hread := parseRequest_routed hreq route hnone
    (insertAt j (joinLines ([sessionHeader route value].map headerLine)) req.content)
  have hsame : ((routed req (ascii route.info.path)).extend [] (insertAt j
      (joinLines ([sessionHeader route value].map headerLine)) req.content)).bytes =
      joinLines (routed req (ascii route.info.path)).lines ++ crlf ++ insertAt j
        (joinLines ([sessionHeader route value].map headerLine))
        (routed req (ascii route.info.path)).body := by
    simp [HttpMessage.bytes, HttpMessage.lines, HttpMessage.extend, routed]
  rw [← hsame, hread] at hparse
  simp at hparse

/-- **A request is kept** if its body has no blank line and the text of the cookie fits. -/
theorem keepsRequest_of_fits (h : ssl.Lawful) (hreq : req.Clean) (hblank : NoBlankLine req.content)
    (hfits : cookie.Fits route) : KeepsRequest ssl cookie route req := by
  have hsize : cookie.payloadSize route < 2 ^ 31 := by
    rw [SessionCookie.Fits] at hfits
    omega
  obtain ⟨value, hvalue⟩ := (cookieValue_ok_iff h hsize).mpr hfits
  have hbody : NoBlankLine (routed req (ascii route.info.path)).body := hblank
  obtain ⟨i, hi, hlength⟩ := rfind_bytes hbody
  refine ⟨value, _, hvalue, applySessionCrypto_eq hreq hvalue hi, ?_⟩
  rw [hlength, HttpMessage.insertAt_headers]
  refine parseRequest_routed hreq route (fun header hheader => ?_) _
  rw [List.mem_singleton.mp hheader]
  exact sessionHeader_isLine h hfits hvalue

/-- **The converter keeps a request exactly if its body neither begins with a line end nor has
a blank line, and the text of the cookie fits an `int`.** What OpenSSL makes of a payload whose
size is negative as an `int` is not known; no body with a blank line is kept even then. -/
theorem keepsRequest_iff (ssl : OpenSsl) (h : ssl.Lawful) (req : HttpRequest) (hreq : req.Clean)
    (cookie : SessionCookie) (route : SessionRoute) :
    (cookie.payloadSize route < 2 ^ 31 →
      (KeepsRequest ssl cookie route req ↔
        (¬ ascii "\r\n" <+: req.content ∧ ¬ ascii "\r\n\r\n" <:+: req.content) ∧
          4 * ((cookie.payloadSize route + 2) / 3) < 2 ^ 31)) ∧
    (KeepsRequest ssl cookie route req →
      ¬ ascii "\r\n" <+: req.content ∧ ¬ ascii "\r\n\r\n" <:+: req.content) := by
  have hcrlf : ascii "\r\n" = crlf := by decide
  have hblank : ascii "\r\n\r\n" = blankLine := by decide
  rw [hcrlf, hblank]
  refine ⟨fun hsize => ⟨?_, ?_⟩, fun hkeeps => hkeeps.noBlankLine hreq⟩
  · intro hkeeps
    obtain ⟨value, bytes, hvalue, -⟩ := id hkeeps
    exact ⟨hkeeps.noBlankLine hreq, (cookieValue_ok_iff h hsize).mp ⟨value, hvalue⟩⟩
  · rintro ⟨hbody, hfits⟩
    exact keepsRequest_of_fits h hreq hbody hfits

/-! ### A body, and a body with a blank line -/

/-- A request with a body. -/
def withBody (body : List UInt8) : HttpRequest where
  method := .post
  uri := ascii "/x"
  body := some body

theorem withBody_clean (body : List UInt8) : (withBody body).Clean where
  names := by simp [withBody]
  values := by simp [withBody]
  uri := by simp only [withBody]; decide
  version := by simp [withBody]
  uri_space := by simp only [withBody]; decide
  version_space := by simp [withBody]

/-- **A body without a blank line is kept**, with a cookie on an encrypted route. -/
theorem keepsRequest_withBody :
    paddingOnly.Lawful ∧
    KeepsRequest paddingOnly { sessionData := some (ascii "x") } .a (withBody (ascii "a\r\n")) := by
  refine ⟨paddingOnly_lawful, ((keepsRequest_iff paddingOnly paddingOnly_lawful _
    (withBody_clean _) _ .a).1 ?_).mpr ⟨⟨?_, ?_⟩, ?_⟩⟩
  · simp [SessionCookie.payloadSize, SessionRoute.info, ascii]
  · simp only [HttpRequest.content, withBody, Option.getD_some]
    decide
  · rw [← find_eq_none_iff]
    simp only [HttpRequest.content, withBody, Option.getD_some]
    decide
  · simp [SessionCookie.payloadSize, SessionRoute.info, ascii]

/-- **The cookie lands in a body with a blank line.** -/
theorem not_keepsRequest_withBody :
    paddingOnly.Lawful ∧ (withBody (ascii "a\r\n\r\nb")).Clean ∧
    (applySessionCrypto paddingOnly { sessionData := some (ascii "x") } .b
      (buildHttpRequest (withBody (ascii "a\r\n\r\nb")))).toOption =
      some (ascii ("POST /b HTTP/1.1\r\nHost: localhost\r\nContent-Length: 6\r\n\r\n" ++
        "a\r\nCookie: session_plain=x\r\n\r\nb")) ∧
    ¬ KeepsRequest paddingOnly { sessionData := some (ascii "x") } .b
      (withBody (ascii "a\r\n\r\nb")) := by
  have happly : (applySessionCrypto paddingOnly { sessionData := some (ascii "x") } .b
      (buildHttpRequest (withBody (ascii "a\r\n\r\nb")))).toOption =
      some (ascii ("POST /b HTTP/1.1\r\nHost: localhost\r\nContent-Length: 6\r\n\r\n" ++
        "a\r\nCookie: session_plain=x\r\n\r\nb")) := by
    decide +kernel
  -- the body that is read back has the cookie in it
  have hread : (parseRequest (ascii
      ("POST /b HTTP/1.1\r\nHost: localhost\r\nContent-Length: 6\r\n\r\n" ++
        "a\r\nCookie: session_plain=x\r\n\r\nb"))).map ParsedRequest.body =
      some (ascii "a\r\nCookie: session_plain=x\r\n\r\nb") := by
    decide +kernel
  refine ⟨paddingOnly_lawful, withBody_clean _, happly, ?_⟩
  rintro ⟨value, bytes, -, hbytes, hparse⟩
  rw [hbytes] at happly
  obtain rfl := Option.some.inj happly
  rw [hparse] at hread
  have hbody : ascii "a\r\n\r\nb" = ascii "a\r\nCookie: session_plain=x\r\n\r\nb" :=
    Option.some.inj hread
  exact absurd hbody (by decide)

end Apatchy
