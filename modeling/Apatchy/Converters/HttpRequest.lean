import Apatchy.Converters.HttpMessage
import Apatchy.Foundations.Numerals
import Mathlib.Data.List.TakeWhile

/-!
# The request builders

`BuildHttpRequest` serialises the message `HttpRequest`, and the uwsgi and AJP
harnesses have a copy of it for their own messages (`Apatchy.buildHttpRequest`,
`Apatchy.buildUwsgiRequest`, `Apatchy.buildAjpRequest`). What they write is an HTTP
message (`Apatchy.HttpRequest.message`): the headers that have a name, then a `Host` and
a `Content-Length` unless the message brings its own.

Whether it does is decided by `strcasecmp`, on what precedes the first NUL of a name; no
token has one, so this is the comparison of names that HTTP asks for.
-/

namespace Apatchy

/-! ### Names -/

/-- `tolower`, in the C locale. -/
def toLower (c : UInt8) : UInt8 := if 65 ≤ c ∧ c ≤ 90 then c + 32 else c

/-- `std::string::c_str`, as a C function reads it. -/
def cStr (s : List UInt8) : List UInt8 := s.takeWhile (· ≠ 0)

/-- `strcasecmp(a, b) == 0`. -/
def strcasecmp (a b : List UInt8) : Bool := a.map toLower == b.map toLower

/-- Whether a byte may be in a token. -/
def isTchar (c : UInt8) : Bool :=
  (48 ≤ c && c ≤ 57) || (65 ≤ c && c ≤ 90) || (97 ≤ c && c ≤ 122) ||
    (ascii "!#$%&'*+-.^_|~").contains c || c == 96

/-- **A token**: the names of headers are tokens. -/
def IsToken (name : List UInt8) : Prop := name ≠ [] ∧ ∀ c ∈ name, isTchar c

/-- A byte with the bit set that tells a small letter from the capital one, if it is a letter. -/
def smallLetter (c : UInt8) : UInt8 := if 0x41 ≤ c.toNat ∧ c.toNat ≤ 0x5A then c ||| 0x20 else c

/-- A header has this name, in lower case. -/
def Header.Named (name : String) (h : Header) : Prop := h.name.map smallLetter = ascii name

instance (name : String) (h : Header) : Decidable (h.Named name) :=
  inferInstanceAs (Decidable (_ = _))

/-- `tolower` makes small letters of capital ones. -/
theorem toLower_eq_smallLetter : toLower = smallLetter := by
  funext c
  have hall : ∀ n : Fin 256, toLower (UInt8.ofNat n) = smallLetter (UInt8.ofNat n) := by
    decide +kernel
  have hc := hall ⟨c.toNat, c.toNat_lt⟩
  rwa [UInt8.ofNat_toNat] at hc

/-! ### The request of the HTTP harness -/

/-- The enum `HttpMethod`. -/
inductive HttpMethod
  | get | post | put | delete | head | options | patch | trace | connect | propfind | proxy
deriving DecidableEq, Repr

/-- `MethodToString` of `http.cc`. -/
def HttpMethod.toText : HttpMethod → String
  | .get => "GET"
  | .post => "POST"
  | .put => "PUT"
  | .delete => "DELETE"
  | .head => "HEAD"
  | .options => "OPTIONS"
  | .patch => "PATCH"
  | .trace => "TRACE"
  | .connect => "CONNECT"
  | .propfind => "PROPFIND"
  | .proxy => "PROXY"

/-- The message `HttpRequest`. -/
structure HttpRequest where
  /-- The method. -/
  method : HttpMethod
  /-- The URI. -/
  uri : List UInt8
  /-- The version, if it is set. -/
  httpVersion : Option (List UInt8) := none
  /-- The headers. -/
  headers : List Header := []
  /-- The body, if it is set. -/
  body : Option (List UInt8) := none

/-- A slash. -/
def slash : UInt8 := 47

/-- The URI with a slash before it, unless it begins with one. -/
def absoluteUri (uri : List UInt8) : List UInt8 :=
  if uri.head? = some slash then uri else slash :: uri

/-- The lines of the headers that have a name. -/
def headerLines (headers : List Header) : List UInt8 :=
  headers.flatMap fun h => if h.name = [] then [] else headerLine h ++ crlf

/-- Whether a header that has a name is called so. -/
def hasHeader (name : String) (headers : List Header) : Bool :=
  headers.any fun h => h.name ≠ [] ∧ strcasecmp (cStr h.name) (ascii name)

/-- `std::to_string`. -/
def toDecimal (n : ℕ) : List UInt8 := numeral 10 n

/-- **`BuildHttpRequest`.** -/
def buildHttpRequest (req : HttpRequest) : List UInt8 :=
  let uri := absoluteUri req.uri
  let version := req.httpVersion.getD (ascii "HTTP/1.1")
  let body := req.body.getD []
  ascii req.method.toText ++ [space] ++ uri ++ [space] ++ version ++ crlf ++
    headerLines req.headers ++
    (if hasHeader "host" req.headers then [] else ascii "Host: localhost\r\n") ++
    (if req.body.isSome ∧ body.length > 0 ∧ ¬ hasHeader "content-length" req.headers then
      ascii "Content-Length: " ++ toDecimal body.length ++ crlf else []) ++
    crlf ++ body

/-! ### The copies of the uwsgi and AJP harnesses -/

/-- The enum `UwsgiHttpMethod`. -/
inductive UwsgiHttpMethod
  | get | post | put | delete | head | options | patch | trace | connect | propfind | proxy
deriving DecidableEq, Repr

/-- `MethodToString` of `uwsgi.cc`. -/
def UwsgiHttpMethod.toText : UwsgiHttpMethod → String
  | .get => "GET"
  | .post => "POST"
  | .put => "PUT"
  | .delete => "DELETE"
  | .head => "HEAD"
  | .options => "OPTIONS"
  | .patch => "PATCH"
  | .trace => "TRACE"
  | .connect => "CONNECT"
  | .propfind => "PROPFIND"
  | .proxy => "PROXY"

/-- The enum `AjpHttpMethod`. -/
inductive AjpHttpMethod
  | get | post | put | delete | head | options
deriving DecidableEq, Repr

/-- `AjpMethodToString`. -/
def AjpHttpMethod.toText : AjpHttpMethod → String
  | .get => "GET"
  | .post => "POST"
  | .put => "PUT"
  | .delete => "DELETE"
  | .head => "HEAD"
  | .options => "OPTIONS"

/-- The message `UwsgiRequest`, without the response it carries. -/
structure UwsgiRequest where
  /-- The method. -/
  method : UwsgiHttpMethod
  /-- The URI. -/
  uri : List UInt8
  /-- The version, if it is set. -/
  httpVersion : Option (List UInt8) := none
  /-- The headers. -/
  headers : List Header := []
  /-- The body, if it is set. -/
  reqBody : Option (List UInt8) := none

/-- The message `AjpRequest`, without the response it carries. -/
structure AjpRequest where
  /-- The method. -/
  method : AjpHttpMethod
  /-- The URI. -/
  uri : List UInt8
  /-- The version, if it is set. -/
  httpVersion : Option (List UInt8) := none
  /-- The headers. -/
  headers : List Header := []
  /-- The body, if it is set. -/
  reqBody : Option (List UInt8) := none

/-- **`BuildUwsgiRequest`.** -/
def buildUwsgiRequest (req : UwsgiRequest) : List UInt8 :=
  let uri := absoluteUri req.uri
  let version := req.httpVersion.getD (ascii "HTTP/1.1")
  let body := req.reqBody.getD []
  ascii req.method.toText ++ [space] ++ uri ++ [space] ++ version ++ crlf ++
    headerLines req.headers ++
    (if hasHeader "host" req.headers then [] else ascii "Host: localhost\r\n") ++
    (if req.reqBody.isSome ∧ body.length > 0 ∧ ¬ hasHeader "content-length" req.headers then
      ascii "Content-Length: " ++ toDecimal body.length ++ crlf else []) ++
    crlf ++ body

/-- **`BuildAjpRequest`.** -/
def buildAjpRequest (req : AjpRequest) : List UInt8 :=
  let uri := absoluteUri req.uri
  let version := req.httpVersion.getD (ascii "HTTP/1.1")
  let body := req.reqBody.getD []
  ascii req.method.toText ++ [space] ++ uri ++ [space] ++ version ++ crlf ++
    headerLines req.headers ++
    (if hasHeader "host" req.headers then [] else ascii "Host: localhost\r\n") ++
    (if req.reqBody.isSome ∧ body.length > 0 ∧ ¬ hasHeader "content-length" req.headers then
      ascii "Content-Length: " ++ toDecimal body.length ++ crlf else []) ++
    crlf ++ body

/-- The same method. -/
def UwsgiHttpMethod.toHttp : UwsgiHttpMethod → HttpMethod
  | .get => .get
  | .post => .post
  | .put => .put
  | .delete => .delete
  | .head => .head
  | .options => .options
  | .patch => .patch
  | .trace => .trace
  | .connect => .connect
  | .propfind => .propfind
  | .proxy => .proxy

/-- The same method. -/
def AjpHttpMethod.toHttp : AjpHttpMethod → HttpMethod
  | .get => .get
  | .post => .post
  | .put => .put
  | .delete => .delete
  | .head => .head
  | .options => .options

/-- A uwsgi request asks for what an HTTP request asks for. -/
structure UwsgiRequest.SameAs (req : UwsgiRequest) (http : HttpRequest) : Prop where
  /-- The method. -/
  method : req.method.toHttp = http.method
  /-- The URI. -/
  uri : req.uri = http.uri
  /-- The version, if it is set, and the default otherwise. -/
  version : req.httpVersion.getD (ascii "HTTP/1.1") = http.httpVersion.getD (ascii "HTTP/1.1")
  /-- The headers. -/
  headers : req.headers = http.headers
  /-- The body; one that is not set is empty. -/
  body : req.reqBody.getD [] = http.body.getD []

/-- An AJP request asks for what an HTTP request asks for. -/
structure AjpRequest.SameAs (req : AjpRequest) (http : HttpRequest) : Prop where
  /-- The method. -/
  method : req.method.toHttp = http.method
  /-- The URI. -/
  uri : req.uri = http.uri
  /-- The version, if it is set, and the default otherwise. -/
  version : req.httpVersion.getD (ascii "HTTP/1.1") = http.httpVersion.getD (ascii "HTTP/1.1")
  /-- The headers. -/
  headers : req.headers = http.headers
  /-- The body; one that is not set is empty. -/
  body : req.reqBody.getD [] = http.body.getD []

/-- A body with bytes in it is set. -/
theorem isSome_and_length_iff (body : Option (List UInt8)) (P : Prop) :
    (body.isSome ∧ (body.getD []).length > 0 ∧ P) ↔ (body.getD [] ≠ [] ∧ P) := by
  rcases body with _ | body
  · simp
  · simp [List.length_pos_iff]

/-- **The uwsgi copy writes the same bytes.** -/
theorem buildUwsgiRequest_eq {req : UwsgiRequest} {http : HttpRequest} (h : req.SameAs http) :
    buildUwsgiRequest req = buildHttpRequest http := by
  have hmethod : req.method.toText = http.method.toText := by
    rw [← h.method]
    cases req.method <;> rfl
  simp only [buildUwsgiRequest, buildHttpRequest, isSome_and_length_iff]
  rw [hmethod, h.uri, h.version, h.headers, h.body]

/-- **The AJP copy writes the same bytes.** -/
theorem buildAjpRequest_eq {req : AjpRequest} {http : HttpRequest} (h : req.SameAs http) :
    buildAjpRequest req = buildHttpRequest http := by
  have hmethod : req.method.toText = http.method.toText := by
    rw [← h.method]
    cases req.method <;> rfl
  simp only [buildAjpRequest, buildHttpRequest, isSome_and_length_iff]
  rw [hmethod, h.uri, h.version, h.headers, h.body]

/-! ### Requests, read -/

/-- A request, as its reader sees it. -/
structure ParsedRequest where
  /-- The method. -/
  method : List UInt8
  /-- The URI. -/
  uri : List UInt8
  /-- The version. -/
  version : List UInt8
  /-- The headers. -/
  headers : List Header
  /-- The body. -/
  body : List UInt8
deriving DecidableEq

/-- The line of a request. -/
def requestLine (method uri version : List UInt8) : List UInt8 :=
  method ++ [space] ++ uri ++ [space] ++ version

/-- The method, the URI and the version in the line of a request. -/
def parseRequestLine (line : List UInt8) : Option (List UInt8 × List UInt8 × List UInt8) :=
  Reader.whole (do
    let method ← Reader.upTo [space]
    let uri ← Reader.upTo [space]
    let version ← Reader.remaining
    return (method, uri, version)) line

/-- **The request that some bytes spell.** -/
def parseRequest (bs : List UInt8) : Option ParsedRequest := do
  let m ← HttpMessage.parse bs
  let (method, uri, version) ← parseRequestLine m.start
  return { method, uri, version, headers := m.headers, body := m.body }

/-- The first space of a request is behind the method. -/
theorem find_requestLine {method : List UInt8} (hmethod : space ∉ method)
    (uri version rest : List UInt8) :
    find [space] (requestLine method uri version ++ rest) = some method.length := by
  have hline : requestLine method uri version ++ rest =
      method ++ [space] ++ (uri ++ [space] ++ version ++ rest) := by simp [requestLine]
  rw [hline]
  exact find_field hmethod _

/-- The second one is behind the URI. -/
theorem findFrom_requestLine {uri : List UInt8} (huri : space ∉ uri)
    (method version rest : List UInt8) :
    findFrom [space] (requestLine method uri version ++ rest) (method.length + 1) =
      some (uri.length + (method.length + 1)) := by
  have hline : requestLine method uri version ++ rest =
      (method ++ [space]) ++ (uri ++ [space] ++ (version ++ rest)) := by simp [requestLine]
  have hfront : method.length + 1 = (method ++ [space]).length := by simp
  rw [hline, hfront]
  exact findFrom_field huri _ _

/-- The line of a request reads back, whatever the version is. -/
theorem parseRequestLine_requestLine {method uri : List UInt8} (hmethod : space ∉ method)
    (huri : space ∉ uri) (version : List UInt8) :
    parseRequestLine (requestLine method uri version) = some (method, uri, version) := by
  have hline : requestLine method uri version =
      method ++ [space] ++ (uri ++ [space] ++ version) := by simp [requestLine]
  rw [parseRequestLine, hline]
  refine Reader.whole_of_readsAll ((Reader.reads_upTo hmethod).bindAll ?_)
  exact (Reader.reads_upTo huri).bindAll (Reader.readsAll_remaining version).map

/-- **A request reads back from the wire.** -/
theorem parseRequest_bytes {method uri version : List UInt8} (hmethod : space ∉ method)
    (huri : space ∉ uri) {headers : List Header} {body : List UInt8}
    (hm : (HttpMessage.mk (requestLine method uri version) headers body).Valid) :
    parseRequest (HttpMessage.mk (requestLine method uri version) headers body).bytes =
      some { method, uri, version, headers, body } := by
  rw [parseRequest, HttpMessage.parse_bytes hm]
  simp [parseRequestLine_requestLine hmethod huri]

/-! ### What the builders write -/

/-- The name of a method. -/
def HttpMethod.name : HttpMethod → List UInt8
  | .get => ascii "GET"
  | .post => ascii "POST"
  | .put => ascii "PUT"
  | .delete => ascii "DELETE"
  | .head => ascii "HEAD"
  | .options => ascii "OPTIONS"
  | .patch => ascii "PATCH"
  | .trace => ascii "TRACE"
  | .connect => ascii "CONNECT"
  | .propfind => ascii "PROPFIND"
  | .proxy => ascii "PROXY"

/-- The decimal digits of a number, most significant first. -/
def decimal (n : ℕ) : List UInt8 :=
  ((Nat.digits 10 n).map fun d => UInt8.ofNat (0x30 + d)).reverse

/-- A number other than zero is written in decimal digits. -/
theorem toDecimal_eq_decimal {n : ℕ} (h : n ≠ 0) : toDecimal n = decimal n := by
  rw [toDecimal, numeral, if_neg h, decimal]
  refine congrArg List.reverse (List.map_congr_left fun d hd => ?_)
  rw [digitByte, if_pos (Nat.digits_lt_base (by decide) hd)]

namespace HttpRequest

variable (req : HttpRequest)

/-- The version, or the default. -/
def version : List UInt8 := req.httpVersion.getD (ascii "HTTP/1.1")

/-- The body; one that is not set is empty. -/
def content : List UInt8 := req.body.getD []

/-- The `Host` that is added unless there is one. -/
def hostDefault : List Header :=
  if ∃ h ∈ req.headers, h.Named "host" then [] else [⟨ascii "Host", ascii "localhost"⟩]

/-- The `Content-Length` that is added to a body unless there is one. -/
def lengthDefault : List Header :=
  if req.content ≠ [] ∧ ¬ ∃ h ∈ req.headers, h.Named "content-length" then
    [⟨ascii "Content-Length", decimal req.content.length⟩]
  else []

/-- The headers of the message: those that have a name, and the defaults for what they do
not name. -/
def sentHeaders : List Header :=
  req.headers.filter (fun h => h.name ≠ []) ++ req.hostDefault ++ req.lengthDefault

/-- **The message that is written.** -/
def message : HttpMessage where
  start := requestLine (ascii req.method.toText) (absoluteUri req.uri) req.version
  headers := req.sentHeaders
  body := req.content

/-- **A request that comes in lines**: names are tokens, and no CR or LF is in the values
of headers, in the URI or in the version. -/
structure InLines : Prop where
  /-- The names that are not empty are tokens. -/
  names : ∀ h ∈ req.headers, h.name ≠ [] → IsToken h.name
  /-- The values hold no CR and no LF. -/
  values : ∀ h ∈ req.headers, 13 ∉ h.value ∧ 10 ∉ h.value
  /-- Nor does the URI. -/
  uri : 13 ∉ req.uri ∧ 10 ∉ req.uri
  /-- Nor does the version. -/
  version : ∀ v, req.httpVersion = some v → 13 ∉ v ∧ 10 ∉ v

/-- **A request without ambiguity**: it comes in lines, and no space is in its URI or in
its version. -/
structure Clean : Prop extends req.InLines where
  /-- No space is in the URI. -/
  uri_space : space ∉ req.uri
  /-- Nor in the version. -/
  version_space : ∀ v, req.httpVersion = some v → space ∉ v

end HttpRequest

theorem IsToken.not_mem {name : List UInt8} (h : IsToken name) {c : UInt8}
    (hc : isTchar c = false) : c ∉ name :=
  fun hmem => absurd (h.2 c hmem) (by simp [hc])

theorem cStr_of_isToken {name : List UInt8} (h : IsToken name) : cStr name = name := by
  refine List.takeWhile_eq_self_iff.mpr fun c hc => ?_
  have hzero : c ≠ 0 := fun h0 => h.not_mem (by decide) (h0 ▸ hc)
  simpa using hzero

/-- **The comparison of the builders is the one of names** that HTTP asks for. -/
theorem hasHeader_iff {headers : List Header} (h : ∀ h ∈ headers, h.name ≠ [] → IsToken h.name)
    (name : String) (hne : ascii name ≠ []) (hlower : (ascii name).map toLower = ascii name) :
    hasHeader name headers ↔ ∃ h ∈ headers, h.Named name := by
  rw [hasHeader, List.any_eq_true]
  refine exists_congr fun header => and_congr_right fun hmem => ?_
  rcases eq_or_ne header.name [] with hnil | hname
  · simp [Header.Named, hnil, hne.symm]
  · rw [toLower_eq_smallLetter] at hlower
    simp [Header.Named, hname, strcasecmp, toLower_eq_smallLetter, hlower,
      cStr_of_isToken (h header hmem hname)]

theorem headerLines_eq (headers : List Header) :
    headerLines headers =
      joinLines ((headers.filter (fun h => h.name ≠ [])).map headerLine) := by
  induction headers with
  | nil => rfl
  | cons h headers ih =>
    rw [headerLines, List.flatMap_cons]
    change _ ++ headerLines headers = _
    by_cases hname : h.name = [] <;> simp [hname, ih]

namespace HttpRequest

variable {req : HttpRequest}

theorem hostDefault_lines (h : ∀ h ∈ req.headers, h.name ≠ [] → IsToken h.name) :
    (if hasHeader "host" req.headers then [] else ascii "Host: localhost\r\n") =
      joinLines (req.hostDefault.map headerLine) := by
  have hhost := hasHeader_iff h "host" (by decide) (by decide)
  rw [hostDefault]
  by_cases hnamed : ∃ h ∈ req.headers, h.Named "host"
  · rw [if_pos (hhost.mpr hnamed), if_pos hnamed]
    rfl
  · rw [if_neg fun hcode => hnamed (hhost.mp hcode), if_neg hnamed]
    decide

theorem lengthDefault_lines (h : ∀ h ∈ req.headers, h.name ≠ [] → IsToken h.name) :
    (if req.content ≠ [] ∧ ¬ hasHeader "content-length" req.headers then
      ascii "Content-Length: " ++ toDecimal req.content.length ++ crlf else []) =
      joinLines (req.lengthDefault.map headerLine) := by
  have hlength := hasHeader_iff h "content-length" (by decide) (by decide)
  have hfield : ascii "Content-Length: " = ascii "Content-Length" ++ [colon, space] := by decide
  rw [lengthDefault]
  by_cases hadd : req.content ≠ [] ∧ ¬ ∃ h ∈ req.headers, h.Named "content-length"
  · rw [if_pos hadd, if_pos ⟨hadd.1, fun hcode => hadd.2 (hlength.mp hcode)⟩, hfield,
      toDecimal_eq_decimal (by simpa using hadd.1)]
    simp [headerLine]
  · rw [if_neg hadd, if_neg fun hcode => hadd ⟨hcode.1, fun hex => hcode.2 (hlength.mpr hex)⟩]
    rfl

/-- **The builder writes the message of the request.** -/
theorem buildHttpRequest_eq (h : ∀ h ∈ req.headers, h.name ≠ [] → IsToken h.name) :
    buildHttpRequest req = req.message.bytes := by
  have hhost := hostDefault_lines h
  have hlength := lengthDefault_lines h
  rw [content] at hlength
  simp only [buildHttpRequest, isSome_and_length_iff]
  rw [hhost, hlength, headerLines_eq]
  simp [message, HttpMessage.bytes, HttpMessage.lines, sentHeaders, requestLine, version, content]

/-! ### The message is valid -/

theorem toText_not_mem (method : HttpMethod) {c : UInt8} (hc : c = 13 ∨ c = space) :
    c ∉ ascii method.toText := by
  rcases hc with rfl | rfl <;> cases method <;> decide

theorem not_mem_absoluteUri {uri : List UInt8} {c : UInt8} (hc : c ≠ slash) (h : c ∉ uri) :
    c ∉ absoluteUri uri := by
  rw [absoluteUri]
  split_ifs
  · exact h
  · simp [hc, h]

/-- A byte that is in no version that is set, and not in the default. -/
theorem not_mem_version {c : UInt8} (hc : c ∉ ascii "HTTP/1.1")
    (h : ∀ v, req.httpVersion = some v → c ∉ v) : c ∉ req.version := by
  rw [version]
  rcases hv : req.httpVersion with _ | v
  · exact hc
  · exact h v hv

/-- A header whose name is a token and whose value holds no CR is one line. -/
theorem isLine_of_isToken {h : Header} (hname : IsToken h.name) (hvalue : 13 ∉ h.value) :
    h.IsLine where
  name_ne_nil := hname.1
  colon := hname.not_mem (by decide)
  name_cr := hname.not_mem (by decide)
  value_cr := hvalue

theorem InLines.sentHeaders (hreq : req.InLines) : ∀ h ∈ req.sentHeaders, h.IsLine := by
  intro h hh
  rcases List.mem_append.mp hh with hh | hh
  · rcases List.mem_append.mp hh with hh | hh
    · obtain ⟨hmem, hname⟩ := List.mem_filter.mp hh
      exact isLine_of_isToken (hreq.names h hmem (by simpa using hname)) (hreq.values h hmem).1
    · rw [hostDefault] at hh
      split_ifs at hh
      · simp at hh
      · rw [List.mem_singleton.mp hh]
        exact ⟨by decide, by decide, by decide, by decide⟩
  · rw [lengthDefault] at hh
    split_ifs at hh with hadd
    · rw [List.mem_singleton.mp hh, ← toDecimal_eq_decimal (by simpa using hadd.1)]
      have hname : ascii "Content-Length" ≠ [] := by decide
      have hcolon : Apatchy.colon ∉ ascii "Content-Length" := by decide
      have hcr : 13 ∉ ascii "Content-Length" := by decide
      exact ⟨hname, hcolon, hcr, not_mem_numeral (by decide) (by decide) _ (by decide)⟩
    · simp at hh

/-- **The message of a request that comes in lines is valid.** -/
theorem InLines.message (hreq : req.InLines) : req.message.Valid where
  start := by
    constructor
    · simp [HttpRequest.message, requestLine]
    · simp only [HttpRequest.message, requestLine, List.mem_append, not_or]
      refine ⟨⟨⟨⟨toText_not_mem _ (.inl rfl), by decide⟩, ?_⟩, by decide⟩, ?_⟩
      · exact not_mem_absoluteUri (by decide) hreq.uri.1
      · exact not_mem_version (by decide) fun v hv => (hreq.version v hv).1
  headers := hreq.sentHeaders

theorem ascii_toText (method : HttpMethod) : ascii method.toText = method.name := by
  cases method <;> rfl

theorem absoluteUri_eq (uri : List UInt8) :
    absoluteUri uri = if [0x2F] <+: uri then uri else 0x2F :: uri := by
  rcases uri with _ | ⟨c, uri⟩
  · rfl
  · simp [absoluteUri, slash, eq_comm]

variable (req) in
/-- The request that is asked for, as its reader should see it. -/
def parsed : ParsedRequest where
  method := req.method.name
  uri := if [0x2F] <+: req.uri then req.uri else 0x2F :: req.uri
  version := req.version
  headers := req.sentHeaders
  body := req.content

/-- **A request reads back as it was asked for.** -/
theorem parse_buildHttpRequest (hreq : req.Clean) :
    parseRequest (buildHttpRequest req) = some req.parsed := by
  have hread := parseRequest_bytes (toText_not_mem req.method (.inr rfl))
    (not_mem_absoluteUri (by decide) hreq.uri_space) hreq.toInLines.message
  rw [buildHttpRequest_eq hreq.names, parsed, ← ascii_toText, ← absoluteUri_eq]
  exact hread

end HttpRequest

/-- **Parse after build.** What the builder writes for a request without ambiguity reads
back as its method, its absolute URI, its version, the headers that have a name, the
defaults for `Host` and `Content-Length`, and its body; and the copies write the same
bytes for the same request. -/
theorem builders_parse :
    (∀ req : HttpRequest, req.Clean → parseRequest (buildHttpRequest req) = some req.parsed) ∧
    (∀ (http : HttpRequest) (req : UwsgiRequest), req.SameAs http →
      buildUwsgiRequest req = buildHttpRequest http) ∧
    (∀ (http : HttpRequest) (req : AjpRequest), req.SameAs http →
      buildAjpRequest req = buildHttpRequest http) :=
  ⟨fun _ h => HttpRequest.parse_buildHttpRequest h, fun _ _ h => buildUwsgiRequest_eq h,
    fun _ _ h => buildAjpRequest_eq h⟩

/-! ### A request with a body -/

/-- A request without a `Host` and with a body that looks like the end of headers. -/
def blankBody : HttpRequest where
  method := .post
  uri := ascii "x"
  headers := [⟨ascii "Accept", ascii "*/*"⟩, ⟨[], ascii "nameless"⟩]
  body := some blankLine

theorem blankBody_clean : blankBody.Clean where
  names := by
    intro h hh hname
    have hmem : h = ⟨ascii "Accept", ascii "*/*"⟩ ∨ h = ⟨[], ascii "nameless"⟩ := by
      simpa [blankBody] using hh
    rcases hmem with rfl | rfl
    · have hall : (ascii "Accept").all isTchar = true := by decide
      exact ⟨by decide, List.all_eq_true.mp hall⟩
    · exact absurd rfl hname
  values := by
    intro h hh
    have hmem : h = ⟨ascii "Accept", ascii "*/*"⟩ ∨ h = ⟨[], ascii "nameless"⟩ := by
      simpa [blankBody] using hh
    rcases hmem with rfl | rfl <;> exact ⟨by decide, by decide⟩
  uri := by decide
  version := by simp [blankBody]
  uri_space := by decide
  version_space := by simp [blankBody]

/-- The request with a body, and its copies. -/
theorem builders_parse_blankBody :
    parseRequest (buildHttpRequest blankBody) = some blankBody.parsed ∧
    buildUwsgiRequest ⟨.post, ascii "x", none, blankBody.headers, some blankLine⟩ =
      buildHttpRequest blankBody ∧
    buildAjpRequest ⟨.post, ascii "x", some (ascii "HTTP/1.1"), blankBody.headers,
      some blankLine⟩ = buildHttpRequest blankBody := by
  obtain ⟨hparse, huwsgi, hajp⟩ := builders_parse
  exact ⟨hparse _ blankBody_clean, huwsgi _ _ ⟨rfl, rfl, rfl, rfl, rfl⟩,
    hajp _ _ ⟨rfl, rfl, rfl, rfl, rfl⟩⟩

end Apatchy
