import Apatchy.Converters.Message

/-!
# The AJP response converter

The message `AjpResponse`, which stands for what a servlet container answers to
`mod_proxy_ajp`, and the packets that `BuildAjpResponse` makes of it
(`Apatchy.buildAjpResponse`): an answer to a probe if the message asks for one, the
response headers, one packet for each nonempty chunk of the body, and the end.
-/

namespace Apatchy

/-! ### The message -/

/-- The statuses a response may have. -/
inductive AjpResponseCode
  | ok200
  | created201
  | redirect301
  | redirect302
  | notModified304
  | badRequest400
  | unauthorized401
  | forbidden403
  | notFound404
  | serverError500
  | badGateway502
  | serviceUnavailable503
deriving DecidableEq, Repr

/-- The headers AJP has a code for, and `raw` for any other. -/
inductive AjpEncodedHeader
  | contentType
  | contentLanguage
  | contentLength
  | date
  | lastModified
  | location
  | setCookie
  | setCookie2
  | servletEngine
  | status
  | wwwAuthenticate
  | raw
deriving DecidableEq, Repr

/-- A response header. -/
structure AjpResponseHeader where
  /-- Which header. -/
  code : AjpEncodedHeader
  /-- Its name, for a raw one. -/
  rawName : Option (List UInt8) := none
  /-- Its value. -/
  value : List UInt8

/-- A chunk of the body. -/
structure AjpBodyChunk where
  /-- The bytes. -/
  data : List UInt8

/-- The head of a response. -/
structure AjpSendHeaders where
  /-- The status. -/
  status : AjpResponseCode
  /-- What to say beside the status. -/
  statusMsg : Option (List UInt8) := none
  /-- The headers. -/
  headers : List AjpResponseHeader := []

/-- A response. -/
structure AjpResponse where
  /-- Its head. -/
  sendHeaders : AjpSendHeaders
  /-- Its body. -/
  bodyChunks : List AjpBodyChunk := []
  /-- Whether the connection may be used again. -/
  reuse : Option Bool := none
  /-- Whether to answer a probe first. -/
  sendCpong : Option Bool := none

/-! ### Writing -/

/-- `StatusFromCode`. -/
def statusFromCode : AjpResponseCode → UInt16
  | .ok200 => 200
  | .created201 => 201
  | .redirect301 => 301
  | .redirect302 => 302
  | .notModified304 => 304
  | .badRequest400 => 400
  | .unauthorized401 => 401
  | .forbidden403 => 403
  | .notFound404 => 404
  | .serverError500 => 500
  | .badGateway502 => 502
  | .serviceUnavailable503 => 503

/-- `ajp_append_uint16`. -/
def ajpAppendUint16 (val : UInt16) : List UInt8 := octets16 val

/-- `ajp_append_uint8`. -/
def ajpAppendUint8 (val : UInt8) : List UInt8 := [val]

/-- `ajp_append_string`: the length, the bytes, and a NUL. -/
def ajpAppendString (s : List UInt8) : List UInt8 :=
  ajpAppendUint16 (UInt16.ofNat s.length) ++ s ++ [0]

/-- `ajp_wrap_packet`: the magic, the length, and the payload. -/
def ajpWrapPacket (payload : List UInt8) : List UInt8 :=
  [0x41, 0x42] ++ ajpAppendUint16 (UInt16.ofNat payload.length) ++ payload

/-- `EncodedHeaderCode`. A raw header has no code. -/
def encodedHeaderCode : AjpEncodedHeader → UInt16
  | .contentType => 0xA001
  | .contentLanguage => 0xA002
  | .contentLength => 0xA003
  | .date => 0xA004
  | .lastModified => 0xA005
  | .location => 0xA006
  | .setCookie => 0xA007
  | .setCookie2 => 0xA008
  | .servletEngine => 0xA009
  | .status => 0xA00A
  | .wwwAuthenticate => 0xA00B
  | .raw => 0

/-- The name of a header, by its code or spelled out. -/
def ajpAppendName (h : AjpResponseHeader) : List UInt8 :=
  let code := encodedHeaderCode h.code
  if code ≠ 0 then ajpAppendUint16 code
  else ajpAppendString (h.rawName.getD (ascii "X-Custom"))

/-- A header. -/
def ajpAppendHeader (h : AjpResponseHeader) : List UInt8 :=
  ajpAppendName h ++ ajpAppendString h.value

/-- The payload of the `SEND_HEADERS` packet. -/
def sendHeadersPayload (hdr : AjpSendHeaders) : List UInt8 :=
  ajpAppendUint8 0x04 ++ ajpAppendUint16 (statusFromCode hdr.status) ++
    ajpAppendString (hdr.statusMsg.getD (ascii "OK")) ++
    ajpAppendUint16 (UInt16.ofNat hdr.headers.length) ++
    hdr.headers.flatMap ajpAppendHeader

/-- The payload of a `SEND_BODY_CHUNK` packet. -/
def bodyChunkPayload (data : List UInt8) : List UInt8 :=
  ajpAppendUint8 0x03 ++ ajpAppendUint16 (UInt16.ofNat data.length) ++ data ++ [0]

/-- The payload of the `END_RESPONSE` packet. -/
def endResponsePayload (reuse : Bool) : List UInt8 :=
  ajpAppendUint8 0x05 ++ ajpAppendUint8 (if reuse then 1 else 0)

/-- `BuildAjpResponse`. -/
def buildAjpResponse (resp : AjpResponse) : List UInt8 :=
  (if resp.sendCpong.getD false then ajpWrapPacket (ajpAppendUint8 0x09) else []) ++
    ajpWrapPacket (sendHeadersPayload resp.sendHeaders) ++
    (resp.bodyChunks.flatMap fun chunk =>
      if chunk.data.isEmpty then [] else ajpWrapPacket (bodyChunkPayload chunk.data)) ++
    ajpWrapPacket (endResponsePayload (resp.reuse.getD true))

end Apatchy
