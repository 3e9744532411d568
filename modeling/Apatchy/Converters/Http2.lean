import Apatchy.Converters.Message

/-!
# The HTTP/2 converter

The message `Http2Request` and the bytes `BuildHttp2Request` makes of it
(`Apatchy.buildHttp2Request`): the connection preface, and each frame in turn
(`Apatchy.writeFrame`) – a header of nine bytes and a payload whose layout depends
on the frame's type.

The source tests the variants of the `oneof` one after the other. At most one of
them is set, so here the tests are the cases of `Apatchy.H2FrameBody`, in the
source's order.
-/

namespace Apatchy

/-! ### The message -/

/-- The settings a frame may set. -/
inductive H2SettingId
  | headerTableSize
  | enablePush
  | maxConcurrentStreams
  | initialWindowSize
  | maxFrameSize
  | maxHeaderListSize
deriving DecidableEq, Repr

/-- One setting and its value. -/
structure H2Setting where
  /-- Which setting. -/
  id : H2SettingId
  /-- Its value. -/
  value : UInt32

/-- A `HEADERS` frame. -/
structure H2HeadersFrame where
  /-- The headers of the block. -/
  headers : List Header := []
  /-- Whether the stream ends here. -/
  endStream : Option Bool := none
  /-- The stream depended on, when the frame carries a priority. -/
  priorityDep : Option UInt32 := none
  /-- The weight of that dependency. -/
  priorityWeight : Option UInt32 := none

/-- A `DATA` frame. -/
structure H2DataFrame where
  /-- The bytes. -/
  data : List UInt8
  /-- Whether the stream ends here. -/
  endStream : Option Bool := none

/-- A `SETTINGS` frame. -/
structure H2SettingsFrame where
  /-- The settings. -/
  settings : List H2Setting := []
  /-- Whether it acknowledges the peer's settings. -/
  ack : Option Bool := none

/-- A `WINDOW_UPDATE` frame. -/
structure H2WindowUpdateFrame where
  /-- The window increment. -/
  increment : UInt32

/-- A `RST_STREAM` frame. -/
structure H2RstStreamFrame where
  /-- The reason. -/
  errorCode : UInt32

/-- A `GOAWAY` frame. -/
structure H2GoawayFrame where
  /-- The last stream that was processed. -/
  lastStreamId : UInt32
  /-- The reason. -/
  errorCode : UInt32
  /-- Anything else. -/
  debugData : Option (List UInt8) := none

/-- A `PING` frame. -/
structure H2PingFrame where
  /-- The opaque bytes. -/
  data : Option (List UInt8) := none
  /-- Whether it answers a ping. -/
  ack : Option Bool := none

/-- A `PRIORITY` frame. -/
structure H2PriorityFrame where
  /-- The stream depended on. -/
  depStreamId : UInt32
  /-- Whether the dependency is exclusive. -/
  exclusive : Option Bool := none
  /-- The weight of the dependency. -/
  weight : Option UInt32 := none

/-- A `CONTINUATION` frame. -/
structure H2ContinuationFrame where
  /-- The headers of the block. -/
  headers : List Header := []
  /-- Whether the block ends here. -/
  endHeaders : Option Bool := none

/-- The `oneof` of a frame. -/
inductive H2FrameBody
  | settings (sf : H2SettingsFrame)
  | data (df : H2DataFrame)
  | headers (hf : H2HeadersFrame)
  | windowUpdate (wf : H2WindowUpdateFrame)
  | rstStream (rf : H2RstStreamFrame)
  | goaway (gf : H2GoawayFrame)
  | ping (pf : H2PingFrame)
  | priority (pf : H2PriorityFrame)
  | continuation (cf : H2ContinuationFrame)

/-- A frame, with or without a variant set. -/
structure H2Frame where
  /-- The variant that is set. -/
  frame : Option H2FrameBody := none
  /-- The stream it is sent on. -/
  streamId : Option UInt32 := none

/-- A connection's worth of HTTP/2. -/
structure Http2Request where
  /-- The frames, in order. -/
  frames : List H2Frame := []
  /-- What to send in place of the preface. -/
  rawPreface : Option (List UInt8) := none

/-! ### Writing -/

/-- `H2_PREFACE`: what a client sends first. -/
def h2Preface : List UInt8 := ascii "PRI * HTTP/2.0\r\n\r\nSM\r\n\r\n"

/-- `WriteU16`. -/
def writeU16 (v : UInt16) : List UInt8 := octets16 v

/-- `WriteU32`. -/
def writeU32 (v : UInt32) : List UInt8 := octets32 0xff v

/-- `WriteFrameHeader`: the length on three bytes, and the top bit of the stream
id cleared. -/
def writeFrameHeader (length : UInt32) (type flags : UInt8) (streamId : UInt32) : List UInt8 :=
  octets24 length ++ [type, flags] ++ octets32 0x7f streamId

/-- `WriteHpackHeaders`: one literal per header that has a name. -/
def writeHpackHeaders (headers : List Header) : List UInt8 :=
  headers.flatMap fun hdr =>
    if hdr.name.isEmpty then []
    else
      [0x00, UInt8.ofNat (hdr.name.length &&& 0x7f)] ++ hdr.name ++
        [UInt8.ofNat (hdr.value.length &&& 0x7f)] ++ hdr.value

/-- The `switch` of `BuildSettingsPayload`. -/
def settingId : H2SettingId → UInt16
  | .headerTableSize => 0x1
  | .enablePush => 0x2
  | .maxConcurrentStreams => 0x3
  | .initialWindowSize => 0x4
  | .maxFrameSize => 0x5
  | .maxHeaderListSize => 0x6

/-- `BuildSettingsPayload`. -/
def buildSettingsPayload (sf : H2SettingsFrame) : List UInt8 :=
  sf.settings.flatMap fun s => writeU16 (settingId s.id) ++ writeU32 s.value

/-- A weight is sent on one byte, and is 16 when the message has none. -/
def weightByte (weight : Option UInt32) : UInt8 :=
  match weight with
  | some w => (w &&& 0xff).toUInt8
  | none => 16

/-- The `char payload[8]` of a ping: zeros, with up to eight bytes of the data
copied over them. -/
def pingPayload (data : Option (List UInt8)) : List UInt8 :=
  match data with
  | some data =>
    let len := if data.length < 8 then data.length else 8
    data.take len ++ List.replicate (8 - len) 0
  | none => List.replicate 8 0

/-- The flags of `HEADERS`. -/
def headersFlags (endStream hasPriorityDep : Bool) : UInt8 :=
  let flags : UInt8 := 0x04 -- END_HEADERS
  let flags := if endStream then flags ||| 0x01 else flags
  if hasPriorityDep then flags ||| 0x20 else flags

/-- The payload of `HEADERS`: the priority, if the message has one, and the header
block. -/
def headersPayload (hf : H2HeadersFrame) : List UInt8 :=
  (match hf.priorityDep with
    | some dep => writeU32 dep ++ [weightByte hf.priorityWeight]
    | none => []) ++ writeHpackHeaders hf.headers

/-- The payload of `GOAWAY`. -/
def goawayPayload (gf : H2GoawayFrame) : List UInt8 :=
  writeU32 gf.lastStreamId ++ writeU32 gf.errorCode ++
    (match gf.debugData with
      | some debugData => debugData
      | none => [])

/-- The payload of `PRIORITY`. -/
def priorityPayload (pf : H2PriorityFrame) : List UInt8 :=
  let dep := if pf.exclusive.getD false then pf.depStreamId ||| 0x80000000 else pf.depStreamId
  writeU32 dep ++ [weightByte pf.weight]

/-- `std::string::size`, where a 32-bit length is wanted. -/
def size (payload : List UInt8) : UInt32 := UInt32.ofNat payload.length

/-- `WriteFrame`. A frame without a variant writes nothing. -/
def writeFrame (f : H2Frame) : List UInt8 :=
  let streamId := f.streamId.getD 0
  match f.frame with
  | some (.settings sf) =>
    let flags := if sf.ack.getD false then 0x01 else 0x00
    -- an acknowledgement has no payload, whatever settings it has
    if sf.ack.getD false then writeFrameHeader 0 0x04 flags 0
    else
      let payload := buildSettingsPayload sf
      writeFrameHeader (size payload) 0x04 flags 0 ++ payload
  | some (.data df) =>
    let flags := if df.endStream.getD true then 0x01 else 0x00
    writeFrameHeader (size df.data) 0x00 flags streamId ++ df.data
  | some (.headers hf) =>
    let flags := headersFlags (hf.endStream.getD false) hf.priorityDep.isSome
    let payload := headersPayload hf
    writeFrameHeader (size payload) 0x01 flags streamId ++ payload
  | some (.windowUpdate wf) =>
    let payload := writeU32 (wf.increment &&& 0x7fffffff)
    writeFrameHeader (size payload) 0x08 0x00 streamId ++ payload
  | some (.rstStream rf) =>
    let payload := writeU32 rf.errorCode
    writeFrameHeader (size payload) 0x03 0x00 streamId ++ payload
  | some (.goaway gf) =>
    let payload := goawayPayload gf
    writeFrameHeader (size payload) 0x07 0x00 0 ++ payload
  | some (.ping pf) =>
    let flags := if pf.ack.getD false then 0x01 else 0x00
    writeFrameHeader 8 0x06 flags 0 ++ pingPayload pf.data
  | some (.priority pf) =>
    let payload := priorityPayload pf
    writeFrameHeader (size payload) 0x02 0x00 streamId ++ payload
  | some (.continuation cf) =>
    let flags := if cf.endHeaders.getD true then 0x04 else 0x00
    let payload := writeHpackHeaders cf.headers
    writeFrameHeader (size payload) 0x09 flags streamId ++ payload
  | none => []

/-- `BuildHttp2Request`. -/
def buildHttp2Request (req : Http2Request) : List UInt8 :=
  (match req.rawPreface with
    | some rawPreface => rawPreface
    | none => h2Preface) ++ req.frames.flatMap writeFrame

end Apatchy
