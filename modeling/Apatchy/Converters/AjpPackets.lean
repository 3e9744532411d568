import Apatchy.Converters.Ajp
import Mathlib.Algebra.BigOperators.Group.List.Basic

/-!
# The packets the AJP converter sends

What an AJP13 reader makes of the bytes of `Apatchy.buildAjpResponse`. The reader
(`Apatchy.readPacket`) takes packets from a container apart: the magic, a length, a
payload, and in it a message whose strings carry their length and end with a NUL.
A header name is a code or a string, told apart by the first byte: a word that
begins with `0xA0` is a code.

`Apatchy.buildAjpResponse_packets`: the reader consumes everything and finds the
messages that the response stands for (`Apatchy.AjpResponse.meaning`). It takes
that payloads fit their 16-bit length, and that no raw name is long enough for its
length to pass for a code.
-/

namespace Apatchy

open Reader

/-! ### Reading packets -/

/-- **A header name**, as it was sent. -/
inductive AjpName
  | coded (name : List UInt8)
  | raw (name : List UInt8)
deriving DecidableEq, Repr

/-- **A message from a container**, once read. -/
inductive AjpMessage
  | sendBodyChunk (data : List UInt8)
  | sendHeaders (status : ℕ) (statusMsg : List UInt8) (headers : List (AjpName × List UInt8))
  | endResponse (reuse : Bool)
  | getBodyChunk (requested : ℕ)
  | cpong
deriving DecidableEq, Repr

/-- The response headers that AJP13 has codes for. -/
def responseHeaderName (code : ℕ) : Option (List UInt8) :=
  match code with
  | 0xA001 => some (ascii "Content-Type")
  | 0xA002 => some (ascii "Content-Language")
  | 0xA003 => some (ascii "Content-Length")
  | 0xA004 => some (ascii "Date")
  | 0xA005 => some (ascii "Last-Modified")
  | 0xA006 => some (ascii "Location")
  | 0xA007 => some (ascii "Set-Cookie")
  | 0xA008 => some (ascii "Set-Cookie2")
  | 0xA009 => some (ascii "Servlet-Engine")
  | 0xA00A => some (ascii "Status")
  | 0xA00B => some (ascii "WWW-Authenticate")
  | _ => none

/-- The NUL that ends a string or a chunk. -/
def readNul : Reader Unit := do
  let nul ← word 1
  ofOption (if nul = 0 then some () else none)

/-- A string: its length, its bytes, and a NUL. -/
def readString : Reader (List UInt8) := do
  let length ← word 2
  let s ← bytes length
  readNul
  return s

/-- A header name, by its code or spelled out. -/
def readName : Reader AjpName := do
  let front ← peek 2
  if ofBigEndian front / 256 = 0xA0 then
    let code ← word 2
    let name ← ofOption (responseHeaderName code)
    return .coded name
  else
    let name ← readString
    return .raw name

/-- A header. -/
def readHeader : Reader (AjpName × List UInt8) := do
  let name ← readName
  let value ← readString
  return (name, value)

/-- The fields of a `SEND_HEADERS` message. -/
def readSendHeaders : Reader AjpMessage := do
  let status ← word 2
  let statusMsg ← readString
  let count ← word 2
  let headers ← times readHeader count
  return .sendHeaders status statusMsg headers

/-- The fields of a `SEND_BODY_CHUNK` message. -/
def readSendBodyChunk : Reader AjpMessage := do
  let data ← readString
  return .sendBodyChunk data

/-- **A message**, by its type. -/
def readMessage : Reader AjpMessage := do
  let type ← word 1
  match type with
  | 3 => readSendBodyChunk
  | 4 => readSendHeaders
  | 5 => word 1 >>= fun reuse => pure (.endResponse (reuse ≠ 0))
  | 6 => word 2 >>= fun requested => pure (.getBodyChunk requested)
  | 9 => pure .cpong
  | _ => ofOption none

/-- **A packet**: the magic, a length, and a message that is exactly that long. -/
def readPacket : Reader AjpMessage := do
  let magic ← bytes 2
  ofOption (if magic = [0x41, 0x42] then some () else none)
  let length ← word 2
  let payload ← bytes length
  ofOption (whole readMessage payload)

/-! ### What the response stands for -/

/-- The number a status is known by. -/
def AjpResponseCode.number : AjpResponseCode → ℕ
  | .ok200 => 200
  | .created201 => 201
  | .redirect301 => 301
  | .redirect302 => 302
  | .notModified304 => 304
  | .badRequest400 => 400
  | .unauthorized401 => 401
  | .forbidden403 => 403
  | .notFound404 => 404
  | .serverError500 => 500
  | .badGateway502 => 502
  | .serviceUnavailable503 => 503

/-- The names of the headers that have a code. -/
def AjpEncodedHeader.known : AjpEncodedHeader → Option (List UInt8)
  | .contentType => some (ascii "Content-Type")
  | .contentLanguage => some (ascii "Content-Language")
  | .contentLength => some (ascii "Content-Length")
  | .date => some (ascii "Date")
  | .lastModified => some (ascii "Last-Modified")
  | .location => some (ascii "Location")
  | .setCookie => some (ascii "Set-Cookie")
  | .setCookie2 => some (ascii "Set-Cookie2")
  | .servletEngine => some (ascii "Servlet-Engine")
  | .status => some (ascii "Status")
  | .wwwAuthenticate => some (ascii "WWW-Authenticate")
  | .raw => none

/-- The name of a header: by its code if it has one, and otherwise spelled out. -/
def AjpResponseHeader.name (h : AjpResponseHeader) : AjpName :=
  match h.code.known with
  | some name => .coded name
  | none => .raw (h.rawName.getD (ascii "X-Custom"))

/-- The head of a response, as a message. -/
def AjpSendHeaders.meaning (hdr : AjpSendHeaders) : AjpMessage :=
  .sendHeaders hdr.status.number (hdr.statusMsg.getD (ascii "OK"))
    (hdr.headers.map fun h => (h.name, h.value))

/-- **The messages a response stands for.** -/
def AjpResponse.meaning (resp : AjpResponse) : List AjpMessage :=
  (if resp.sendCpong.getD false then [.cpong] else []) ++ [resp.sendHeaders.meaning] ++
    ((resp.bodyChunks.map AjpBodyChunk.data).filter (· ≠ [])).map .sendBodyChunk ++
    [.endResponse (resp.reuse.getD true)]

/-! ### Strings -/

theorem reads_uint16 {n : ℕ} (h : n < 65536) :
    Reads (word 2) (ajpAppendUint16 (UInt16.ofNat n)) n := by
  have hnat : (UInt16.ofNat n).toNat = n := by
    rw [UInt16.toNat_ofNat']
    exact Nat.mod_eq_of_lt h
  rw [ajpAppendUint16, octets16_eq, hnat]
  exact reads_word h

theorem reads_nul : Reads readNul [0] () :=
  (reads_byte 0).bind (reads_ofOption ())

theorem reads_string {s : List UInt8} (h : s.length < 65536) :
    Reads readString (ajpAppendString s) s := by
  have happend : ajpAppendString s =
      ajpAppendUint16 (UInt16.ofNat s.length) ++ (s ++ ([0] ++ [])) := by simp [ajpAppendString]
  rw [happend]
  exact (reads_uint16 h).bind ((reads_bytes s rfl).bind (reads_nul.bind (Reads.pure s)))

/-! ### Headers -/

/-- A header that has a name of its own has a code, and the reader knows it. -/
theorem encodedHeaderCode_of_known {code : AjpEncodedHeader} {name : List UInt8}
    (h : code.known = some name) :
    encodedHeaderCode code ≠ 0 ∧ (encodedHeaderCode code).toNat / 256 = 0xA0 ∧
      responseHeaderName (encodedHeaderCode code).toNat = some name := by
  rw [← h]
  cases code
  case raw => simp [AjpEncodedHeader.known] at h
  all_goals exact ⟨by decide, by decide, by decide⟩

theorem encodedHeaderCode_of_not_known {code : AjpEncodedHeader} (h : code.known = none) :
    code = .raw := by
  cases code <;> first | rfl | exact absurd h (by decide)

theorem reads_codedName {code : UInt16} {name : List UInt8} (hhigh : code.toNat / 256 = 0xA0)
    (hname : responseHeaderName code.toNat = some name) :
    Reads readName (ajpAppendUint16 code) (.coded name) := by
  have hcode : Reads (word 2) (ajpAppendUint16 code) code.toNat := by
    rw [ajpAppendUint16, octets16_eq]
    exact reads_word code.toNat_lt
  have hfront : ofBigEndian (ajpAppendUint16 code) = code.toNat := by
    rw [ajpAppendUint16, octets16_eq]
    exact ofBigEndian_bigEndian_of_lt code.toNat_lt
  rw [readName, ← List.append_nil (ajpAppendUint16 code)]
  refine Reads.peek rfl ?_
  rw [hfront, if_pos hhigh]
  refine hcode.bind ?_
  rw [hname]
  exact (reads_ofOption name).map

theorem reads_rawName {name : List UInt8} (h : name.length < 0xA000) :
    Reads readName (ajpAppendString name) (.raw name) := by
  have hstring := (reads_string (lt_trans h (by decide))).map (f := AjpName.raw)
  have hfront : ofBigEndian (ajpAppendUint16 (UInt16.ofNat name.length)) = name.length := by
    rw [ajpAppendUint16, octets16_eq, UInt16.toNat_ofNat', Nat.mod_eq_of_lt (by omega)]
    exact ofBigEndian_bigEndian_of_lt (by omega)
  rw [ajpAppendString, List.append_assoc] at hstring ⊢
  refine Reads.peek rfl ?_
  -- a length below `0xA000` does not look like a code
  rw [hfront, if_neg (by omega)]
  exact hstring

theorem reads_name (h : AjpResponseHeader)
    (hraw : h.code = .raw → ∀ name, h.rawName = some name → name.length < 0xA000) :
    Reads readName (ajpAppendName h) h.name := by
  rw [ajpAppendName, AjpResponseHeader.name]
  rcases hknown : h.code.known with _ | name
  · have hcode : h.code = .raw := encodedHeaderCode_of_not_known hknown
    rw [hcode, if_neg (by decide)]
    refine reads_rawName ?_
    rcases hname : h.rawName with _ | name
    · decide
    · exact hraw hcode name hname
  · obtain ⟨hne, hhigh, hname⟩ := encodedHeaderCode_of_known hknown
    rw [if_pos hne]
    exact reads_codedName hhigh hname

theorem reads_header (h : AjpResponseHeader)
    (hraw : h.code = .raw → ∀ name, h.rawName = some name → name.length < 0xA000)
    (hvalue : h.value.length < 65536) :
    Reads readHeader (ajpAppendHeader h) (h.name, h.value) :=
  (reads_name h hraw).bind (reads_string hvalue).map

/-! ### Messages -/

/-- A payload that fits 16 bits keeps every count and length in it below them: a
header takes a byte at least, and its value is a part of it. -/
theorem sendHeaders_sizes {hdr : AjpSendHeaders}
    (hsize : (sendHeadersPayload hdr).length < 65536) :
    (hdr.statusMsg.getD (ascii "OK")).length < 65536 ∧ hdr.headers.length < 65536 ∧
      ∀ h ∈ hdr.headers, h.value.length < 65536 := by
  have hvalue : ∀ h, h.value.length + 1 ≤ (ajpAppendHeader h).length := by
    intro h
    simp [ajpAppendHeader, ajpAppendString]
    omega
  have hmem : ∀ h ∈ hdr.headers,
      (ajpAppendHeader h).length ≤ (hdr.headers.flatMap ajpAppendHeader).length :=
    fun h hh => (List.sublist_flatten_of_mem (List.mem_map_of_mem hh)).length_le
  -- no header is empty, so there are no more headers than bytes
  have hcount : hdr.headers.length ≤ (hdr.headers.flatMap ajpAppendHeader).length := by
    rw [List.length_flatMap, ← List.length_map (fun h => (ajpAppendHeader h).length)]
    refine List.length_le_sum_of_one_le _ fun n hn => ?_
    obtain ⟨h, -, rfl⟩ := List.mem_map.mp hn
    exact (Nat.le_add_left 1 _).trans (hvalue h)
  have hparts : (hdr.statusMsg.getD (ascii "OK")).length +
      (hdr.headers.flatMap ajpAppendHeader).length < 65536 := by
    simp only [sendHeadersPayload, ajpAppendString, List.length_append] at hsize
    omega
  refine ⟨by omega, by omega, fun h hh => ?_⟩
  have hle := (hvalue h).trans (hmem h hh)
  omega

/-- The head of a response is read back. -/
theorem readMessage_sendHeaders (hdr : AjpSendHeaders)
    (hsize : (sendHeadersPayload hdr).length < 65536)
    (hraw : ∀ h ∈ hdr.headers, h.code = .raw →
      ∀ name, h.rawName = some name → name.length < 0xA000) :
    whole readMessage (sendHeadersPayload hdr) = some hdr.meaning := by
  obtain ⟨hmsg, hcount, hvalues⟩ := sendHeaders_sizes hsize
  have hstatus : Reads (word 2) (ajpAppendUint16 (statusFromCode hdr.status))
      hdr.status.number := by
    have hnumber : (statusFromCode hdr.status).toNat = hdr.status.number := by
      cases hdr.status <;> rfl
    rw [ajpAppendUint16, octets16_eq, ← hnumber]
    exact reads_word (statusFromCode hdr.status).toNat_lt
  have hheaders := reads_times (p := readHeader) _ _ fun h hh =>
    reads_header h (hraw h hh) (hvalues h hh)
  simp only [sendHeadersPayload, List.append_assoc]
  exact whole_of_reads ((reads_byte 0x04).bind (hstatus.bind ((reads_string hmsg).bind
    ((reads_uint16 hcount).bind hheaders.map))))

theorem readMessage_bodyChunk {data : List UInt8} (hsize : (bodyChunkPayload data).length < 65536) :
    whole readMessage (bodyChunkPayload data) = some (.sendBodyChunk data) := by
  have hlength : data.length < 65536 := by
    simp [bodyChunkPayload] at hsize
    omega
  have happend : bodyChunkPayload data = [0x03] ++ ajpAppendString data := by
    simp [bodyChunkPayload, ajpAppendUint8, ajpAppendString]
  rw [happend]
  exact whole_of_reads ((reads_byte 0x03).bind (reads_string hlength).map)

theorem readMessage_endResponse (reuse : Bool) :
    whole readMessage (endResponsePayload reuse) = some (.endResponse reuse) := by
  cases reuse <;> decide

/-! ### Packets -/

theorem reads_packet {payload : List UInt8} {m : AjpMessage} (hsize : payload.length < 65536)
    (hpayload : whole readMessage payload = some m) :
    Reads readPacket (ajpWrapPacket payload) m := by
  have happend : ajpWrapPacket payload =
      [0x41, 0x42] ++ ([] ++ (ajpAppendUint16 (UInt16.ofNat payload.length) ++
        (payload ++ []))) := by simp [ajpWrapPacket]
  rw [happend]
  refine (reads_bytes [0x41, 0x42] rfl).bind ((reads_ofOption ()).bind
    ((reads_uint16 hsize).bind ((reads_bytes payload rfl).bind ?_)))
  rw [hpayload]
  exact reads_ofOption m

/-- The packets of a response: each payload, beside the message it is. -/
def AjpResponse.packets (resp : AjpResponse) : List (List UInt8 × AjpMessage) :=
  (if resp.sendCpong.getD false then [(ajpAppendUint8 0x09, .cpong)] else []) ++
    [(sendHeadersPayload resp.sendHeaders, resp.sendHeaders.meaning)] ++
    (((resp.bodyChunks.map AjpBodyChunk.data).filter (· ≠ [])).map fun data =>
      (bodyChunkPayload data, .sendBodyChunk data)) ++
    [(endResponsePayload (resp.reuse.getD true), .endResponse (resp.reuse.getD true))]

theorem buildAjpResponse_eq (resp : AjpResponse) :
    buildAjpResponse resp = resp.packets.flatMap fun p => ajpWrapPacket p.1 := by
  have hchunks : ∀ chunks : List AjpBodyChunk,
      (chunks.flatMap fun chunk =>
        if chunk.data.isEmpty then [] else ajpWrapPacket (bodyChunkPayload chunk.data)) =
      (((chunks.map AjpBodyChunk.data).filter (· ≠ [])).flatMap fun data =>
        ajpWrapPacket (bodyChunkPayload data)) := by
    intro chunks
    induction chunks with
    | nil => rfl
    | cons chunk chunks ih =>
      rw [List.flatMap_cons, ih, List.map_cons, List.filter_cons]
      rcases hdata : chunk.data with _ | ⟨b, bs⟩ <;> simp
  rw [buildAjpResponse, hchunks]
  rcases hcpong : resp.sendCpong.getD false with _ | _ <;>
    simp [AjpResponse.packets, hcpong, List.flatMap_map]

theorem packets_meaning (resp : AjpResponse) :
    (resp.packets.map fun p => p.2) = resp.meaning := by
  rcases hcpong : resp.sendCpong.getD false with _ | _ <;>
    simp [AjpResponse.packets, AjpResponse.meaning, hcpong]

/-- **The bytes of an AJP response are read back**: with nothing left over, the
messages that the response stands for, in order. -/
theorem buildAjpResponse_packets (resp : AjpResponse)
    (hhead : (sendHeadersPayload resp.sendHeaders).length < 65536)
    (hbody : ∀ chunk ∈ resp.bodyChunks, (bodyChunkPayload chunk.data).length < 65536)
    (hraw : ∀ h ∈ resp.sendHeaders.headers, h.code = .raw →
      ∀ name, h.rawName = some name → name.length < 0xA000) :
    items readPacket (buildAjpResponse resp) = some resp.meaning := by
  have hpackets : ∀ p ∈ resp.packets,
      p.1.length < 65536 ∧ whole readMessage p.1 = some p.2 := by
    intro p hp
    simp only [AjpResponse.packets, List.mem_append, List.mem_singleton, List.mem_map,
      List.mem_filter] at hp
    -- the probe, the head, a chunk or the end
    rcases hp with ((hp | rfl) | ⟨data, ⟨⟨chunk, hchunk, rfl⟩, -⟩, rfl⟩) | rfl
    · split at hp
      · rw [List.mem_singleton.mp hp]
        exact ⟨by decide, by decide⟩
      · exact absurd hp List.not_mem_nil
    · exact ⟨hhead, readMessage_sendHeaders _ hhead hraw⟩
    · exact ⟨hbody chunk hchunk, readMessage_bodyChunk (hbody chunk hchunk)⟩
    · exact ⟨by simp [endResponsePayload, ajpAppendUint8], readMessage_endResponse _⟩
  rw [buildAjpResponse_eq, ← packets_meaning, ← List.filterMap_eq_map']
  refine items_flatMap _ _ fun p hp => Or.inr ⟨?_, _, rfl, ?_⟩
  · simp [ajpWrapPacket]
  · exact reads_packet (hpackets p hp).1 (hpackets p hp).2

/-- A response with a coded header and a raw one without a name, two chunks of
which one is empty, and a probe answered first. -/
theorem buildAjpResponse_packets_four :
    items readPacket (buildAjpResponse
        ⟨⟨.notFound404, none, [⟨.contentType, none, [97]⟩, ⟨.raw, none, []⟩]⟩,
          [⟨[]⟩, ⟨[98, 99]⟩], some false, some true⟩) =
      some [.cpong,
        .sendHeaders 404 (ascii "OK")
          [(.coded (ascii "Content-Type"), [97]), (.raw (ascii "X-Custom"), [])],
        .sendBodyChunk [98, 99], .endResponse false] :=
  buildAjpResponse_packets
    ⟨⟨.notFound404, none, [⟨.contentType, none, [97]⟩, ⟨.raw, none, []⟩]⟩,
      [⟨[]⟩, ⟨[98, 99]⟩], some false, some true⟩ (by decide) (by decide) (by simp)

end Apatchy
