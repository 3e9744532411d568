import Apatchy.Converters.Http2

/-!
# The frames the HTTP/2 converter sends

What RFC 9113 makes of the bytes of `Apatchy.buildHttp2Request`. The reader is
written from the RFC and knows nothing of the converter: the nine bytes of a frame
header (`Apatchy.readFrame`), and a payload laid out as the frame's type and flags
say (`Apatchy.readPayload`), padding and reserved bits included. It stops at the
layout of frames: which frames a stream may carry, and in which order, is the
business of httpd.

`Apatchy.buildHttp2Request_frames`: after the preface, the reader consumes
everything and finds one frame for each frame of the message that has a variant,
and each is what the message asks for (`Apatchy.H2Frame.meaning`). The one
condition is that payloads fit the 24 bits of their length.
-/

namespace Apatchy

open Reader

/-! ### Reading frames -/

/-- **What a frame says**, once read. Words are numbers, and the flags that a type
defines are named. -/
inductive H2Payload
  | data (endStream : Bool) (bytes : List UInt8)
  | headers (endStream endHeaders : Bool) (priority : Option (ℕ × ℕ)) (block : List UInt8)
  | priority (dependency weight : ℕ)
  | rstStream (errorCode : ℕ)
  | settings (pairs : List (ℕ × ℕ))
  | settingsAck
  | pushPromise (endHeaders : Bool) (promised : ℕ) (block : List UInt8)
  | ping (ack : Bool) (bytes : List UInt8)
  | goaway (lastStream errorCode : ℕ) (debugData : List UInt8)
  | windowUpdate (increment : ℕ)
  | continuation (endHeaders : Bool) (block : List UInt8)
  | unknown (type flags : ℕ) (bytes : List UInt8)
deriving DecidableEq, Repr

/-- A frame, once read. -/
structure H2FrameRead where
  /-- The stream it was sent on. -/
  stream : ℕ
  /-- What it says. -/
  payload : H2Payload
deriving DecidableEq, Repr

/-- Take off the padding: with the flag `PADDED`, the first byte says how many
bytes at the end are to be ignored. -/
def unpad (flags : ℕ) (payload : List UInt8) : Option (List UInt8) :=
  if flags.testBit 3 then
    match payload with
    | [] => none
    | pad :: rest =>
      if pad.toNat ≤ rest.length then some (rest.take (rest.length - pad.toNat)) else none
  else some payload

/-- A dependency, its top bit being the exclusive flag, and its weight. -/
def readPriority : Reader (ℕ × ℕ) := do
  let dependency ← word 4
  let weight ← word 1
  return (dependency, weight)

/-- One setting. -/
def readSetting : Reader (ℕ × ℕ) := do
  let id ← word 2
  let value ← word 4
  return (id, value)

/-- A word whose top bit is reserved. -/
def word31 : Reader ℕ := do
  return (← word 4) % 2 ^ 31

/-- The fields of a `HEADERS` frame, the padding being off: with the flag
`PRIORITY` a dependency comes before the header block. -/
def readHeaders (flags : ℕ) : Reader H2Payload := do
  let priority ← if flags.testBit 5 then readPriority >>= fun p => pure (some p) else pure none
  let block ← remaining
  return .headers (flags.testBit 0) (flags.testBit 2) priority block

/-- The fields of a `PUSH_PROMISE` frame, the padding being off. -/
def readPushPromise (flags : ℕ) : Reader H2Payload := do
  let promised ← word31
  let block ← remaining
  return .pushPromise (flags.testBit 2) promised block

/-- The fields of a `GOAWAY` frame. -/
def readGoaway : Reader H2Payload := do
  let lastStream ← word31
  let errorCode ← word 4
  let debugData ← remaining
  return .goaway lastStream errorCode debugData

/-- **The payload of a frame**, by its type and flags. -/
def readPayload (type flags : ℕ) (payload : List UInt8) : Option H2Payload :=
  match type with
  | 0 => (unpad flags payload).map (.data (flags.testBit 0))
  | 1 => (unpad flags payload).bind (whole (readHeaders flags))
  | 2 => whole (readPriority >>= fun p => pure (.priority p.1 p.2)) payload
  | 3 => whole (word 4 >>= fun e => pure (.rstStream e)) payload
  | 4 =>
    if flags.testBit 0 then
      if payload = [] then some .settingsAck else none
    else (items readSetting payload).map .settings
  | 5 => (unpad flags payload).bind (whole (readPushPromise flags))
  | 6 => whole (bytes 8 >>= fun b => pure (.ping (flags.testBit 0) b)) payload
  | 7 => whole readGoaway payload
  | 8 => whole (word31 >>= fun i => pure (.windowUpdate i)) payload
  | 9 => some (.continuation (flags.testBit 2) payload)
  | _ => some (.unknown type flags payload)

/-- **A frame**: length, type, flags, stream, and a payload of that length. -/
def readFrame : Reader H2FrameRead := do
  let length ← word 3
  let type ← word 1
  let flags ← word 1
  let stream ← word31
  let payload ← bytes length
  let said ← ofOption (readPayload type flags payload)
  return ⟨stream, said⟩

/-! ### What the message asks for -/

/-- The identifiers of RFC 9113 for the settings. -/
def H2SettingId.code : H2SettingId → ℕ
  | .headerTableSize => 1
  | .enablePush => 2
  | .maxConcurrentStreams => 3
  | .initialWindowSize => 4
  | .maxFrameSize => 5
  | .maxHeaderListSize => 6

/-- The weight the message asks for. -/
def weightOf (weight : Option UInt32) : ℕ := (weight.map fun w => w.toNat % 256).getD 16

/-- **What a variant asks for.** Header blocks are those of
`Apatchy.writeHpackHeaders`. -/
def H2FrameBody.meaning : H2FrameBody → H2Payload
  | .settings sf =>
    if sf.ack.getD false then .settingsAck
    else .settings (sf.settings.map fun s => (s.id.code, s.value.toNat))
  | .data df => .data (df.endStream.getD true) df.data
  | .headers hf =>
    .headers (hf.endStream.getD false) true
      (hf.priorityDep.map fun dep => (dep.toNat, weightOf hf.priorityWeight))
      (writeHpackHeaders hf.headers)
  | .windowUpdate wf => .windowUpdate (wf.increment.toNat % 2 ^ 31)
  | .rstStream rf => .rstStream rf.errorCode.toNat
  | .goaway gf =>
    .goaway (gf.lastStreamId.toNat % 2 ^ 31) gf.errorCode.toNat (gf.debugData.getD [])
  | .ping pf => .ping (pf.ack.getD false) ((pf.data.getD [] ++ List.replicate 8 0).take 8)
  | .priority pf =>
    .priority
      (if pf.exclusive.getD false then pf.depStreamId.toNat ||| 2 ^ 31 else pf.depStreamId.toNat)
      (weightOf pf.weight)
  | .continuation cf => .continuation (cf.endHeaders.getD true) (writeHpackHeaders cf.headers)

/-- The stream that a variant is sent on. -/
def H2FrameBody.stream (streamId : Option UInt32) : H2FrameBody → ℕ
  | .settings _ => 0
  | .ping _ => 0
  | .goaway _ => 0
  | _ => (streamId.getD 0).toNat % 2 ^ 31

/-- **The frame that a frame of the message is**, if it has a variant. -/
def H2Frame.meaning (f : H2Frame) : Option H2FrameRead :=
  f.frame.map fun body => ⟨body.stream f.streamId, body.meaning⟩

/-- The payload of a variant: what its length counts. -/
def H2FrameBody.payload : H2FrameBody → List UInt8
  | .settings sf => if sf.ack.getD false then [] else buildSettingsPayload sf
  | .data df => df.data
  | .headers hf => headersPayload hf
  | .windowUpdate wf => writeU32 (wf.increment &&& 0x7fffffff)
  | .rstStream rf => writeU32 rf.errorCode
  | .goaway gf => goawayPayload gf
  | .ping pf => pingPayload pf.data
  | .priority pf => priorityPayload pf
  | .continuation cf => writeHpackHeaders cf.headers

/-! ### Words of a frame -/

theorem reads_writeU32 (v : UInt32) : Reads (word 4) (writeU32 v) v.toNat := by
  rw [writeU32, octets32_eq]
  exact reads_word v.toNat_lt

theorem reads_word31 (v : UInt32) : Reads word31 (writeU32 v) (v.toNat % 2 ^ 31) :=
  (reads_writeU32 v).map

theorem reads_weightByte (weight : Option UInt32) :
    Reads (word 1) [weightByte weight] (weightOf weight) := by
  have hbyte : (weightByte weight).toNat = weightOf weight := by
    rcases weight with _ | w
    · rfl
    · simp [weightByte, weightOf, and_0xff]
  rw [← hbyte]
  exact reads_byte _

/-- A dependency and its weight, as `HEADERS` and `PRIORITY` carry them. -/
theorem reads_priority (dep : UInt32) (weight : Option UInt32) :
    Reads readPriority (writeU32 dep ++ [weightByte weight]) (dep.toNat, weightOf weight) :=
  (reads_writeU32 dep).bind (reads_weightByte weight).map

theorem reads_setting (s : H2Setting) :
    Reads readSetting (writeU16 (settingId s.id) ++ writeU32 s.value)
      (s.id.code, s.value.toNat) := by
  have hid : (settingId s.id).toNat = s.id.code := by cases s.id <;> rfl
  rw [writeU16, octets16_eq, hid]
  have hlt : s.id.code < 256 ^ 2 := by cases s.id <;> decide
  exact (reads_word hlt).bind (reads_writeU32 s.value).map

/-! ### Payloads -/

theorem readPayload_settings (sf : H2SettingsFrame) :
    readPayload 0x04 0x00 (buildSettingsPayload sf) =
      some (.settings (sf.settings.map fun s => (s.id.code, s.value.toNat))) := by
  have hitems : items readSetting (buildSettingsPayload sf) =
      some (sf.settings.filterMap fun s => some (s.id.code, s.value.toNat)) := by
    refine items_flatMap _ _ fun s _ => Or.inr ⟨?_, _, rfl, reads_setting s⟩
    simp [writeU16, octets16]
  rw [List.filterMap_eq_map'] at hitems
  simp [readPayload, hitems]

/-- The flags of `HEADERS` announce no padding, end the header block, and say what
they were given. -/
theorem testBit_headersFlags (endStream hasPriorityDep : Bool) :
    (headersFlags endStream hasPriorityDep).toNat.testBit 0 = endStream ∧
      (headersFlags endStream hasPriorityDep).toNat.testBit 2 = true ∧
      (headersFlags endStream hasPriorityDep).toNat.testBit 3 = false ∧
      (headersFlags endStream hasPriorityDep).toNat.testBit 5 = hasPriorityDep := by
  revert endStream hasPriorityDep
  decide

theorem readPayload_headers (hf : H2HeadersFrame) :
    readPayload 0x01 (headersFlags (hf.endStream.getD false) hf.priorityDep.isSome).toNat
        (headersPayload hf) =
      some (.headers (hf.endStream.getD false) true
        (hf.priorityDep.map fun dep => (dep.toNat, weightOf hf.priorityWeight))
        (writeHpackHeaders hf.headers)) := by
  obtain ⟨hend, hblock, hpad, hdep⟩ :=
    testBit_headersFlags (hf.endStream.getD false) hf.priorityDep.isSome
  have hunpad : unpad (headersFlags (hf.endStream.getD false) hf.priorityDep.isSome).toNat
      (headersPayload hf) = some (headersPayload hf) := by simp [unpad, hpad]
  rw [readPayload, hunpad, Option.bind_some]
  refine whole_of_readsAll ?_
  have hread := readsAll_remaining (writeHpackHeaders hf.headers)
  rw [readHeaders, headersPayload, hend, hblock, hdep]
  rcases hf.priorityDep with _ | dep
  · exact (Reads.pure none).bindAll hread.map
  · exact (reads_priority dep hf.priorityWeight).map.bindAll hread.map

theorem readPayload_goaway (gf : H2GoawayFrame) :
    readPayload 0x07 0x00 (goawayPayload gf) =
      some (.goaway (gf.lastStreamId.toNat % 2 ^ 31) gf.errorCode.toNat
        (gf.debugData.getD [])) := by
  obtain ⟨lastStreamId, errorCode, debugData⟩ := gf
  rw [goawayPayload, List.append_assoc, readPayload, readGoaway]
  refine whole_of_readsAll ((reads_word31 lastStreamId).bindAll
    ((reads_writeU32 errorCode).bindAll ?_))
  rcases debugData with _ | debugData
  · exact (readsAll_remaining []).map
  · exact (readsAll_remaining debugData).map

/-- **A ping carries eight bytes**: its data, cut or filled with zeros. -/
theorem pingPayload_eq (data : Option (List UInt8)) :
    pingPayload data = (data.getD [] ++ List.replicate 8 0).take 8 := by
  rcases data with _ | data
  · rfl
  · rw [pingPayload, Option.getD_some, List.take_append, List.take_replicate]
    rcases lt_or_ge data.length 8 with hlt | hge
    · simp [hlt, List.take_of_length_le hlt.le]
    · simp [not_lt.mpr hge, Nat.sub_eq_zero_of_le hge]

theorem length_pingPayload (data : Option (List UInt8)) : (pingPayload data).length = 8 := by
  simp [pingPayload_eq]

theorem readPayload_ping (pf : H2PingFrame) (flags : ℕ) :
    readPayload 0x06 flags (pingPayload pf.data) =
      some (.ping (flags.testBit 0) ((pf.data.getD [] ++ List.replicate 8 0).take 8)) := by
  rw [← pingPayload_eq]
  exact whole_of_reads (reads_bytes _ (length_pingPayload pf.data)).map

theorem readPayload_windowUpdate (wf : H2WindowUpdateFrame) :
    readPayload 0x08 0x00 (writeU32 (wf.increment &&& 0x7fffffff)) =
      some (.windowUpdate (wf.increment.toNat % 2 ^ 31)) := by
  have hmask : (wf.increment &&& 0x7fffffff).toNat % 2 ^ 31 = wf.increment.toNat % 2 ^ 31 := by
    have hand := Nat.and_two_pow_sub_one_eq_mod wf.increment.toNat 31
    simp only [Nat.reducePow, Nat.add_one_sub_one] at hand
    simp [hand]
  rw [← hmask]
  exact whole_of_reads (reads_word31 _).map

theorem readPayload_priority (pf : H2PriorityFrame) :
    readPayload 0x02 0x00 (priorityPayload pf) =
      some (.priority
        (if pf.exclusive.getD false then pf.depStreamId.toNat ||| 2 ^ 31 else pf.depStreamId.toNat)
        (weightOf pf.weight)) := by
  have hread := fun dep => whole_of_reads ((reads_priority dep pf.weight).map
    (f := fun p => H2Payload.priority p.1 p.2))
  rw [priorityPayload]
  rcases pf.exclusive.getD false with _ | _
  · exact hread pf.depStreamId
  · exact hread (pf.depStreamId ||| 0x80000000)

/-! ### Frames -/

/-- **A frame is read back** when its payload is one that its type and flags
allow. -/
theorem reads_frame {payload : List UInt8} {type flags : UInt8} {streamId : UInt32}
    {said : H2Payload} (hsize : payload.length < 2 ^ 24)
    (hpayload : readPayload type.toNat flags.toNat payload = some said) :
    Reads readFrame (writeFrameHeader (size payload) type flags streamId ++ payload)
      ⟨streamId.toNat % 2 ^ 31, said⟩ := by
  -- the length is a 32-bit word of which 24 bits are sent
  have hlength : Reads (word 3) (octets24 (size payload)) payload.length := by
    have hnat : (size payload).toNat = payload.length := by
      rw [size, UInt32.toNat_ofNat']
      exact Nat.mod_eq_of_lt (lt_trans hsize (by decide))
    rw [octets24_eq, hnat]
    exact reads_word hsize
  have hstream : Reads word31 (octets32 0x7f streamId) (streamId.toNat % 2 ^ 31) := by
    have hlt : streamId.toNat % 2 ^ 31 < 256 ^ 4 := by omega
    have hword := (reads_word hlt).map (f := (· % 2 ^ 31))
    rwa [Nat.mod_mod, ← octets32_reserved] at hword
  have hsaid : Reads (ofOption (readPayload type.toNat flags.toNat payload)) [] said := by
    rw [hpayload]
    exact reads_ofOption said
  have happend : writeFrameHeader (size payload) type flags streamId ++ payload =
      octets24 (size payload) ++ ([type] ++ ([flags] ++ (octets32 0x7f streamId ++
        (payload ++ [])))) := by simp [writeFrameHeader]
  rw [happend]
  refine hlength.bind ((reads_byte type).bind ((reads_byte flags).bind (hstream.bind
    ((reads_bytes payload rfl).bind ?_))))
  exact hsaid.map

/-- **What `WriteFrame` writes**: a header that counts the payload and names the
stream, and a payload that its type and flags allow and that says what the message
asks for. -/
theorem writeFrame_eq (body : H2FrameBody) (streamId : Option UInt32) :
    ∃ (type flags : UInt8) (stream : UInt32),
      writeFrame ⟨some body, streamId⟩ =
          writeFrameHeader (size body.payload) type flags stream ++ body.payload ∧
        stream.toNat % 2 ^ 31 = body.stream streamId ∧
        readPayload type.toNat flags.toNat body.payload = some body.meaning := by
  -- one case for each variant, in the order of the `oneof`
  rcases body with sf | df | hf | wf | rf | gf | pf | pf | cf
  · -- an acknowledgement has no payload, whatever settings the message lists
    rcases hack : sf.ack.getD false with _ | _
    · refine ⟨0x04, 0x00, 0, ?_, rfl, ?_⟩
      · simp [writeFrame, H2FrameBody.payload, hack]
      · simpa [H2FrameBody.payload, H2FrameBody.meaning, hack] using readPayload_settings sf
    · refine ⟨0x04, 0x01, 0, ?_, rfl, ?_⟩
      · simp [writeFrame, H2FrameBody.payload, hack, size]
      · simp [H2FrameBody.payload, H2FrameBody.meaning, hack, readPayload]
  · refine ⟨0x00, _, _, rfl, rfl, ?_⟩
    rw [H2FrameBody.payload, H2FrameBody.meaning]
    rcases df.endStream.getD true with _ | _ <;> rfl
  · exact ⟨0x01, _, _, rfl, rfl, readPayload_headers hf⟩
  · exact ⟨0x08, 0x00, _, rfl, rfl, readPayload_windowUpdate wf⟩
  · exact ⟨0x03, 0x00, _, rfl, rfl, whole_of_reads (reads_writeU32 rf.errorCode).map⟩
  · exact ⟨0x07, 0x00, 0, rfl, rfl, readPayload_goaway gf⟩
  · have hsize : size (pingPayload pf.data) = 8 := by simp [size, length_pingPayload]
    refine ⟨0x06, if pf.ack.getD false then 0x01 else 0x00, 0, ?_, rfl, ?_⟩
    · rw [H2FrameBody.payload, hsize]
      rfl
    · rw [H2FrameBody.payload, H2FrameBody.meaning]
      rcases pf.ack.getD false with _ | _ <;> exact readPayload_ping pf _
  · exact ⟨0x02, 0x00, _, rfl, rfl, readPayload_priority pf⟩
  · refine ⟨0x09, _, _, rfl, rfl, ?_⟩
    rw [H2FrameBody.payload, H2FrameBody.meaning]
    rcases cf.endHeaders.getD true with _ | _ <;> rfl

/-- **Every variant is read back** as what the message asks for. -/
theorem reads_writeFrame (body : H2FrameBody) (streamId : Option UInt32)
    (hsize : body.payload.length < 2 ^ 24) :
    Reads readFrame (writeFrame ⟨some body, streamId⟩) ⟨body.stream streamId, body.meaning⟩ := by
  obtain ⟨type, flags, stream, hwrite, hstream, hsaid⟩ := writeFrame_eq body streamId
  rw [hwrite, ← hstream]
  exact reads_frame hsize hsaid

/-- **The bytes of an HTTP/2 request are read back**: the preface, and then, with
nothing left over, one frame for each frame of the message that has a variant, in
order, on its stream, with its flags and its fields. -/
theorem buildHttp2Request_frames (req : Http2Request)
    (hsize : ∀ f ∈ req.frames, ∀ body, f.frame = some body → body.payload.length < 2 ^ 24) :
    ∃ wire, buildHttp2Request req = req.rawPreface.getD h2Preface ++ wire ∧
      items readFrame wire = some (req.frames.filterMap H2Frame.meaning) := by
  refine ⟨req.frames.flatMap writeFrame, ?_, ?_⟩
  · rw [buildHttp2Request]
    cases req.rawPreface <;> rfl
  · refine items_flatMap writeFrame H2Frame.meaning fun f hf => ?_
    obtain ⟨frame, streamId⟩ := f
    rcases frame with _ | body
    · exact Or.inl ⟨rfl, rfl⟩
    · refine Or.inr ⟨?_, _, rfl, reads_writeFrame body streamId (hsize _ hf body rfl)⟩
      obtain ⟨type, flags, stream, hwrite, -⟩ := writeFrame_eq body streamId
      simp [hwrite, writeFrameHeader, octets24]

/-- The client preface has 24 bytes. -/
example : h2Preface.length = 24 := by decide

/-- An acknowledgement, a frame without a variant, and a ping that is cut. -/
theorem buildHttp2Request_frames_two :
    ∃ wire, buildHttp2Request
        ⟨[⟨some (.settings ⟨[], some true⟩), some 7⟩, ⟨none, none⟩,
          ⟨some (.ping ⟨some [1, 2, 3, 4, 5, 6, 7, 8, 9], none⟩), none⟩], none⟩ =
        h2Preface ++ wire ∧
      items readFrame wire =
        some [⟨0, .settingsAck⟩, ⟨0, .ping false [1, 2, 3, 4, 5, 6, 7, 8]⟩] :=
  buildHttp2Request_frames
    ⟨[⟨some (.settings ⟨[], some true⟩), some 7⟩, ⟨none, none⟩,
      ⟨some (.ping ⟨some [1, 2, 3, 4, 5, 6, 7, 8, 9], none⟩), none⟩], none⟩
    (by
      intro f hf body hbody
      simp only [List.mem_cons, List.not_mem_nil, or_false] at hf
      rcases hf with rfl | rfl | rfl <;> cases hbody <;> decide)

end Apatchy
