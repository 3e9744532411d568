import Apatchy.Foundations.Machine
import Apatchy.Harness.Brigade

/-!
# The input filter of the harness

`fuzz_common.c` feeds one fuzz input to httpd as one connection.
`fuzz_one_input` puts the input in the globals `g_input_data` and
`g_input_size`, `fuzz_pre_connection` installs `fuzz_input_filter` on the
connection with an empty brigade of its own, and httpd then reads through the
filter in whatever modes it likes. On its first read the filter loads the global
input into its brigade; every later read is served from there.

* `Apatchy.fuzzInputFilter` – the filter, one call at a time;
* `Apatchy.inputFilter` – the filter as an `Apatchy.Machine`, whose runs are the
  sequences of calls of one connection;
* `Apatchy.fuzzOneInput`, `Apatchy.fuzzHarness` – one input, and a whole fuzzing
  session.

What httpd asks for is not the harness's to choose, so the calls of a connection
are an input of `Apatchy.fuzzOneInput`. A reply records the buckets a call adds
at the tail of the caller's brigade, every store to that brigade being an
insertion there.
-/

namespace Apatchy

/-! ### State -/

/-- `HUGE_STRING_LEN`, httpd's limit on a line. -/
def hugeStringLen : ℕ := 8192

/-- The globals that hold the input of the current connection. -/
structure FuzzGlobals where
  /-- `g_input_data`, `none` being the null pointer. -/
  gInputData : Option (List UInt8) := none
  /-- `g_input_size`. -/
  gInputSize : ℕ := 0
  /-- `g_input_offset`. -/
  gInputOffset : ℕ := 0
  deriving DecidableEq

/-- `fuzz_net_rec`, the context of the filter on one connection. -/
structure FuzzNetRec where
  /-- `eos_sent`. -/
  eosSent : Bool := false
  /-- `bb`, the internal brigade. -/
  bb : List Bucket := []
  deriving DecidableEq

/-- What a call of the filter reads and writes: the globals, and the context of
its connection. -/
structure ConnState where
  /-- The globals of the harness. -/
  globals : FuzzGlobals
  /-- The context of the filter. -/
  net : FuzzNetRec
  deriving DecidableEq

/-- `ap_input_mode_t`; a value outside the enumeration keeps its number. -/
inductive ApInputMode where
  /-- `AP_MODE_READBYTES`. -/
  | readbytes : ApInputMode
  /-- `AP_MODE_GETLINE`. -/
  | getline : ApInputMode
  /-- `AP_MODE_EATCRLF`. -/
  | eatcrlf : ApInputMode
  /-- `AP_MODE_SPECULATIVE`. -/
  | speculative : ApInputMode
  /-- `AP_MODE_EXHAUSTIVE`. -/
  | exhaustive : ApInputMode
  /-- `AP_MODE_INIT`. -/
  | init : ApInputMode
  /-- Any other value. -/
  | other (value : ℕ) : ApInputMode
  deriving DecidableEq

/-- The arguments of a call of the filter. -/
structure FilterCall where
  /-- What kind of read. -/
  mode : ApInputMode
  /-- Whether the caller is willing to wait. -/
  block : AprReadType := .blockRead
  /-- How many bytes, in the mode that counts them. -/
  readbytes : ℤ := 0
  deriving DecidableEq

/-- What a call of the filter answers: its status, and the buckets it adds to
the caller's brigade. -/
structure FilterReply where
  /-- The status returned. -/
  status : AprStatus
  /-- The buckets inserted at the tail of the caller's brigade. -/
  out : List Bucket := []
  deriving DecidableEq

/-! ### The filter -/

/-- The first read of a connection: load the global input, followed by the
end-of-stream bucket, and forget the global. -/
def populate (st : ConnState) : ConnState :=
  match st.globals.gInputData with
  | none => st
  | some data =>
    if 0 < st.globals.gInputSize ∧ st.net.bb = [] then
      { globals := { st.globals with gInputData := none, gInputSize := 0 }
        net := { st.net with bb := [.heap (data.take st.globals.gInputSize), .eos] } }
    else st

/-- The copies `AP_MODE_SPECULATIVE` hands out: bucket by bucket, up to the
end-of-stream bucket or the first that cannot be copied. -/
def speculativeCopies (apr : Apr) : List Bucket → List Bucket
  | [] => []
  | e :: es =>
    match apr.bucketCopy e with
    | none => []
    | some copy => copy :: if e = .eos then [] else speculativeCopies apr es

/-- The part of the filter that reads a nonempty internal brigade. -/
def serve (apr : Apr) (net : FuzzNetRec) (c : FilterCall) : FilterReply × FuzzNetRec :=
  match c.mode with
  | .getline =>
    let (rv, moved, rest) := apr.brigadeSplitLine net.bb c.block hugeStringLen
    let rv := if rv = .eagain ∧ c.block = .nonblockRead then .success else rv
    (⟨rv, moved⟩, { net with bb := rest })
  | .readbytes =>
    if 0 < c.readbytes then
      let (rv, bb, b) := apr.brigadePartition net.bb c.readbytes
      -- `APR_INCOMPLETE` is neither, and is returned as an error
      if rv ≠ .success ∧ rv ≠ .eof then (⟨rv, []⟩, { net with bb := bb })
      else (⟨.success, bb.take b⟩, { net with bb := bb.drop b })
    else (⟨.success, net.bb⟩, { net with bb := [] })
  | .speculative => (⟨.success, speculativeCopies apr net.bb⟩, net)
  | .exhaustive => (⟨.success, net.bb⟩, { net with bb := [] })
  | _ => (⟨.enotimpl, []⟩, net)

/-- **`fuzz_input_filter`.** -/
def fuzzInputFilter (apr : Apr) (st : ConnState) (c : FilterCall) : FilterReply × ConnState :=
  if c.mode = .init then (⟨.success, []⟩, st)
  else if st.net.eosSent then (⟨.eof, []⟩, st)
  else
    let st := populate st
    -- everything was read, the end-of-stream bucket included
    if st.net.bb = [] then (⟨.eof, []⟩, { st with net := { st.net with eosSent := true } })
    else
      let (reply, net) := serve apr st.net c
      (reply, { st with net := net })

/-- The filter of one connection, as a machine. -/
def inputFilter (apr : Apr) : Machine ConnState FilterCall FilterReply where
  step := fuzzInputFilter apr

/-! ### Connections -/

/-- What the harness sets in a `conn_rec` that its hooks look at: the notes. -/
structure ConnRec where
  /-- `notes`. -/
  notes : List (String × String)

/-- `fuzz_pre_connection`: connections of the fuzz client get the filter, with an
empty brigade; the others are declined. -/
def fuzzPreConnection (c : ConnRec) : Option FuzzNetRec :=
  if (c.notes.lookup "fuzz_client").isNone then none
  else some { eosSent := false, bb := [] }

/-- The connection `fuzz_one_input` makes. -/
def fuzzClient : ConnRec := ⟨[("fuzz_client", "1")]⟩

/-- The globals once `fuzz_one_input` has stored its input there. -/
def loadedGlobals (data : List UInt8) : FuzzGlobals :=
  { gInputData := some data, gInputSize := data.length, gInputOffset := 0 }

/-- **`fuzz_one_input`**: one connection over one input, on which httpd makes the
given calls. -/
def fuzzOneInput (apr : Apr) (g : FuzzGlobals) (data : List UInt8) (calls : List FilterCall) :
    List FilterReply × FuzzGlobals :=
  if data.length = 0 then ([], g)
  else
    match fuzzPreConnection fuzzClient with
    | none => ([], { loadedGlobals data with gInputData := none, gInputSize := 0 })
    | some net =>
      let (replies, st) := (inputFilter apr).run ⟨loadedGlobals data, net⟩ calls
      (replies, { st.globals with gInputData := none, gInputSize := 0 })

/-- A fuzzing session: one `fuzz_one_input` after another, the globals being
kept in between. -/
def fuzzHarness (apr : Apr) :
    Machine FuzzGlobals (List UInt8 × List FilterCall) (List FilterReply) where
  step g i := fuzzOneInput apr g i.1 i.2

/-- The state a connection starts from. -/
def connStart (data : List UInt8) : ConnState := ⟨loadedGlobals data, {}⟩

/-- The state of a connection after some calls. -/
def stateAfter (apr : Apr) (data : List UInt8) (calls : List FilterCall) : ConnState :=
  ((inputFilter apr).run (connStart data) calls).2

/-- What a call answers on a connection on which some calls were made before. -/
def replyAfter (apr : Apr) (data : List UInt8) (calls : List FilterCall) (c : FilterCall) :
    FilterReply :=
  (fuzzInputFilter apr (stateAfter apr data calls) c).1

theorem fuzzOneInput_eq (apr : Apr) (g : FuzzGlobals) {data : List UInt8} (hne : data ≠ [])
    (calls : List FilterCall) :
    (fuzzOneInput apr g data calls).1 = ((inputFilter apr).run (connStart data) calls).1 := by
  have hlen : data.length ≠ 0 := by simpa using hne
  simp [fuzzOneInput, hlen, fuzzPreConnection, fuzzClient, connStart]

theorem stateAfter_concat (apr : Apr) (data : List UInt8) (calls : List FilterCall)
    (c : FilterCall) :
    stateAfter apr data (calls ++ [c]) =
      (fuzzInputFilter apr (stateAfter apr data calls) c).2 := by
  simp [stateAfter, Machine.run_concat, inputFilter]

/-! ### What is still held -/

/-- The input not loaded yet. -/
def pendingBytes (g : FuzzGlobals) : List UInt8 :=
  match g.gInputData with
  | none => []
  | some data => data.take g.gInputSize

/-- **The bytes still held**: those of the internal brigade, then the input not
loaded yet. -/
def heldBytes (st : ConnState) : List UInt8 := bytesOf st.net.bb ++ pendingBytes st.globals

/-- Nothing is left to read, not even the end-of-stream bucket: the brigade is
empty, and there is no input to load. -/
def Drained (st : ConnState) : Prop :=
  st.net.bb = [] ∧ (st.globals.gInputData = none ∨ st.globals.gInputSize = 0)

instance (st : ConnState) : Decidable (Drained st) := inferInstanceAs (Decidable (_ ∧ _))

/-- **The bytes a call moves out**, in the three modes that consume. -/
def movedBytes (c : FilterCall) (r : FilterReply) : List UInt8 :=
  match c.mode with
  | .getline | .readbytes | .exhaustive => bytesOf r.out
  | _ => []

/-- The bytes a sequence of calls moves out of a connection. -/
def movedOut (apr : Apr) (data : List UInt8) (calls : List FilterCall) : List UInt8 :=
  ((inputFilter apr).trace (connStart data) calls).flatMap fun e => movedBytes e.input e.answer

theorem populate_of_none {st : ConnState} (h : st.globals.gInputData = none) :
    populate st = st := by
  simp [populate, h]

/-- Loading the input moves it from the global to the brigade. -/
@[simp] theorem heldBytes_populate (st : ConnState) : heldBytes (populate st) = heldBytes st := by
  rcases hg : st.globals.gInputData with _ | data
  · rw [populate_of_none hg]
  · rw [populate, hg]
    by_cases hload : 0 < st.globals.gInputSize ∧ st.net.bb = []
    · simp [hload, heldBytes, pendingBytes, hg]
    · simp [hload]

@[simp] theorem eosSent_populate (st : ConnState) :
    (populate st).net.eosSent = st.net.eosSent := by
  rcases hg : st.globals.gInputData with _ | data
  · rw [populate_of_none hg]
  · rw [populate, hg]
    by_cases hload : 0 < st.globals.gInputSize ∧ st.net.bb = [] <;> simp [hload]

/-- Loading twice is loading once. -/
@[simp] theorem populate_populate (st : ConnState) : populate (populate st) = populate st := by
  rcases hg : st.globals.gInputData with _ | data
  · rw [populate_of_none hg, populate_of_none hg]
  · by_cases hload : 0 < st.globals.gInputSize ∧ st.net.bb = []
    · have hnone : (populate st).globals.gInputData = none := by simp [populate, hg, hload]
      exact populate_of_none hnone
    · have hst : populate st = st := by simp [populate, hg, hload]
      rw [hst, hst]

theorem drained_iff (st : ConnState) : Drained st ↔ (populate st).net.bb = [] := by
  rcases hg : st.globals.gInputData with _ | data
  · simp [Drained, populate_of_none hg, hg]
  · by_cases hload : 0 < st.globals.gInputSize ∧ st.net.bb = []
    · simp [Drained, populate, hg, hload, Nat.ne_of_gt hload.1]
    · simp only [Drained, populate, hg, hload]
      simp only [reduceCtorEq, false_or, if_false, and_iff_left_iff_imp]
      intro hbb
      by_contra hsize
      exact hload ⟨Nat.pos_of_ne_zero hsize, hbb⟩

theorem heldBytes_of_drained {st : ConnState} (h : Drained st) : heldBytes st = [] := by
  obtain ⟨hbb, hg | hsize⟩ := h
  · simp [heldBytes, pendingBytes, hbb, hg]
  · cases hg : st.globals.gInputData <;> simp [heldBytes, pendingBytes, hbb, hg, hsize]

/-! ### What one call does -/

/-- **The calls of the filter, one by one**: an `INIT`, a call on a connection
whose end was reported, a call that finds nothing to read, and a call that is
served from the brigade. -/
theorem fuzzInputFilter_cases (apr : Apr) (st : ConnState) (c : FilterCall) :
    (c.mode = .init ∧ fuzzInputFilter apr st c = (⟨.success, []⟩, st)) ∨
    (c.mode ≠ .init ∧ st.net.eosSent = true ∧
      fuzzInputFilter apr st c = (⟨.eof, []⟩, st)) ∨
    (c.mode ≠ .init ∧ st.net.eosSent = false ∧ (populate st).net.bb = [] ∧
      fuzzInputFilter apr st c = (⟨.eof, []⟩,
        { populate st with net := { (populate st).net with eosSent := true } })) ∨
    (c.mode ≠ .init ∧ st.net.eosSent = false ∧ (populate st).net.bb ≠ [] ∧
      fuzzInputFilter apr st c = ((serve apr (populate st).net c).1,
        { populate st with net := (serve apr (populate st).net c).2 })) := by
  by_cases hinit : c.mode = .init
  · exact Or.inl ⟨hinit, by simp [fuzzInputFilter, hinit]⟩
  · rcases hsent : st.net.eosSent with _ | _
    · by_cases hbb : (populate st).net.bb = []
      · exact Or.inr (Or.inr (Or.inl ⟨hinit, rfl, hbb, by
          simp [fuzzInputFilter, hinit, hsent, hbb]⟩))
      · exact Or.inr (Or.inr (Or.inr ⟨hinit, rfl, hbb, by
          simp [fuzzInputFilter, hinit, hsent, hbb]⟩))
    · exact Or.inr (Or.inl ⟨hinit, rfl, by simp [fuzzInputFilter, hinit, hsent]⟩)

/-- The end of the stream is recorded by the filter itself, never by a read. -/
theorem eosSent_serve (apr : Apr) (net : FuzzNetRec) (c : FilterCall) :
    (serve apr net c).2.eosSent = net.eosSent := by
  rw [serve]
  cases c.mode <;> simp only
  all_goals split_ifs <;> rfl

section Serve

variable {apr : Apr} (hapr : apr.Lawful) (net : FuzzNetRec) (c : FilterCall)
include hapr

/-- `READBYTES` of more bytes than the brigade holds: an error, and nothing
moves. -/
theorem serve_readbytes_gt (hmode : c.mode = .readbytes) (hpos : 0 < c.readbytes)
    (hgt : (bytesOf net.bb).length < c.readbytes) :
    serve apr net c = (⟨.incomplete, []⟩, net) := by
  simp [serve, hmode, hpos, hapr.partition_gt _ _ hpos hgt]

/-- `READBYTES` of bytes the brigade holds: they are moved out. -/
theorem serve_readbytes_le (hmode : c.mode = .readbytes) (hpos : 0 < c.readbytes)
    (hle : c.readbytes ≤ (bytesOf net.bb).length) :
    (serve apr net c).1.status = .success ∧
      bytesOf (serve apr net c).1.out = (bytesOf net.bb).take c.readbytes.toNat ∧
      bytesOf (serve apr net c).1.out ++ bytesOf (serve apr net c).2.bb = bytesOf net.bb := by
  obtain ⟨hstatus, hfront, hall⟩ := hapr.partition_le _ _ hpos hle
  rcases hpart : apr.brigadePartition net.bb c.readbytes with ⟨rv, bb, b⟩
  simp only [hpart] at hstatus hfront hall
  have hserve : serve apr net c = (⟨.success, bb.take b⟩, { net with bb := bb.drop b }) := by
    simp [serve, hmode, hpos, hpart, hstatus]
  rw [hserve]
  refine ⟨rfl, hfront, ?_⟩
  rw [← bytesOf_append, List.take_append_drop, hall]

/-- **A read loses no byte**: what it moves out and what it leaves are what was
there. -/
theorem bytesOf_serve :
    movedBytes c (serve apr net c).1 ++ bytesOf (serve apr net c).2.bb = bytesOf net.bb := by
  rcases hmode : c.mode with _ | _ | _ | _ | _ | _ | value
  · by_cases hpos : 0 < c.readbytes
    · rcases lt_or_ge ((bytesOf net.bb).length : ℤ) c.readbytes with hgt | hle
      · simp [serve_readbytes_gt hapr net c hmode hpos hgt, movedBytes, hmode]
      · simpa [movedBytes, hmode] using (serve_readbytes_le hapr net c hmode hpos hle).2.2
    · simp [serve, movedBytes, hmode, hpos]
  · simp [serve, movedBytes, hmode, hapr.splitLine_bytes]
  all_goals simp [serve, movedBytes, hmode]

/-- A read that does not consume, or that fails, leaves the brigade as it was. -/
theorem serve_frame (h : c.mode = .speculative ∨ (serve apr net c).1.status ≠ .success) :
    (serve apr net c).2 = net := by
  rcases hmode : c.mode with _ | _ | _ | _ | _ | _ | value
  · by_cases hpos : 0 < c.readbytes
    · rcases lt_or_ge ((bytesOf net.bb).length : ℤ) c.readbytes with hgt | hle
      · rw [serve_readbytes_gt hapr net c hmode hpos hgt]
      · have hok := (serve_readbytes_le hapr net c hmode hpos hle).1
        simp [hmode, hok] at h
    · simp [serve, hmode, hpos] at h
  · simp [serve, hmode, hapr.splitLine_status] at h
  all_goals simp [serve, hmode] at h ⊢

/-- A read of a nonempty brigade never reports the end of the stream. -/
theorem serve_status_ne_eof : (serve apr net c).1.status ≠ .eof := by
  rcases hmode : c.mode with _ | _ | _ | _ | _ | _ | value
  · by_cases hpos : 0 < c.readbytes
    · rcases lt_or_ge ((bytesOf net.bb).length : ℤ) c.readbytes with hgt | hle
      · simp [serve_readbytes_gt hapr net c hmode hpos hgt]
      · simp [(serve_readbytes_le hapr net c hmode hpos hle).1]
    · simp [serve, hmode, hpos]
  · simp [serve, hmode, hapr.splitLine_status]
  all_goals simp [serve, hmode]

end Serve

end Apatchy
