import Apatchy.Harness.InputFilter

/-!
# The fuzzed backend

`fuzz_backend.c` plays the servers that `mod_proxy` connects to. The harness puts the
response in the globals `g_backend_buf` and `g_backend_size`; every backend connection gets
a filter with a brigade and an end flag of its own (`apatchy_pre_connection`), and the first
connection that is read takes the response over into its brigade
(`apatchy_input_filter_cb`). Any number of connections may be read in any order: the whole
is a machine whose inputs are new connections and calls of the filter on them
(`Apatchy.fuzzBackend`).

`Apatchy.fuzzBackend_deliversOnce`: over every sequence of line and byte reads, the response
is delivered on the connection whose read loaded it, and on no other
(`Apatchy.DeliveredOnce`). A state in which one connection has the response is
`Apatchy.Owned`, a step from such a state is one of `Apatchy.owned_step`, and a whole run is
`Apatchy.ReadsOut`.
-/

namespace Apatchy

/-! ### The filter -/

/-- The globals of `fuzz_backend.c` that the filter looks at. -/
structure BackendGlobals where
  /-- `g_backend_enabled`. -/
  gBackendEnabled : Bool := false
  /-- `g_backend_buf`, `none` being the null pointer. -/
  gBackendBuf : Option (List UInt8) := none
  /-- `g_backend_size`. -/
  gBackendSize : ℕ := 0
  deriving DecidableEq

/-- `apatchy_ctx_t`, the context of the filter on one connection. -/
structure ApatchyCtx where
  /-- `bb`. -/
  bb : List Bucket := []
  /-- `is_eos`. -/
  isEos : Bool := false
  deriving DecidableEq

/-- The response is moved from the globals to a brigade that is empty. -/
def loadBackend (g : BackendGlobals) (ctx : ApatchyCtx) : BackendGlobals × ApatchyCtx :=
  match g.gBackendBuf with
  | none => (g, ctx)
  | some buf =>
    if 0 < g.gBackendSize ∧ ctx.bb = [] then
      ({ g with gBackendBuf := none, gBackendSize := 0 },
        { ctx with bb := ctx.bb ++ [.heap (buf.take g.gBackendSize), .eos] })
    else (g, ctx)

/-- The part of the filter that reads a brigade that is not empty. -/
def serveBackend (apr : Apr) (bb : List Bucket) (c : FilterCall) : FilterReply × List Bucket :=
  match c.mode with
  | .getline =>
    let (rc, moved, rest) := apr.brigadeSplitLine bb c.block hugeStringLen
    (⟨rc, moved⟩, rest)
  | .readbytes =>
    if 0 < c.readbytes then
      let (rc, bb, e) := apr.brigadePartition bb c.readbytes
      if rc ≠ .success ∧ rc ≠ .eof ∧ rc ≠ .incomplete then (⟨rc, []⟩, bb)
      else (⟨.success, bb.take e⟩, bb.drop e)
    else (⟨.success, []⟩, bb)
  -- the other modes move nothing and report no error
  | _ => (⟨.success, []⟩, bb)

/-- **`apatchy_input_filter_cb`.** -/
def apatchyInputFilter (apr : Apr) (g : BackendGlobals) (ctx : ApatchyCtx) (c : FilterCall) :
    FilterReply × BackendGlobals × ApatchyCtx :=
  if c.mode = .init then (⟨.success, []⟩, g, ctx)
  else if ctx.isEos then (⟨.eof, []⟩, g, ctx)
  else
    -- the response goes to the connection that reads first
    let (g, ctx) := loadBackend g ctx
    if ctx.bb = [] then (⟨.eof, []⟩, g, { ctx with isEos := true })
    else
      let (reply, bb) := serveBackend apr ctx.bb c
      (reply, g, { ctx with bb := bb })

/-- `apatchy_pre_connection`: where the backend is fuzzed, a connection that is not the fuzz
client's gets the filter; the others are declined. -/
def apatchyPreConnection (g : BackendGlobals) (c : ConnRec) : Option ApatchyCtx :=
  if ¬ g.gBackendEnabled then none
  else if (c.notes.lookup "fuzz_client").isSome then none
  else some { bb := [], isEos := false }

/-! ### The connections of a run -/

/-- The globals, and the contexts of the connections with the filter, in the order in which
they were made. -/
structure BackendState where
  /-- The globals. -/
  globals : BackendGlobals
  /-- The contexts. -/
  conns : List ApatchyCtx := []
  deriving DecidableEq

/-- What happens: a connection is made, or one is read. -/
inductive BackendEvent where
  /-- httpd runs the pre-connection hooks. -/
  | connect (c : ConnRec) : BackendEvent
  /-- The filter of the connection with this number is called. -/
  | read (k : ℕ) (c : FilterCall) : BackendEvent

/-- One event; a connection that has no filter is not read through it. -/
def backendStep (apr : Apr) (s : BackendState) : BackendEvent → Option FilterReply × BackendState
  | .connect c =>
    match apatchyPreConnection s.globals c with
    | none => (none, s)
    | some ctx => (none, { s with conns := s.conns ++ [ctx] })
  | .read k c =>
    match s.conns[k]? with
    | none => (none, s)
    | some ctx =>
      let (reply, g, ctx) := apatchyInputFilter apr s.globals ctx c
      (some reply, { globals := g, conns := s.conns.set k ctx })

/-- **The fuzzed backend**, as a machine. -/
def fuzzBackend (apr : Apr) : Machine BackendState BackendEvent (Option FilterReply) where
  step := backendStep apr

/-- The state in which a response has been placed. -/
def placedResponse (enabled : Bool) (data : List UInt8) : BackendState where
  globals := { gBackendEnabled := enabled, gBackendBuf := some data, gBackendSize := data.length }

/-! ### What a run delivers -/

/-- An entry of a run of the backend. -/
abbrev BackendEntry := Machine.Entry BackendState BackendEvent (Option FilterReply)

/-- A call that reads a line, or a positive number of bytes. -/
def FilterCall.Reads (c : FilterCall) : Prop :=
  c.mode = .getline ∨ c.mode = .readbytes ∧ 0 < c.readbytes

/-- Connections are read by lines and by bytes. -/
def BackendEvent.Reads : BackendEvent → Prop
  | .connect _ => True
  | .read _ c => c.Reads

/-- What was answered to the reader of a connection, if it was that one that was read. -/
def replyOn (k : ℕ) (e : BackendEntry) : Option FilterReply :=
  match e.input with
  | .connect _ => none
  | .read k' _ => if k' = k then e.answer else none

/-- The bytes delivered on a connection. -/
def deliveredOn (k : ℕ) (tr : List BackendEntry) : List UInt8 :=
  tr.flatMap fun e => ((replyOn k e).map fun r => bytesOf r.out).getD []

/-- How many calls on a connection did not report the end. -/
def servedOn (k : ℕ) (tr : List BackendEntry) : ℕ :=
  tr.countP fun e => (replyOn k e).any fun r => r.status ≠ .eof

/-- The brigade of a connection. -/
def brigadeOf (k : ℕ) (s : BackendState) : List Bucket :=
  (s.conns[k]?.map ApatchyCtx.bb).getD []

/-- The brigade that a read of a connection finds: the response, if that read loads it. -/
def brigadeRead (k : ℕ) (s : BackendState) : List Bucket :=
  (s.conns[k]?.map fun ctx => (loadBackend s.globals ctx).2.bb).getD []

/-- A read of a connection loads the response. -/
def Loads (k : ℕ) (e : BackendEntry) : Prop :=
  (replyOn k e).isSome ∧ e.pre.globals.gBackendBuf.isSome ∧ e.post.globals.gBackendBuf = none

/-- **The response is delivered whole and once**, on one connection. -/
structure DeliveredOnce (data : List UInt8) (k₀ : ℕ) (tr : List BackendEntry) : Prop where
  /-- Nothing is delivered elsewhere. -/
  elsewhere : ∀ k ≠ k₀, deliveredOn k tr = []
  /-- What is delivered is the response from its first byte on. -/
  begins : deliveredOn k₀ tr <+: data
  /-- A call that does not report the end is a success, and takes a front part of the
  brigade. -/
  moves : ∀ e ∈ tr, ∀ r ∈ replyOn k₀ e, r.status ≠ .eof →
    r.status = .success ∧ Behind (brigadeRead k₀ e.pre) (brigadeOf k₀ e.post)
  /-- Once the end is reported, the response was delivered. -/
  whole : (∃ e ∈ tr, ∃ r ∈ replyOn k₀ e, r.status = .eof) → deliveredOn k₀ tr = data
  /-- The end is reported at the latest when each byte and both buckets were read. -/
  ends : servedOn k₀ tr ≤ data.length + 2

@[simp] theorem deliveredOn_nil (k : ℕ) : deliveredOn k [] = [] := rfl

@[simp] theorem deliveredOn_cons (k : ℕ) (e : BackendEntry) (tr : List BackendEntry) :
    deliveredOn k (e :: tr) =
      ((replyOn k e).map fun r => bytesOf r.out).getD [] ++ deliveredOn k tr := by
  simp [deliveredOn]

@[simp] theorem servedOn_cons (k : ℕ) (e : BackendEntry) (tr : List BackendEntry) :
    servedOn k (e :: tr) =
      servedOn k tr + if (replyOn k e).any fun r => r.status ≠ .eof then 1 else 0 := by
  simp only [servedOn, List.countP_cons]

/-! ### One call -/

/-- **What a read does to the brigade it finds**: it reports the end of an empty one, and
otherwise moves a front part out. -/
inductive TakesFrom : List Bucket → FilterReply → List Bucket → Prop where
  /-- There is nothing left. -/
  | ended : TakesFrom [] ⟨.eof, []⟩ []
  /-- A front part is moved out. -/
  | moved {bb bb' : List Bucket} {r : FilterReply} (hstatus : r.status = .success)
      (hbehind : Behind bb bb') (hbytes : bytesOf r.out ++ bytesOf bb' = bytesOf bb) :
      TakesFrom bb r bb'

theorem TakesFrom.bytes {bb bb' : List Bucket} {r : FilterReply} (h : TakesFrom bb r bb') :
    bytesOf r.out ++ bytesOf bb' = bytesOf bb := by
  cases h with
  | ended => rfl
  | moved hstatus hbehind hbytes => exact hbytes

/-- A read reports the end of what is empty, or it is a success and makes progress. -/
theorem TakesFrom.eof_or_behind {bb bb' : List Bucket} {r : FilterReply}
    (h : TakesFrom bb r bb') :
    (r.status = .eof ∧ bb' = []) ∨ (r.status = .success ∧ Behind bb bb') := by
  cases h with
  | ended => exact Or.inl ⟨rfl, rfl⟩
  | moved hstatus hbehind hbytes => exact Or.inr ⟨hstatus, hbehind⟩

/-- The end of an empty brigade is all that is found in it. -/
theorem TakesFrom.of_nil {bb' : List Bucket} {r : FilterReply} (h : TakesFrom [] r bb') :
    r = ⟨.eof, []⟩ ∧ bb' = [] := by
  cases h with
  | ended => exact ⟨rfl, rfl⟩
  | moved hstatus hbehind hbytes =>
    have hsize := hbehind.brigadeSize_lt
    simp [brigadeSize] at hsize

theorem FilterCall.Reads.mode_ne_init {c : FilterCall} (hc : c.Reads) : c.mode ≠ .init := by
  rcases hc with hmode | ⟨hmode, -⟩ <;> simp [hmode]

section Filter

variable {apr : Apr} (hapr : apr.TakesFront) {c : FilterCall} (hc : c.Reads)
include hapr hc

/-- A read of a brigade that is not empty. -/
theorem takesFrom_serveBackend {bb : List Bucket} (hbb : bb ≠ []) :
    TakesFrom bb (serveBackend apr bb c).1 (serveBackend apr bb c).2 := by
  rcases hc with hmode | ⟨hmode, hpos⟩
  · -- a line is split off, of any bucket that is there
    have hserve : serveBackend apr bb c =
        (⟨(apr.brigadeSplitLine bb c.block hugeStringLen).1,
          (apr.brigadeSplitLine bb c.block hugeStringLen).2.1⟩,
          (apr.brigadeSplitLine bb c.block hugeStringLen).2.2) := by
      simp [serveBackend, hmode]
    rw [hserve]
    exact .moved (hapr.splitLine_status ..) (hapr.splitLine_behind _ _ _ (by decide) hbb)
      (hapr.splitLine_bytes ..)
  · rcases lt_or_ge ((bytesOf bb).length : ℤ) c.readbytes with hgt | hle
    · -- more is asked for than there is: all of it is moved out
      have hserve : serveBackend apr bb c = (⟨.success, bb⟩, []) := by
        simp [serveBackend, hmode, hpos, hapr.partition_gt _ _ hpos hgt]
      rw [hserve]
      exact .moved rfl (behind_nil hbb) (by simp)
    · -- the front is split off at the bytes asked for
      obtain ⟨hstatus, -, hall⟩ := hapr.partition_le _ _ hpos hle
      have hbehind := hapr.partition_behind _ _ hpos hle
      rcases hpart : apr.brigadePartition bb c.readbytes with ⟨rc, bb', e⟩
      rw [hpart] at hstatus hall hbehind
      obtain rfl : rc = .success := hstatus
      have hserve : serveBackend apr bb c = (⟨.success, bb'.take e⟩, bb'.drop e) := by
        simp [serveBackend, hmode, hpos, hpart]
      rw [hserve]
      refine .moved rfl hbehind ?_
      rw [← bytesOf_append, List.take_append_drop, hall]

/-- **A read where the response has been taken over**: the globals stay, and the brigade of
the connection is read. -/
theorem apatchyInputFilter_taken {g : BackendGlobals} (hg : g.gBackendBuf = none)
    {ctx : ApatchyCtx} (hctx : ctx.isEos → ctx.bb = []) :
    (apatchyInputFilter apr g ctx c).2.1 = g ∧
      ((apatchyInputFilter apr g ctx c).2.2.isEos →
        (apatchyInputFilter apr g ctx c).2.2.bb = []) ∧
      TakesFrom ctx.bb (apatchyInputFilter apr g ctx c).1
        (apatchyInputFilter apr g ctx c).2.2.bb := by
  have hinit := hc.mode_ne_init
  have hload : loadBackend g ctx = (g, ctx) := by simp [loadBackend, hg]
  rcases hend : ctx.isEos with _ | _
  · by_cases hbb : ctx.bb = []
    · simp [apatchyInputFilter, hinit, hend, hload, hbb, TakesFrom.ended]
    · simp [apatchyInputFilter, hinit, hend, hload, hbb, takesFrom_serveBackend hapr hc hbb]
  · simp [apatchyInputFilter, hinit, hend, hctx hend, TakesFrom.ended]

end Filter

/-! ### One event -/

section Event

variable {apr : Apr}

/-- **One connection has the response**: it was taken over, the brigades of the others are
empty, and so is the brigade of a connection whose end was reported. -/
structure Owned (k₀ : ℕ) (s : BackendState) : Prop where
  /-- The response was taken over. -/
  taken : s.globals.gBackendBuf = none
  /-- The other brigades are empty. -/
  others : ∀ k ≠ k₀, brigadeOf k s = []
  /-- The end is reported of empty brigades. -/
  ended : ∀ ctx ∈ s.conns, ctx.isEos → ctx.bb = []

/-- The entry of one event. -/
def entryOf (apr : Apr) (s : BackendState) (i : BackendEvent) : BackendEntry :=
  ⟨s, i, (backendStep apr s i).1, (backendStep apr s i).2⟩

/-- **What an event does to the connection that has the response**: it is not read, or it is
read. -/
structure StepOn (k₀ : ℕ) (e : BackendEntry) : Prop where
  /-- Nothing is delivered elsewhere. -/
  elsewhere : ∀ k ≠ k₀, ∀ r ∈ replyOn k e, r.out = []
  /-- On the connection its brigade is read, or left alone. -/
  here : (replyOn k₀ e = none ∧ brigadeOf k₀ e.post = brigadeRead k₀ e.pre) ∨
    ∃ r, replyOn k₀ e = some r ∧
      TakesFrom (brigadeRead k₀ e.pre) r (brigadeOf k₀ e.post)

/-- A read of a connection without the filter goes past it. -/
theorem backendStep_read_none {s : BackendState} {k : ℕ} (h : s.conns[k]? = none)
    (c : FilterCall) : backendStep apr s (.read k c) = (none, s) := by
  simp [backendStep, h]

theorem backendStep_read_some {s : BackendState} {k : ℕ} {ctx : ApatchyCtx}
    (h : s.conns[k]? = some ctx) (c : FilterCall) :
    backendStep apr s (.read k c) = (some (apatchyInputFilter apr s.globals ctx c).1,
      { globals := (apatchyInputFilter apr s.globals ctx c).2.1
        conns := s.conns.set k (apatchyInputFilter apr s.globals ctx c).2.2 }) := by
  simp [backendStep, h]

theorem brigadeOf_of_some {s : BackendState} {k : ℕ} {ctx : ApatchyCtx}
    (h : s.conns[k]? = some ctx) : brigadeOf k s = ctx.bb := by
  simp [brigadeOf, h]

/-- Where the response has been taken over, a read finds the brigade as it is. -/
theorem brigadeRead_of_taken {s : BackendState} (h : s.globals.gBackendBuf = none) (k : ℕ) :
    brigadeRead k s = brigadeOf k s := by
  simp [brigadeRead, brigadeOf, loadBackend, h]

/-- The brigade of a connection after one was written. -/
theorem brigadeOf_set {s : BackendState} {k : ℕ} {ctx : ApatchyCtx} (h : s.conns[k]? = some ctx)
    (g : BackendGlobals) (ctx' : ApatchyCtx) (k' : ℕ) :
    brigadeOf k' ⟨g, s.conns.set k ctx'⟩ = if k' = k then ctx'.bb else brigadeOf k' s := by
  have hk : k < s.conns.length := (List.getElem?_eq_some_iff.mp h).1
  by_cases hk' : k' = k
  · subst hk'
    simp [brigadeOf, hk]
  · simp [brigadeOf, hk', Ne.symm hk']

/-- A new connection leaves the brigades as they are. -/
theorem brigadeOf_connect (s : BackendState) (c : ConnRec) (k : ℕ) :
    brigadeOf k (backendStep apr s (.connect c)).2 = brigadeOf k s := by
  rcases hctx : apatchyPreConnection s.globals c with _ | ctx
  · simp [backendStep, hctx]
  · have hfresh : ctx.bb = [] := by
      simp only [apatchyPreConnection] at hctx
      split_ifs at hctx
      rw [← Option.some.inj hctx]
    simp only [backendStep, hctx, brigadeOf, List.getElem?_append]
    split_ifs with hk
    · rfl
    · have hnone : s.conns[k]? = none := List.getElem?_eq_none_iff.mpr (by omega)
      rcases k - s.conns.length with _ | j <;> simp [hnone, hfresh]

theorem replyOn_entryOf_read (s : BackendState) (k k' : ℕ) (c : FilterCall) :
    replyOn k (entryOf apr s (.read k' c)) =
      if k' = k then (backendStep apr s (.read k' c)).1 else none := rfl

/-- A connection is made: nothing is read. -/
theorem stepOn_connect {s : BackendState} {k₀ : ℕ} (hs : Owned k₀ s) (c : ConnRec) :
    StepOn k₀ (entryOf apr s (.connect c)) where
  elsewhere k _ r hr := by simp [replyOn, entryOf] at hr
  here := Or.inl ⟨rfl, (brigadeOf_connect s c k₀).trans (brigadeRead_of_taken hs.taken k₀).symm⟩

theorem Owned.connect {s : BackendState} {k₀ : ℕ} (hs : Owned k₀ s) (c : ConnRec) :
    Owned k₀ (backendStep apr s (.connect c)).2 := by
  refine ⟨?_, ?_, ?_⟩
  · rcases hctx : apatchyPreConnection s.globals c with _ | ctx <;>
      simp [backendStep, hctx, hs.taken]
  · intro k hk
    rw [brigadeOf_connect]
    exact hs.others k hk
  · intro ctx hmem hend
    rcases hnew : apatchyPreConnection s.globals c with _ | fresh
    · rw [backendStep, hnew] at hmem
      exact hs.ended ctx hmem hend
    · simp only [backendStep, hnew] at hmem
      rcases List.mem_append.mp hmem with hold | hlast
      · exact hs.ended ctx hold hend
      · obtain rfl := List.mem_singleton.mp hlast
        simp only [apatchyPreConnection] at hnew
        split_ifs at hnew
        rw [← Option.some.inj hnew]

variable (hapr : apr.TakesFront)
include hapr

/-- What a read of a connection with the filter does to the brigades. -/
theorem takesFrom_read {s : BackendState} {k₀ k : ℕ} (hs : Owned k₀ s) {ctx : ApatchyCtx}
    (hk : s.conns[k]? = some ctx) {c : FilterCall} (hc : c.Reads) :
    TakesFrom (brigadeOf k s) (apatchyInputFilter apr s.globals ctx c).1
        (apatchyInputFilter apr s.globals ctx c).2.2.bb ∧
      ∀ k', brigadeOf k' (backendStep apr s (.read k c)).2 =
        if k' = k then (apatchyInputFilter apr s.globals ctx c).2.2.bb else brigadeOf k' s := by
  obtain ⟨-, -, htakes⟩ := apatchyInputFilter_taken hapr hc hs.taken
    (hs.ended ctx (List.mem_of_getElem? hk))
  rw [backendStep_read_some hk]
  exact ⟨brigadeOf_of_some hk ▸ htakes, brigadeOf_set hk _ _⟩

theorem Owned.read {s : BackendState} {k₀ k : ℕ} (hs : Owned k₀ s) {ctx : ApatchyCtx}
    (hk : s.conns[k]? = some ctx) {c : FilterCall} (hc : c.Reads) :
    Owned k₀ (backendStep apr s (.read k c)).2 := by
  obtain ⟨hg, hend, -⟩ := apatchyInputFilter_taken hapr hc hs.taken
    (hs.ended ctx (List.mem_of_getElem? hk))
  obtain ⟨htakes, hset⟩ := takesFrom_read hapr hs hk hc
  refine ⟨?_, ?_, ?_⟩
  · rw [backendStep_read_some hk, hg]
    exact hs.taken
  · intro k' hk'
    rw [hset]
    split_ifs with heq
    · subst heq
      rw [hs.others k' hk'] at htakes
      exact htakes.of_nil.2
    · exact hs.others k' hk'
  · intro ctx' hmem
    rw [backendStep_read_some hk] at hmem
    rcases List.mem_or_eq_of_mem_set hmem with hold | rfl
    · exact hs.ended ctx' hold
    · exact hend

theorem stepOn_read {s : BackendState} {k₀ k : ℕ} (hs : Owned k₀ s) {ctx : ApatchyCtx}
    (hk : s.conns[k]? = some ctx) {c : FilterCall} (hc : c.Reads) :
    StepOn k₀ (entryOf apr s (.read k c)) := by
  obtain ⟨htakes, hset⟩ := takesFrom_read hapr hs hk hc
  have hread : brigadeRead k₀ s = brigadeOf k₀ s := brigadeRead_of_taken hs.taken k₀
  constructor
  · intro k' hk' r hr
    rw [replyOn_entryOf_read, backendStep_read_some hk] at hr
    split_ifs at hr with heq
    · subst heq
      rw [hs.others k hk'] at htakes
      obtain rfl := Option.some.inj hr
      rw [htakes.of_nil.1]
    · simp at hr
  · rw [replyOn_entryOf_read]
    by_cases heq : k = k₀
    · subst heq
      refine Or.inr ⟨_, by rw [if_pos rfl, backendStep_read_some hk], ?_⟩
      show TakesFrom (brigadeRead k s) _ (brigadeOf k (backendStep apr s (.read k c)).2)
      rw [hread, hset, if_pos rfl]
      exact htakes
    · refine Or.inl ⟨if_neg heq, ?_⟩
      show brigadeOf k₀ (backendStep apr s (.read k c)).2 = brigadeRead k₀ s
      rw [hread, hset, if_neg (Ne.symm heq)]

/-- **One event where a connection has the response.** -/
theorem owned_step {s : BackendState} {k₀ : ℕ} (hs : Owned k₀ s) {i : BackendEvent}
    (hi : i.Reads) : Owned k₀ (backendStep apr s i).2 ∧ StepOn k₀ (entryOf apr s i) := by
  cases i with
  | connect c => exact ⟨hs.connect c, stepOn_connect hs c⟩
  | read k c =>
    rcases hk : s.conns[k]? with _ | ctx
    · have hstep : backendStep apr s (.read k c) = (none, s) := backendStep_read_none hk c
      have hnone : ∀ k', replyOn k' (entryOf apr s (.read k c)) = none := by
        intro k'
        rw [replyOn_entryOf_read, hstep, ite_self]
      refine ⟨hstep ▸ hs, ⟨?_, Or.inl ⟨hnone k₀, ?_⟩⟩⟩
      · intro k' _ r hr
        simp [hnone] at hr
      · simp [entryOf, hstep, brigadeRead_of_taken hs.taken]
    · exact ⟨hs.read hapr hk hi, stepOn_read hapr hs hk hi⟩

end Event

/-! ### Whole runs -/

/-- **The brigade of a connection is read out**, from what it was to what is left of it. -/
structure ReadsOut (k₀ : ℕ) (bb : List Bucket) (tr : List BackendEntry) (bb' : List Bucket) :
    Prop where
  /-- Nothing is delivered elsewhere. -/
  elsewhere : ∀ k ≠ k₀, deliveredOn k tr = []
  /-- What is delivered and what is left are what there was. -/
  conserved : deliveredOn k₀ tr ++ bytesOf bb' = bytesOf bb
  /-- A call that does not report the end takes a front part. -/
  moves : ∀ e ∈ tr, ∀ r ∈ replyOn k₀ e, r.status ≠ .eof →
    r.status = .success ∧ Behind (brigadeRead k₀ e.pre) (brigadeOf k₀ e.post)
  /-- Once the end is reported nothing is left. -/
  ended : (∃ e ∈ tr, ∃ r ∈ replyOn k₀ e, r.status = .eof) → bb' = []
  /-- Each call that does not report the end makes the brigade smaller. -/
  size : servedOn k₀ tr + brigadeSize bb' ≤ brigadeSize bb

namespace ReadsOut

variable {k₀ : ℕ} {bb bb' : List Bucket} {tr : List BackendEntry}

theorem nil (k₀ : ℕ) (bb : List Bucket) : ReadsOut k₀ bb [] bb where
  elsewhere _ _ := rfl
  conserved := rfl
  moves := by simp
  ended := by simp
  size := by simp [servedOn]

/-- Nothing comes after the end. -/
theorem eq_nil_of_nil (h : ReadsOut k₀ [] tr bb') : bb' = [] := by
  have hsize := h.size
  simp only [brigadeSize, bytesOf_nil, List.length_nil] at hsize
  exact List.eq_nil_of_length_eq_zero (by omega)

theorem elsewhere_cons {e : BackendEntry} (he : ∀ k ≠ k₀, ∀ r ∈ replyOn k e, r.out = [])
    (h : ReadsOut k₀ bb tr bb') : ∀ k ≠ k₀, deliveredOn k (e :: tr) = [] := by
  intro k hk
  rw [deliveredOn_cons, h.elsewhere k hk, List.append_nil]
  rcases hr : replyOn k e with _ | r
  · rfl
  · simp [he k hk r (by simp [hr])]

/-- An event that does not read the connection. -/
theorem cons_of_none {e : BackendEntry} (he : ∀ k ≠ k₀, ∀ r ∈ replyOn k e, r.out = [])
    (hnone : replyOn k₀ e = none) (h : ReadsOut k₀ bb tr bb') : ReadsOut k₀ bb (e :: tr) bb' where
  elsewhere := h.elsewhere_cons he
  conserved := by simp [hnone, h.conserved]
  moves := by
    intro e' hmem r hr
    rcases List.mem_cons.mp hmem with rfl | hmem
    · simp [hnone] at hr
    · exact h.moves e' hmem r hr
  ended := by
    rintro ⟨e', hmem, r, hr, hend⟩
    rcases List.mem_cons.mp hmem with rfl | hmem
    · simp [hnone] at hr
    · exact h.ended ⟨e', hmem, r, hr, hend⟩
  size := by simpa [hnone] using h.size

/-- An event that reads the connection. -/
theorem cons_of_takes {e : BackendEntry} (he : ∀ k ≠ k₀, ∀ r ∈ replyOn k e, r.out = [])
    {r : FilterReply} (hr : replyOn k₀ e = some r)
    (htakes : TakesFrom (brigadeRead k₀ e.pre) r (brigadeOf k₀ e.post))
    (h : ReadsOut k₀ (brigadeOf k₀ e.post) tr bb') :
    ReadsOut k₀ (brigadeRead k₀ e.pre) (e :: tr) bb' where
  elsewhere := h.elsewhere_cons he
  conserved := by
    rw [deliveredOn_cons, hr, List.append_assoc, h.conserved]
    exact htakes.bytes
  moves := by
    intro e' hmem r' hr' hne
    rcases List.mem_cons.mp hmem with rfl | hmem
    · obtain rfl : r = r' := by simpa [hr] using hr'
      rcases htakes.eof_or_behind with ⟨heof, -⟩ | hmoved
      · exact absurd heof hne
      · exact hmoved
    · exact h.moves e' hmem r' hr' hne
  ended := by
    rintro ⟨e', hmem, r', hr', hend⟩
    rcases List.mem_cons.mp hmem with rfl | hmem
    · obtain rfl : r = r' := by simpa [hr] using hr'
      rcases htakes.eof_or_behind with ⟨-, hnil⟩ | ⟨hstatus, -⟩
      · rw [hnil] at h
        exact h.eq_nil_of_nil
      · simp [hstatus] at hend
    · exact h.ended ⟨e', hmem, r', hr', hend⟩
  size := by
    have hsize := h.size
    rw [servedOn_cons, hr]
    -- a call that does not report the end takes something away, and the others are not counted
    rcases htakes.eof_or_behind with ⟨heof, hnil⟩ | ⟨hstatus, hbehind⟩
    · have hempty : brigadeSize (brigadeOf k₀ e.post) = 0 := by simp [hnil, brigadeSize]
      simp only [Option.any_some, heof, ne_eq, not_true_eq_false, decide_false]
      simp only [Bool.false_eq_true, if_false]
      omega
    · have hless := hbehind.brigadeSize_lt
      simp only [Option.any_some, hstatus, ne_eq, reduceCtorEq, not_false_eq_true]
      simp only [decide_true, if_true]
      omega

/-- **One event, and then a run.** -/
theorem cons {e : BackendEntry} (he : StepOn k₀ e)
    (h : ReadsOut k₀ (brigadeOf k₀ e.post) tr bb') :
    ReadsOut k₀ (brigadeRead k₀ e.pre) (e :: tr) bb' := by
  rcases he.here with ⟨hnone, hbb⟩ | ⟨r, hr, htakes⟩
  · rw [hbb] at h
    exact h.cons_of_none he.elsewhere hnone
  · exact h.cons_of_takes he.elsewhere hr htakes

end ReadsOut

section Run

variable {apr : Apr} (hapr : apr.TakesFront)
include hapr

/-- **A run where a connection has the response.** -/
theorem readsOut_run {k₀ : ℕ} {events : List BackendEvent} (hreads : ∀ i ∈ events, i.Reads)
    {s : BackendState} (hs : Owned k₀ s) :
    ReadsOut k₀ (brigadeOf k₀ s) ((fuzzBackend apr).trace s events)
      (brigadeOf k₀ ((fuzzBackend apr).run s events).2) := by
  induction events generalizing s with
  | nil => exact .nil k₀ _
  | cons i events ih =>
    obtain ⟨hnext, hstep⟩ := owned_step hapr hs (hreads i (List.mem_cons_self ..))
    have hrest := ih (fun i hi => hreads i (List.mem_cons_of_mem _ hi)) hnext
    rw [← brigadeRead_of_taken hs.taken]
    exact ReadsOut.cons hstep hrest

/-- **The response is waiting**: no connection has been read. -/
structure Waiting (data : List UInt8) (s : BackendState) : Prop where
  /-- The response is in the globals. -/
  buf : s.globals.gBackendBuf = some data
  /-- So is its size. -/
  size : s.globals.gBackendSize = data.length
  /-- Every connection is as it was made. -/
  fresh : ∀ ctx ∈ s.conns, ctx = {}

/-- The brigade with the response. -/
def loadedBrigade (data : List UInt8) : List Bucket := [.heap data, .eos]

omit hapr in
theorem Waiting.connect {data : List UInt8} {s : BackendState} (hs : Waiting data s)
    (c : ConnRec) : Waiting data (backendStep apr s (.connect c)).2 := by
  rcases hctx : apatchyPreConnection s.globals c with _ | ctx
  · simpa [backendStep, hctx] using hs
  · simp only [backendStep, hctx]
    refine ⟨hs.buf, hs.size, ?_⟩
    intro ctx' hmem
    rcases List.mem_append.mp hmem with hold | hlast
    · exact hs.fresh ctx' hold
    · obtain rfl := List.mem_singleton.mp hlast
      simp only [apatchyPreConnection] at hctx
      split_ifs at hctx
      exact (Option.some.inj hctx).symm

/-- The state in which the response has been moved to a connection. -/
def loadedOn (data : List UInt8) (k : ℕ) (s : BackendState) : BackendState where
  globals := { s.globals with gBackendBuf := none, gBackendSize := 0 }
  conns := s.conns.set k { bb := loadedBrigade data }

omit hapr in
theorem Waiting.owned {data : List UInt8} {s : BackendState} (hs : Waiting data s) {k : ℕ}
    (hk : s.conns[k]? = some {}) : Owned k (loadedOn data k s) where
  taken := rfl
  others := by
    intro k' hk'
    rw [loadedOn, brigadeOf_set hk, if_neg hk', brigadeOf]
    rcases hctx : s.conns[k']? with _ | ctx
    · rfl
    · rw [hs.fresh ctx (List.mem_of_getElem? hctx)]
      rfl
  ended := by
    intro ctx hmem hend
    rcases List.mem_or_eq_of_mem_set hmem with hold | rfl
    · rw [hs.fresh ctx hold]
    · simp at hend

omit hapr in
/-- **The first read loads the response**, and then reads it. -/
theorem Waiting.read_eq {data : List UInt8} (hne : data ≠ []) {s : BackendState}
    (hs : Waiting data s) {k : ℕ} (hk : s.conns[k]? = some {}) {c : FilterCall} (hc : c.Reads) :
    backendStep apr s (.read k c) = backendStep apr (loadedOn data k s) (.read k c) ∧
      brigadeRead k s = brigadeRead k (loadedOn data k s) := by
  have hlt : k < s.conns.length := (List.getElem?_eq_some_iff.mp hk).1
  have hk' : (loadedOn data k s).conns[k]? = some { bb := loadedBrigade data } := by
    simp [loadedOn, hlt]
  have hpos : 0 < data.length := List.length_pos_of_ne_nil hne
  have hload : loadBackend s.globals {} =
      ((loadedOn data k s).globals, { bb := loadedBrigade data }) := by
    simp [loadBackend, hs.buf, hs.size, hpos, loadedOn, loadedBrigade]
  have hagain : loadBackend (loadedOn data k s).globals { bb := loadedBrigade data } =
      ((loadedOn data k s).globals, { bb := loadedBrigade data }) := by
    simp [loadBackend, loadedOn]
  have hfilter : apatchyInputFilter apr s.globals {} c =
      apatchyInputFilter apr (loadedOn data k s).globals { bb := loadedBrigade data } c := by
    simp [apatchyInputFilter, hc.mode_ne_init, hload, hagain]
  constructor
  · rw [backendStep_read_some hk, backendStep_read_some hk', hfilter]
    simp [loadedOn]
  · simp [brigadeRead, hk, hk', hload, hagain]

/-- The entry of the first read, seen from the state in which the response is loaded. -/
theorem Waiting.read {data : List UInt8} (hne : data ≠ []) {s : BackendState}
    (hs : Waiting data s) {k : ℕ} (hk : s.conns[k]? = some {}) {c : FilterCall} (hc : c.Reads) :
    Owned k (backendStep apr s (.read k c)).2 ∧ StepOn k (entryOf apr s (.read k c)) ∧
      Loads k (entryOf apr s (.read k c)) ∧ brigadeRead k s = loadedBrigade data := by
  obtain ⟨hstep, hread⟩ := @Waiting.read_eq apr _ hne _ hs _ hk _ hc
  have hloaded := hs.owned hk
  have hlt : k < s.conns.length := (List.getElem?_eq_some_iff.mp hk).1
  have hk' : (loadedOn data k s).conns[k]? = some { bb := loadedBrigade data } := by
    simp [loadedOn, hlt]
  have hon := stepOn_read hapr hloaded hk' hc
  have hnext := hloaded.read hapr hk' hc
  -- the first read answers what it would answer if the response had been loaded before
  have hreply : ∀ k', replyOn k' (entryOf apr s (.read k c)) =
      replyOn k' (entryOf apr (loadedOn data k s) (.read k c)) := by
    intro k'
    rw [replyOn_entryOf_read, replyOn_entryOf_read, hstep]
  refine ⟨hstep ▸ hnext, ⟨?_, ?_⟩, ⟨?_, ?_, ?_⟩, ?_⟩
  · intro k' hk' r hr
    exact hon.elsewhere k' hk' r (hreply k' ▸ hr)
  · rw [hreply]
    show (_ ∧ brigadeOf k (backendStep apr s (.read k c)).2 = brigadeRead k s) ∨
      ∃ r, _ ∧ TakesFrom (brigadeRead k s) r (brigadeOf k (backendStep apr s (.read k c)).2)
    rw [hstep, hread]
    exact hon.here
  · rw [hreply, replyOn_entryOf_read, backendStep_read_some hk']
    simp
  · simp [entryOf, hs.buf]
  · show (backendStep apr s (.read k c)).2.globals.gBackendBuf = none
    rw [hstep]
    exact hnext.taken
  · rw [hread, brigadeRead_of_taken hloaded.taken, brigadeOf_of_some hk']

/-- **A run where the response is waiting**: it goes on waiting, or one connection gets it. -/
theorem run_of_waiting {data : List UInt8} (hne : data ≠ []) {events : List BackendEvent}
    (hreads : ∀ i ∈ events, i.Reads) {s : BackendState} (hs : Waiting data s) :
    (∀ e ∈ (fuzzBackend apr).trace s events, e.answer = none) ∨
      ∃ k₀, (∃ e ∈ (fuzzBackend apr).trace s events, Loads k₀ e) ∧
        ∃ bb', ReadsOut k₀ (loadedBrigade data) ((fuzzBackend apr).trace s events) bb' := by
  induction events generalizing s with
  | nil => exact Or.inl (by simp)
  | cons i events ih =>
    have hrest := fun {s} => ih (s := s) fun i hi => hreads i (List.mem_cons_of_mem _ hi)
    -- where nothing is read, the run goes on as it does behind the event
    have hpass : ∀ e : BackendEntry, e.answer = none → Waiting data e.post →
        (∀ e' ∈ e :: (fuzzBackend apr).trace e.post events, e'.answer = none) ∨
          ∃ k₀, (∃ e' ∈ e :: (fuzzBackend apr).trace e.post events, Loads k₀ e') ∧
            ∃ bb', ReadsOut k₀ (loadedBrigade data)
              (e :: (fuzzBackend apr).trace e.post events) bb' := by
      intro e he hpost
      have hnone : ∀ k, replyOn k e = none := by
        intro k
        simp only [replyOn, he, ite_self]
        cases e.input <;> rfl
      rcases hrest hpost with hall | ⟨k₀, ⟨e', hmem, hloads⟩, bb', hout⟩
      · exact Or.inl (List.forall_mem_cons.mpr ⟨he, hall⟩)
      · have hquiet : ∀ k ≠ k₀, ∀ r ∈ replyOn k e, r.out = [] := by
          intro k _ r hr
          simp [hnone] at hr
        exact Or.inr ⟨k₀, ⟨e', List.mem_cons_of_mem _ hmem, hloads⟩, bb',
          hout.cons_of_none hquiet (hnone k₀)⟩
    cases i with
    | connect c =>
      refine hpass (entryOf apr s (.connect c)) ?_ (hs.connect c)
      simp only [entryOf, backendStep]
      cases apatchyPreConnection s.globals c <;> rfl
    | read k c =>
      rcases hk : s.conns[k]? with _ | ctx
      · have hstep : backendStep apr s (.read k c) = (none, s) := backendStep_read_none hk c
        refine hpass (entryOf apr s (.read k c)) ?_ ?_
        · simp [entryOf, hstep]
        · simpa [entryOf, hstep] using hs
      · obtain rfl : ctx = {} := hs.fresh ctx (List.mem_of_getElem? hk)
        obtain ⟨hnext, hon, hloads, hbb⟩ := hs.read hapr hne hk
          (hreads (.read k c) (List.mem_cons_self ..))
        have hout := readsOut_run hapr
          (fun i hi => hreads i (List.mem_cons_of_mem _ hi)) hnext
        have hall := ReadsOut.cons hon hout
        exact Or.inr ⟨k, ⟨_, List.mem_cons_self .., hloads⟩, _, hbb ▸ hall⟩

omit hapr in
/-- **A response that is read out is delivered once.** -/
theorem ReadsOut.deliveredOnce {data : List UInt8} {k₀ : ℕ} {tr : List BackendEntry}
    {bb' : List Bucket} (h : ReadsOut k₀ (loadedBrigade data) tr bb') :
    DeliveredOnce data k₀ tr := by
  have hdata : bytesOf (loadedBrigade data) = data := by simp [loadedBrigade]
  refine ⟨h.elsewhere, ?_, h.moves, ?_, ?_⟩
  · exact ⟨bytesOf bb', h.conserved.trans hdata⟩
  · intro hend
    have hconserved := h.conserved
    rwa [h.ended hend, bytesOf_nil, List.append_nil, hdata] at hconserved
  · have hsize := h.size
    rw [brigadeSize, brigadeSize, hdata] at hsize
    simp only [loadedBrigade, List.length_cons, List.length_nil] at hsize
    omega

omit hapr in
/-- The response waits as soon as it is placed. -/
theorem waiting_placedResponse (enabled : Bool) (data : List UInt8) :
    Waiting data (placedResponse enabled data) := ⟨rfl, rfl, by simp [placedResponse]⟩

/-- **The fuzzed response is delivered whole and once**: over every sequence of new
connections and of line and byte reads, no connection is read at all, or the one whose read
loads the response gets it, all of it before its end is reported. -/
theorem fuzzBackend_deliversOnce (enabled : Bool) {data : List UInt8} (hne : data ≠ [])
    {events : List BackendEvent} (hreads : ∀ i ∈ events, i.Reads) :
    (∀ e ∈ (fuzzBackend apr).trace (placedResponse enabled data) events, e.answer = none) ∨
      ∃ k₀, (∃ e ∈ (fuzzBackend apr).trace (placedResponse enabled data) events, Loads k₀ e) ∧
        DeliveredOnce data k₀ ((fuzzBackend apr).trace (placedResponse enabled data) events) := by
  rcases run_of_waiting hapr hne hreads (waiting_placedResponse enabled data) with
    hnone | ⟨k₀, hloads, bb', hout⟩
  · exact Or.inl hnone
  · exact Or.inr ⟨k₀, hloads, hout.deliveredOnce⟩

end Run

/-- Two connections, read in turn. -/
def twoConnections : List BackendEvent :=
  [.connect ⟨[]⟩, .connect ⟨[]⟩, .read 0 ⟨.getline, .blockRead, 0⟩,
    .read 1 ⟨.readbytes, .blockRead, 5⟩, .read 0 ⟨.readbytes, .blockRead, 5⟩,
    .read 0 ⟨.getline, .blockRead, 0⟩]

/-- The second connection gets nothing, and the first both of its lines. -/
theorem fuzzBackend_deliversOnce_twoConnections :
    (∀ e ∈ (fuzzBackend Apr.memory).trace (placedResponse true [65, 10, 66]) twoConnections,
        e.answer = none) ∨
      ∃ k₀, (∃ e ∈ (fuzzBackend Apr.memory).trace (placedResponse true [65, 10, 66])
          twoConnections, Loads k₀ e) ∧
        DeliveredOnce [65, 10, 66] k₀
          ((fuzzBackend Apr.memory).trace (placedResponse true [65, 10, 66]) twoConnections) :=
  fuzzBackend_deliversOnce Apr.takesFront_memory true (by decide)
    (by simp [twoConnections, BackendEvent.Reads, FilterCall.Reads])

example : deliveredOn 0 ((fuzzBackend Apr.memory).trace (placedResponse true [65, 10, 66])
    twoConnections) = [65, 10, 66] := by decide

end Apatchy
