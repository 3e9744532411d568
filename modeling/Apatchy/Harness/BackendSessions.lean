import Apatchy.Harness.Backend

/-!
# The fuzzed backend, iteration after iteration

The harnesses of `mod_proxy_uwsgi` and `mod_proxy_ajp` place a new response in
`g_backend_buf` before every input, and nothing takes it back behind the input: where no
connection was read, the globals still point to a response whose string is gone. Nor do the
backend connections end with an input, since `mod_proxy` keeps them in a pool. A session is
therefore one machine, in which responses are placed, connections are made and any connection
is read in any mode, in any order (`Apatchy.backendSession`).

`Apatchy.backendSession_keeps`, over every session:

* what is delivered on a connection, and then what it still holds, are the responses that were
  moved to it, whole and in the order in which they were placed;
* each response is moved to one connection at most, and once;
* a response that is moved is always the one that was placed last, so a pointer that outlives
  its string is never followed.

One call of the filter is `Apatchy.apatchyInputFilter_moves`; nothing is asked of it but that
the functions of APR keep the bytes they are given.
-/

namespace Apatchy

/-! ### The machine -/

/-- What happens in a session. -/
inductive SessionEvent where
  /-- The harness places a response. -/
  | place (data : List UInt8) : SessionEvent
  /-- A connection is made or read. -/
  | backend (event : BackendEvent) : SessionEvent

/-- One event: the harness enables the backend, and sets the buffer and its size. -/
def sessionStep (apr : Apr) (s : BackendState) : SessionEvent → Option FilterReply × BackendState
  | .place data =>
    (none, { s with
      globals :=
        { gBackendEnabled := true, gBackendBuf := some data, gBackendSize := data.length } })
  | .backend event => backendStep apr s event

/-- **The fuzzed backend over a session.** -/
def backendSession (apr : Apr) : Machine BackendState SessionEvent (Option FilterReply) where
  step := sessionStep apr

/-- An entry of a session. -/
abbrev SessionEntry := Machine.Entry BackendState SessionEvent (Option FilterReply)

/-! ### What is delivered -/

/-- The response that an event places. -/
def SessionEvent.placed : SessionEvent → Option (List UInt8)
  | .place data => some data
  | .backend _ => none

/-- The connection that an event reads. -/
def SessionEvent.reads : SessionEvent → Option ℕ
  | .backend (.read k _) => some k
  | _ => none

/-- The bytes that an entry delivers on a connection. -/
def sentOn (k : ℕ) (e : SessionEntry) : List UInt8 :=
  if e.input.reads = some k then (e.answer.map fun r => bytesOf r.out).getD [] else []

/-- The response that an entry moves out of the globals, and the connection it is moved to. -/
def movedTo (e : SessionEntry) : Option (ℕ × List UInt8) :=
  match e.input.reads, e.pre.globals.gBackendBuf, e.post.globals.gBackendBuf with
  | some k, some data, none => some (k, data)
  | _, _, _ => none

/-- The responses that are moved to a connection. -/
def movedOn (k : ℕ) (tr : List SessionEntry) : List (List UInt8) :=
  ((tr.filterMap movedTo).filter fun m => m.1 = k).map Prod.snd

/-- **What a session keeps**, from its start to a state. -/
structure SessionKeeps (tr : List SessionEntry) (s : BackendState) : Prop where
  /-- A connection delivers, and holds, what was moved to it. -/
  whole : ∀ k, tr.flatMap (sentOn k) ++ bytesOf (brigadeOf k s) = (movedOn k tr).flatten
  /-- Each response is moved once at most, and in order. -/
  once : ((tr.filterMap movedTo).map Prod.snd).Sublist (tr.filterMap fun e => e.input.placed)
  /-- What is moved was placed last. -/
  latest : ∀ before e after, tr = before ++ e :: after → ∀ m ∈ movedTo e,
    (before.filterMap fun e => e.input.placed).getLast? = some m.2

/-! ### One call -/

/-- The globals say how long the response is. -/
def Sized (g : BackendGlobals) : Prop := ∀ data ∈ g.gBackendBuf, g.gBackendSize = data.length

/-- **What a call does**: it moves nothing, or the response, and what it answers and leaves is
what there was and what was moved. -/
def Moves (g : BackendGlobals) (bb out : List Bucket) (g' : BackendGlobals)
    (bb' : List Bucket) : Prop :=
  (g' = g ∧ bytesOf out ++ bytesOf bb' = bytesOf bb) ∨
    ∃ data, g.gBackendBuf = some data ∧ g'.gBackendBuf = none ∧
      bytesOf out ++ bytesOf bb' = bytesOf bb ++ data

section Call

variable {apr : Apr}

/-- A call in another mode, or for no byte, takes nothing. -/
theorem serveBackend_of_not_reads {c : FilterCall} (hc : ¬ c.Reads) (bb : List Bucket) :
    serveBackend apr bb c = (⟨.success, []⟩, bb) := by
  obtain ⟨hline, hbytes⟩ := not_or.mp hc
  rcases hmode : c.mode
  case getline => exact absurd hmode hline
  case readbytes =>
    have hzero : ¬ 0 < c.readbytes := fun hpos => hbytes ⟨hmode, hpos⟩
    simp [serveBackend, hmode, hzero]
  all_goals simp [serveBackend, hmode]

variable (hapr : apr.TakesFront)
include hapr

/-- A brigade that is served loses no byte, in any mode. -/
theorem bytesOf_serveBackend {bb : List Bucket} (hbb : bb ≠ []) (c : FilterCall) :
    bytesOf (serveBackend apr bb c).1.out ++ bytesOf (serveBackend apr bb c).2 = bytesOf bb := by
  by_cases hc : c.Reads
  · exact (takesFrom_serveBackend hapr hc hbb).bytes
  · simp [serveBackend_of_not_reads hc]

omit hapr in
/-- What is loaded. -/
theorem loadBackend_cases {g : BackendGlobals} (hg : Sized g) (ctx : ApatchyCtx) :
    loadBackend g ctx = (g, ctx) ∨
      ∃ data, g.gBackendBuf = some data ∧ ctx.bb = [] ∧ (loadBackend g ctx).1.gBackendBuf = none ∧
        (loadBackend g ctx).2.bb = loadedBrigade data := by
  rcases hbuf : g.gBackendBuf with _ | data
  · exact Or.inl (by simp [loadBackend, hbuf])
  · by_cases hload : 0 < g.gBackendSize ∧ ctx.bb = []
    · refine Or.inr ⟨data, rfl, hload.2, ?_, ?_⟩
      · simp [loadBackend, hbuf, hload]
      · have htake : data.take g.gBackendSize = data := by rw [hg data hbuf, List.take_length]
        simp [loadBackend, hbuf, hload, htake, loadedBrigade]
    · exact Or.inl (by simp [loadBackend, hbuf, hload])

/-- What is read behind the load. -/
theorem bytesOf_apatchyInputFilter {g : BackendGlobals} {ctx : ApatchyCtx} {c : FilterCall}
    (hinit : c.mode ≠ .init) (hend : ctx.isEos = false) :
    (apatchyInputFilter apr g ctx c).2.1 = (loadBackend g ctx).1 ∧
      bytesOf (apatchyInputFilter apr g ctx c).1.out ++
          bytesOf (apatchyInputFilter apr g ctx c).2.2.bb =
        bytesOf (loadBackend g ctx).2.bb := by
  simp only [apatchyInputFilter, if_neg hinit, hend, Bool.false_eq_true, if_false]
  split_ifs with hbb
  · exact ⟨rfl, rfl⟩
  · exact ⟨rfl, bytesOf_serveBackend hapr hbb c⟩

/-- **One call of the filter.** -/
theorem apatchyInputFilter_moves {g : BackendGlobals} (hg : Sized g) (ctx : ApatchyCtx)
    (c : FilterCall) :
    Moves g ctx.bb (apatchyInputFilter apr g ctx c).1.out (apatchyInputFilter apr g ctx c).2.1
      (apatchyInputFilter apr g ctx c).2.2.bb := by
  by_cases hinit : c.mode = .init
  · simp only [apatchyInputFilter, if_pos hinit]
    exact Or.inl ⟨rfl, rfl⟩
  rcases hend : ctx.isEos with _ | _
  · obtain ⟨hglobals, hbytes⟩ := @bytesOf_apatchyInputFilter apr hapr g _ _ hinit hend
    rcases loadBackend_cases hg ctx with hload | ⟨data, hbuf, hempty, hgone, hbb⟩
    · rw [hglobals, hload]
      rw [hload] at hbytes
      exact Or.inl ⟨rfl, hbytes⟩
    · refine Or.inr ⟨data, hbuf, hglobals ▸ hgone, ?_⟩
      rw [hbytes, hbb, hempty]
      simp [loadedBrigade]
  · simp only [apatchyInputFilter, if_neg hinit, hend, if_true]
    exact Or.inl ⟨rfl, rfl⟩

end Call

/-! ### One event -/

section Event

variable {apr : Apr}

/-- The entry of one event of a session. -/
def sessionEntry (apr : Apr) (s : BackendState) (i : SessionEvent) : SessionEntry :=
  ⟨s, i, (sessionStep apr s i).1, (sessionStep apr s i).2⟩

/-- **What an event does to the connections and to the response that is placed.** -/
structure SessionStep (e : SessionEntry) : Prop where
  /-- A connection delivers and holds what it held and what is moved to it. -/
  bytes : ∀ k, sentOn k e ++ bytesOf (brigadeOf k e.post) =
    bytesOf (brigadeOf k e.pre) ++ (movedOn k [e]).flatten
  /-- The response that is there afterwards was placed, or was there. -/
  buf : ∀ data ∈ e.post.globals.gBackendBuf,
    e.input.placed = some data ∨ e.input.placed = none ∧ e.pre.globals.gBackendBuf = some data
  /-- What is moved was there, and is gone. -/
  moved : ∀ m ∈ movedTo e,
    e.input.placed = none ∧ e.pre.globals.gBackendBuf = some m.2 ∧ e.post.globals.gBackendBuf = none
  /-- The size is still right. -/
  sized : Sized e.post.globals

theorem movedOn_singleton (k : ℕ) (e : SessionEntry) :
    (movedOn k [e]).flatten =
      match movedTo e with
      | none => []
      | some m => if m.1 = k then m.2 else [] := by
  rcases hm : movedTo e with _ | m
  · simp [movedOn, hm]
  · by_cases hk : m.1 = k
    · simp [movedOn, hm, hk]
    · simp [movedOn, hm, hk]

/-- A response is placed. -/
theorem sessionStep_place (s : BackendState) (data : List UInt8) :
    SessionStep (sessionEntry apr s (.place data)) where
  bytes k := by simp [sentOn, SessionEvent.reads, movedOn_singleton, movedTo, sessionEntry,
    sessionStep, brigadeOf]
  buf data' hdata := Or.inl hdata
  moved m hm := by simp [movedTo, sessionEntry, SessionEvent.reads] at hm
  sized data' hdata := by
    obtain rfl : data = data' := Option.some.inj hdata
    rfl

/-- An event that moves nothing and leaves the globals as they are. -/
theorem sessionStep_of_globals_eq {s : BackendState} (hs : Sized s.globals) {event : BackendEvent}
    (hglobals : (backendStep apr s event).2.globals = s.globals)
    (hbytes : ∀ k, sentOn k (sessionEntry apr s (.backend event)) ++
      bytesOf (brigadeOf k (backendStep apr s event).2) = bytesOf (brigadeOf k s)) :
    SessionStep (sessionEntry apr s (.backend event)) := by
  have hnone : movedTo (sessionEntry apr s (.backend event)) = none := by
    rw [movedTo]
    simp only [sessionEntry, sessionStep, hglobals]
    rcases SessionEvent.reads (.backend event) with _ | k
    · rfl
    · rcases s.globals.gBackendBuf with _ | data
      · rfl
      · rfl
  refine ⟨fun k => ?_, fun data hdata => Or.inr ⟨rfl, ?_⟩, fun m hm => ?_, ?_⟩
  · rw [movedOn_singleton, hnone, List.append_nil]
    exact hbytes k
  · have hpost : (backendStep apr s event).2.globals.gBackendBuf = some data := hdata
    rwa [hglobals] at hpost
  · rw [hnone] at hm
    exact absurd hm (by simp)
  · change Sized (backendStep apr s event).2.globals
    rwa [hglobals]

/-- A connection is made. -/
theorem sessionStep_connect {s : BackendState} (hs : Sized s.globals) (c : ConnRec) :
    SessionStep (sessionEntry apr s (.backend (.connect c))) := by
  refine sessionStep_of_globals_eq hs ?_ fun k => ?_
  · rw [backendStep]
    rcases apatchyPreConnection s.globals c with _ | ctx
    · rfl
    · rfl
  · rw [brigadeOf_connect]
    simp [sentOn, sessionEntry, SessionEvent.reads]

/-- A connection is read. -/
theorem sessionStep_read (hapr : apr.TakesFront) {s : BackendState} (hs : Sized s.globals) (k : ℕ)
    (c : FilterCall) : SessionStep (sessionEntry apr s (.backend (.read k c))) := by
  rcases hk : s.conns[k]? with _ | ctx
  · have hstep : backendStep apr s (.read k c) = (none, s) := backendStep_read_none hk c
    refine sessionStep_of_globals_eq hs (by rw [hstep]) fun k' => ?_
    rw [hstep]
    simp [sentOn, sessionEntry, sessionStep, hstep]
  have hstep : backendStep apr s (.read k c) = _ := backendStep_read_some hk c
  have hmoves := apatchyInputFilter_moves hapr hs ctx c
  -- only the connection that is read is sent anything, and only its brigade changes
  have hsent (k' : ℕ) : sentOn k' (sessionEntry apr s (.backend (.read k c))) =
      if k = k' then bytesOf (apatchyInputFilter apr s.globals ctx c).1.out else [] := by
    simp [sentOn, sessionEntry, sessionStep, SessionEvent.reads, hstep]
  have hpost (k' : ℕ) : brigadeOf k' (backendStep apr s (.read k c)).2 =
      if k' = k then (apatchyInputFilter apr s.globals ctx c).2.2.bb else brigadeOf k' s := by
    rw [hstep, brigadeOf_set hk]
  rcases hmoves with ⟨hglobals, hbytes⟩ | ⟨data, hbuf, hgone, hbytes⟩
  · -- nothing is moved: the reader gets what its brigade loses
    refine sessionStep_of_globals_eq hs (by rw [hstep]; exact hglobals) fun k' => ?_
    rw [hsent, hpost]
    by_cases hk' : k' = k
    · simp [hk', hbytes, brigadeOf_of_some hk]
    · simp [hk', Ne.symm hk']
  · -- the response is moved to this connection, and is gone from the variables
    have hgone' : (backendStep apr s (.read k c)).2.globals.gBackendBuf = none := by
      rw [hstep]
      exact hgone
    have hmoved : movedTo (sessionEntry apr s (.backend (.read k c))) = some (k, data) := by
      simp [movedTo, sessionEntry, sessionStep, SessionEvent.reads, hbuf, hgone']
    refine ⟨fun k' => ?_, fun data' hdata => ?_, fun m hm => ?_, ?_⟩
    · rw [hsent, movedOn_singleton, hmoved]
      change _ ++ bytesOf (brigadeOf k' (backendStep apr s (.read k c)).2) =
        bytesOf (brigadeOf k' s) ++ _
      rw [hpost]
      by_cases hk' : k' = k
      · simp [hk', hbytes, brigadeOf_of_some hk]
      · simp [hk', Ne.symm hk']
    · have hsome : (backendStep apr s (.read k c)).2.globals.gBackendBuf = some data' := hdata
      simp [hgone'] at hsome
    · rw [hmoved] at hm
      obtain rfl := Option.some.inj hm
      exact ⟨rfl, hbuf, hgone'⟩
    · intro data' hdata
      have hsome : (backendStep apr s (.read k c)).2.globals.gBackendBuf = some data' := hdata
      simp [hgone'] at hsome

/-- **One event of a session.** -/
theorem sessionStep_spec (hapr : apr.TakesFront) {s : BackendState} (hs : Sized s.globals)
    (i : SessionEvent) : SessionStep (sessionEntry apr s i) := by
  rcases i with data | c | ⟨k, c⟩
  · exact sessionStep_place s data
  · exact sessionStep_connect hs c
  · exact sessionStep_read hapr hs k c

end Event

/-! ### Whole sessions -/

section Run

variable {apr : Apr} (hapr : apr.TakesFront)
include hapr

omit hapr in
theorem movedOn_cons (k : ℕ) (e : SessionEntry) (tr : List SessionEntry) :
    movedOn k (e :: tr) = movedOn k [e] ++ movedOn k tr := by
  rcases hm : movedTo e with _ | m
  · simp [movedOn, hm]
  · simp [movedOn, hm, List.filter_cons]
    split_ifs <;> simp

/-- **From any state**: what the connections hold at the start counts as moved to them. -/
theorem session_whole (events : List SessionEvent) {s : BackendState} (hs : Sized s.globals)
    (k : ℕ) :
    ((backendSession apr).trace s events).flatMap (sentOn k) ++
        bytesOf (brigadeOf k ((backendSession apr).run s events).2) =
      bytesOf (brigadeOf k s) ++ (movedOn k ((backendSession apr).trace s events)).flatten := by
  induction events generalizing s with
  | nil => simp [movedOn]
  | cons i events ih =>
    have hstep := sessionStep_spec hapr hs i
    have hrest := ih hstep.sized
    have hfirst : sentOn k (sessionEntry apr s i) ++
        bytesOf (brigadeOf k (sessionEntry apr s i).post) =
        bytesOf (brigadeOf k s) ++ (movedOn k [sessionEntry apr s i]).flatten := hstep.bytes k
    have htrace : (backendSession apr).trace s (i :: events) = sessionEntry apr s i ::
        (backendSession apr).trace (sessionEntry apr s i).post events := rfl
    rw [htrace, List.flatMap_cons, movedOn_cons, List.flatten_append, ← List.append_assoc,
      ← hfirst, List.append_assoc, List.append_assoc]
    exact congrArg _ hrest

/-- **From any state**: the response that is there at the start counts as placed. -/
theorem session_once (events : List SessionEvent) {s : BackendState} (hs : Sized s.globals) :
    ((((backendSession apr).trace s events).filterMap movedTo).map Prod.snd).Sublist
      (s.globals.gBackendBuf.toList ++
        ((backendSession apr).trace s events).filterMap fun e => e.input.placed) := by
  induction events generalizing s with
  | nil => simp
  | cons i events ih =>
    have hstep := sessionStep_spec hapr hs i
    have hrest := ih hstep.sized
    have htrace : (backendSession apr).trace s (i :: events) = sessionEntry apr s i ::
        (backendSession apr).trace (sessionEntry apr s i).post events := rfl
    have hplaced : (sessionEntry apr s i :: (backendSession apr).trace
        (sessionEntry apr s i).post events).filterMap (fun e => e.input.placed) =
        i.placed.toList ++ ((backendSession apr).trace
          (sessionEntry apr s i).post events).filterMap fun e => e.input.placed := by
      have hinput : (sessionEntry apr s i).input = i := rfl
      rcases hi : i.placed with _ | data
      · simp [hinput, hi]
      · simp [hinput, hi]
    rw [htrace, hplaced]
    rcases hm : movedTo (sessionEntry apr s i) with _ | m
    · -- nothing is moved: what is there was placed now, or was there before
      rw [List.filterMap_cons_none hm]
      refine hrest.trans ?_
      rcases hbuf : (sessionEntry apr s i).post.globals.gBackendBuf with _ | data
      · simp
      · rcases hstep.buf data hbuf with hi | ⟨-, hpre⟩
        · have hplace : i.placed = some data := hi
          simp [hplace]
        · have hthere : s.globals.gBackendBuf = some data := hpre
          simp [hthere]
    · -- what is moved was there, and is there no more
      obtain ⟨-, hpre, hpost⟩ := hstep.moved m hm
      have hthere : s.globals.gBackendBuf = some m.2 := hpre
      rw [List.filterMap_cons_some hm, hthere]
      rw [hpost] at hrest
      refine List.Sublist.cons_cons m.2 (hrest.trans ?_)
      simp

/-- **From any state**: what is moved was placed last, if what is there at the start was. -/
theorem session_latest (events : List SessionEvent) {s : BackendState} (hs : Sized s.globals)
    {history : List (List UInt8)} (hlast : ∀ data ∈ s.globals.gBackendBuf,
      history.getLast? = some data) {before after : List SessionEntry} {e : SessionEntry}
    (htrace : (backendSession apr).trace s events = before ++ e :: after) {m : ℕ × List UInt8}
    (hm : m ∈ movedTo e) :
    (history ++ before.filterMap fun e => e.input.placed).getLast? = some m.2 := by
  induction events generalizing s history before with
  | nil => simp at htrace
  | cons i events ih =>
    have hstep := sessionStep_spec hapr hs i
    rcases before with _ | ⟨e', before⟩
    · obtain ⟨rfl, -⟩ := List.cons.inj htrace
      obtain ⟨-, hpre, -⟩ := hstep.moved m hm
      simpa using hlast m.2 hpre
    · obtain ⟨rfl, hrest⟩ := List.cons.inj htrace
      -- the history grows by what the event places
      have hgrown : ∀ data ∈ (sessionEntry apr s i).post.globals.gBackendBuf,
          (history ++ i.placed.toList).getLast? = some data := by
        intro data hdata
        rcases hstep.buf data hdata with hi | ⟨hi, hpre⟩
        · have hplace : i.placed = some data := hi
          simp [hplace]
        · have hplace : i.placed = none := hi
          simpa [hplace] using hlast data hpre
      have htail := ih hstep.sized hgrown hrest
      rcases hi : i.placed with _ | data
      · simpa [List.filterMap_cons, hi] using htail
      · simpa [List.filterMap_cons, hi] using htail

/-- **The fuzzed backend, session after session**: whatever responses are placed, and whichever
connections are made and read in between, in any mode and in any order, no byte of a response is
lost or delivered twice, each response goes to one connection at most, and only while it is the
one that was placed last. -/
theorem backendSession_keeps (events : List SessionEvent) :
    SessionKeeps ((backendSession apr).trace { globals := {} } events)
      ((backendSession apr).run { globals := {} } events).2 where
  whole k := by
    have hwhole := session_whole hapr events (s := { globals := {} }) (by simp [Sized]) k
    simpa [brigadeOf] using hwhole
  once := by simpa using session_once hapr events (s := { globals := {} }) (by simp [Sized])
  latest before e after htrace m hm := by
    have hlast : ([] ++ before.filterMap fun e : SessionEntry => e.input.placed).getLast? =
        some m.2 :=
      session_latest hapr events (by simp [Sized]) (by simp) htrace hm
    simpa using hlast

end Run

/-- Two iterations on one connection: the first response is read up to its first line, and the
rest of it in the second iteration, whose own response waits. -/
def leftOver : List SessionEvent :=
  [.place [65, 10, 66], .backend (.connect ⟨[]⟩), .backend (.read 0 ⟨.getline, .blockRead, 0⟩),
    .place [67], .backend (.read 0 ⟨.readbytes, .blockRead, 5⟩)]

theorem backendSession_keeps_leftOver :
    SessionKeeps ((backendSession Apr.memory).trace { globals := {} } leftOver)
      ((backendSession Apr.memory).run { globals := {} } leftOver).2 :=
  backendSession_keeps Apr.takesFront_memory leftOver

example : ((backendSession Apr.memory).trace { globals := {} } leftOver).flatMap (sentOn 0) =
    [65, 10, 66] := by decide

end Apatchy
