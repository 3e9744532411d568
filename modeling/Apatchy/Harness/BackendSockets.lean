import Apatchy.Foundations.Descriptors
import Apatchy.Foundations.Machine
import Apatchy.Harness.Backend

/-!
# The socket of a fuzzed backend

`mod_proxy_ajp` reads its backend from a socket and not through filters. The AJP harness is
therefore linked so that `__wrap_ap_proxy_connect_backend` stands before
`ap_proxy_connect_backend`: once the real function has connected, the socket of the connection
is replaced by one end of a socket pair, the response is written to the other end, and that
other end is shut down for writing but kept open in `g_backend_fd`, so that what the proxy
sends still goes somewhere. The next call closes it. The socket that is replaced is closed with
a bare `close`, behind the back of the APR socket that holds its number.

httpd opens and closes descriptors all the time, and the system gives the numbers out again.
Files, connections and calls of the wrapper in any order are a machine
(`Apatchy.backendSockets`), the real function being any moves of httpd. What is shown of all
its runs (`Apatchy.SocketsServe`):

* nothing is ever closed twice, and each open descriptor is in one variable, which is a
  variable for what it refers to (`Apatchy.Holder.Suits`): nobody's descriptor is closed by
  somebody else, and none leaks;
* what a connection receives is the response that was written for it, in order, and the end
  comes behind all of it;
* sending on a replaced socket, of which any part may find room, is a broken pipe once the
  wrapper is called again, and not before.
-/

namespace Apatchy

/-! ### The state -/

/-- What holds descriptors: the files of httpd, the sockets of the connections to backends, and
`g_backend_fd`. -/
inductive Holder where
  /-- A file of httpd. -/
  | file (v : ℕ) : Holder
  /-- `conn->sock->socketdes`. -/
  | sock (c : ℕ) : Holder
  /-- `g_backend_fd`. -/
  | backend : Holder
  deriving DecidableEq

/-- The globals of `fuzz_backend.c`, what httpd holds, and the system. -/
structure ProxyState where
  /-- The response. -/
  globals : BackendGlobals := {}
  /-- `g_backend_fd`. -/
  gBackendFd : ℤ := -1
  /-- The files of httpd. -/
  file : ℕ → Option ℕ := fun _ => none
  /-- The sockets of the connections. -/
  sock : ℕ → Option ℕ := fun _ => none
  /-- The system. -/
  kernel : Kernel := {}

/-- The descriptor that a variable holds. -/
def ProxyState.holds (st : ProxyState) : Holder → Option ℕ
  | .file v => st.file v
  | .sock c => st.sock c
  | .backend => if 0 ≤ st.gBackendFd then some st.gBackendFd.toNat else none

/-- What is seen of a run. -/
inductive Outcome where
  /-- The harness placed a response. -/
  | placed (data : List UInt8) : Outcome
  /-- A descriptor was closed; whether it was open. -/
  | closed (ok : Bool) : Outcome
  /-- The wrapper was called. -/
  | called : Outcome
  /-- A socket was replaced, and so much of the response was written. -/
  | replaced (data : List UInt8) : Outcome
  /-- The wrapper returned. -/
  | returned (rc : ℤ) : Outcome
  /-- A connection with the socket of this pair received. -/
  | received (pair : ℕ) (r : Received) : Outcome
  /-- It sent. -/
  | sent (pair : ℕ) (r : Sent) : Outcome
  deriving DecidableEq

/-! ### httpd -/

/-- What httpd does. -/
inductive HttpdMove where
  /-- A file is opened into a variable. -/
  | openFile (v : ℕ) : HttpdMove
  /-- It is closed. -/
  | closeFile (v : ℕ) : HttpdMove
  /-- A connection gets a socket, which is connected to a real backend. -/
  | openSock (c : ℕ) : HttpdMove
  /-- The socket of a connection is closed. -/
  | closeSock (c : ℕ) : HttpdMove
  /-- `n` bytes are read from a connection. -/
  | recv (c n : ℕ) : HttpdMove
  /-- Bytes are sent on a connection, where there is room for so many. -/
  | send (c : ℕ) (data : List UInt8) (room : ℕ) : HttpdMove

section Httpd

variable (numbering : Numbering FileObject)

/-- A move. A variable that holds a descriptor is not opened into, and one that holds none is
neither closed nor used. -/
def httpdStep (st : ProxyState) : HttpdMove → List Outcome × ProxyState
  | .openFile v =>
    match st.file v with
    | some _ => ([], st)
    | none =>
      let (fd, kernel) := st.kernel.openNew numbering
      ([], { st with file := Function.update st.file v (some fd), kernel := kernel })
  | .closeFile v =>
    match st.file v with
    | none => ([], st)
    | some fd =>
      let (ok, kernel) := st.kernel.close fd
      ([.closed ok], { st with file := Function.update st.file v none, kernel := kernel })
  | .openSock c =>
    match st.sock c with
    | some _ => ([], st)
    | none =>
      let (fd, kernel) := st.kernel.openNew numbering
      ([], { st with sock := Function.update st.sock c (some fd), kernel := kernel })
  | .closeSock c =>
    match st.sock c with
    | none => ([], st)
    | some fd =>
      let (ok, kernel) := st.kernel.close fd
      ([.closed ok], { st with sock := Function.update st.sock c none, kernel := kernel })
  | .recv c n =>
    match (st.sock c).bind st.kernel.table.lookup with
    | some (.endpoint p s) =>
      let (r, kernel) := st.kernel.recv p s n
      ([.received p r], { st with kernel := kernel })
    -- what a real backend answers is not followed
    | _ => ([], st)
  | .send c data room =>
    match st.sock c with
    | none => ([], st)
    | some fd =>
      let (r, kernel) := st.kernel.send fd data room
      match st.kernel.table.lookup fd with
      | some (.endpoint p _) => ([.sent p r], { st with kernel := kernel })
      | _ => ([], { st with kernel := kernel })

/-- httpd, as a machine. -/
def httpd : Machine ProxyState HttpdMove (List Outcome) where
  step := httpdStep numbering

/-! ### The wrapper -/

/-- `OK`. -/
def apOk : ℤ := 0

/-- A call of `__wrap_ap_proxy_connect_backend`: its connection, and what the functions it calls
do. -/
structure ConnectCall where
  /-- `conn`. -/
  conn : ℕ
  /-- What `__real_ap_proxy_connect_backend` does. -/
  moves : List HttpdMove
  /-- What it returns. -/
  rc : ℤ
  /-- Whether `apr_os_sock_get` returns `APR_SUCCESS`. -/
  sockGet : Bool := true
  /-- Whether `socketpair` returns 0. -/
  pairMade : Bool := true
  /-- How many bytes `write` takes. -/
  written : ℕ

/-- The `if` at the beginning: the other end of the last pair is closed. -/
def closeBackend (st : ProxyState) : List Outcome × ProxyState :=
  if 0 ≤ st.gBackendFd then
    let (ok, kernel) := st.kernel.close st.gBackendFd.toNat
    ([.closed ok], { st with gBackendFd := -1, kernel := kernel })
  else ([], st)

/-- What is done once the real function has returned. -/
def replaceSocket (st : ProxyState) (call : ConnectCall) : List Outcome × ProxyState :=
  match st.globals.gBackendBuf, st.sock call.conn with
  | some buf, some fd =>
    if call.rc ≠ apOk ∨ st.globals.gBackendSize = 0 ∨ ¬ call.sockGet ∨ ¬ call.pairMade then ([], st)
    else
      let ((first, second), kernel) := st.kernel.socketpair numbering
      -- httpd holds the first end from now on, and the harness the second
      let (ok, kernel) := kernel.close fd
      let data := buf.take st.globals.gBackendSize
      let kernel := (kernel.send second data call.written).2.shutdown second
      ([.closed ok, .replaced (data.take call.written)],
        { st with
          sock := Function.update st.sock call.conn (some first)
          gBackendFd := second
          kernel := kernel })
  -- `g_backend_buf` or `conn->sock` is null
  | _, _ => ([], st)

/-- **`__wrap_ap_proxy_connect_backend`.** -/
def wrapConnectBackend (st : ProxyState) (call : ConnectCall) : List Outcome × ProxyState :=
  let closed := closeBackend st
  let real := (httpd numbering).run closed.2 call.moves
  let replaced := replaceSocket numbering real.2 call
  (.called :: closed.1 ++ real.1.flatten ++ replaced.1 ++ [.returned call.rc], replaced.2)

/-! ### Runs -/

/-- What happens in a run of the fuzzer. -/
inductive ProxyEvent where
  /-- The harness places a response. -/
  | place (data : List UInt8) : ProxyEvent
  /-- The input filter of a connection takes it. -/
  | taken : ProxyEvent
  /-- httpd does something. -/
  | httpd (move : HttpdMove) : ProxyEvent
  /-- httpd connects to a backend. -/
  | connect (call : ConnectCall) : ProxyEvent

/-- One event. -/
def proxyStep (st : ProxyState) : ProxyEvent → List Outcome × ProxyState
  | .place data =>
    ([.placed data], { st with
      globals :=
        { gBackendEnabled := true, gBackendBuf := some data, gBackendSize := data.length } })
  | .taken =>
    ([], { st with globals := { st.globals with gBackendBuf := none, gBackendSize := 0 } })
  | .httpd move => httpdStep numbering st move
  | .connect call => wrapConnectBackend numbering st call

/-- **The sockets of a run**, as a machine. -/
def backendSockets : Machine ProxyState ProxyEvent (List Outcome) where
  step := proxyStep numbering

end Httpd

/-! ### What is seen -/

/-- The responses and the calls so far. -/
structure Calls where
  /-- The response that was placed last. -/
  response : List UInt8 := []
  /-- How many sockets were replaced. -/
  made : ℕ := 0
  /-- The pair that the last call made. -/
  kept : Option ℕ := none

/-- A call makes a pair, or none. -/
def Calls.next (c : Calls) : Outcome → Calls
  | .placed data => { c with response := data }
  | .called => { c with kept := none }
  | .replaced _ => { c with made := c.made + 1, kept := some c.made }
  | _ => c

/-- The calls that are seen. -/
def callsOf (outs : List Outcome) : Calls := outs.foldl Calls.next {}

/-- What was written for the sockets that were replaced, in order. -/
def replacements (outs : List Outcome) : List (List UInt8) :=
  outs.filterMap fun
    | .replaced data => some data
    | _ => none

/-- The bytes that one outcome says were received at a pair. -/
def Outcome.bytesAt (p : ℕ) : Outcome → List UInt8
  | .received q r => if q = p then r.data else []
  | _ => []

/-- The bytes received at a pair. -/
def receivedAt (p : ℕ) (outs : List Outcome) : List UInt8 := outs.flatMap (Outcome.bytesAt p)

/-- **An outcome after the calls so far**: what is written is of the response that was placed
last; a pipe is whole as long as the call that made it is the last one, and so long nothing is
reset; nothing is closed twice. -/
def Outcome.Fits (c : Calls) : Outcome → Prop
  | .replaced data => data <+: c.response
  | .closed ok => ok = true
  | .sent p r => r = .brokenPipe ↔ c.kept ≠ some p
  | .received p .reset => c.kept ≠ some p
  | _ => True

/-- What a variable is for: a file refers to no socket of a pair, a connection to none but the
first end of one, and `g_backend_fd` to the second end of the pair the last call made. -/
def Holder.Suits (c : Calls) : Holder → FileObject → Prop
  | .file _, o => o = .other
  | .sock _, o => o = .other ∨ ∃ p < c.made, o = .endpoint p false
  | .backend, o => ∃ p, c.kept = some p ∧ o = .endpoint p true

/-- Every outcome fits what comes before it. -/
def Fitting (outs : List Outcome) : Prop :=
  ∀ before o after, outs = before ++ o :: after → o.Fits (callsOf before)

/-- **What the outcomes of a run, and the state it ends in, say.** -/
structure SocketsServe (numbering : Numbering FileObject) (outs : List Outcome)
    (st : ProxyState) : Prop where
  /-- Every outcome fits the calls before it. -/
  fits : Fitting outs
  /-- What is open is in one variable, and what is in a variable is open and suits it. -/
  held : HeldIn st.kernel.table st.holds (Holder.Suits (callsOf outs))
  /-- What was written for a connection is what it received and can still receive. -/
  whole : ∀ p data, (replacements outs)[p]? = some data →
    receivedAt p outs ++ (st.kernel.ends p false).unread = data
  /-- Where it was told the end, it received all of it. -/
  ended : ∀ p, .received p .eof ∈ outs → (replacements outs)[p]? = some (receivedAt p outs)
  /-- A call that connects while the response waits, and in which nothing fails, replaces the
  socket, and as much of the response is written as is taken. -/
  answers : ∀ call : ConnectCall, call.rc = apOk → call.sockGet → call.pairMade →
    st.globals.gBackendBuf ≠ none → (callsOf outs).response ≠ [] →
    ((httpd numbering).run (closeBackend st).2 call.moves).2.sock call.conn ≠ none →
    .replaced ((callsOf outs).response.take call.written) ∈
      (wrapConnectBackend numbering st call).1

section Log

variable {outs : List Outcome} {o : Outcome} {p : ℕ}

@[simp] theorem callsOf_concat : callsOf (outs ++ [o]) = (callsOf outs).next o := by
  simp [callsOf]

@[simp] theorem replacements_append (outs outs' : List Outcome) :
    replacements (outs ++ outs') = replacements outs ++ replacements outs' :=
  List.filterMap_append

@[simp] theorem receivedAt_concat :
    receivedAt p (outs ++ [o]) = receivedAt p outs ++ o.bytesAt p := by
  simp [receivedAt]

/-- A last outcome that fits. -/
theorem Fitting.concat (h : Fitting outs) (ho : o.Fits (callsOf outs)) : Fitting (outs ++ [o]) := by
  intro before o' after heq
  rcases List.eq_nil_or_concat after with rfl | ⟨init, last, rfl⟩
  · obtain ⟨rfl, hlast⟩ := List.append_inj' heq rfl
    obtain rfl := List.head_eq_of_cons_eq hlast
    exact ho
  · have hsplit : outs ++ [o] = (before ++ o' :: init) ++ [last] := by simpa using heq
    exact h before o' init (List.append_inj' hsplit rfl).1

/-- The pairs that are made are the responses that are written. -/
theorem made_callsOf : (callsOf outs).made = (replacements outs).length := by
  induction outs using List.reverseRecOn with
  | nil => rfl
  | append_singleton outs o ih =>
    rw [callsOf_concat, replacements_append, List.length_append, ← ih]
    rcases o with _ | _ | _ | _ | _ | _ | _
    all_goals rfl

/-- What was received where nothing was. -/
theorem receivedAt_eq_nil (h : ∀ r, .received p r ∉ outs) : receivedAt p outs = [] := by
  refine List.flatMap_eq_nil_iff.mpr fun o ho => ?_
  rcases o with _ | _ | _ | _ | _ | ⟨q, r⟩ | _
  case received =>
    have hq : q ≠ p := by
      rintro rfl
      exact h r ho
    exact if_neg hq
  all_goals rfl

end Log

/-! ### What is received -/

/-- **The bytes at the ends of the pairs**, given those that are not read yet. -/
structure Conserved (outs : List Outcome) (unread : ℕ → List UInt8) : Prop where
  /-- What was written was received, or is not read. -/
  whole : ∀ p data, (replacements outs)[p]? = some data → receivedAt p outs ++ unread p = data
  /-- At the end nothing is left. -/
  drained : ∀ p, .received p .eof ∈ outs → unread p = []
  /-- One receives from a pair that was made. -/
  known : ∀ p r, .received p r ∈ outs → p < (replacements outs).length

/-- **One more outcome**: the bytes it delivers come from the front of those not read. -/
theorem Conserved.concat {outs : List Outcome} {o : Outcome} {unread unread' : ℕ → List UInt8}
    (h : Conserved outs unread)
    (hflow : ∀ p < (replacements outs).length, o.bytesAt p ++ unread' p = unread p)
    (hnew : ∀ data, o = .replaced data → unread' (replacements outs).length = data)
    (hknown : ∀ p r, o = .received p r → p < (replacements outs).length)
    (heof : ∀ p, o = .received p .eof → unread p = []) :
    Conserved (outs ++ [o]) unread' where
  whole p data hdata := by
    rw [receivedAt_concat, List.append_assoc]
    by_cases hp : p < (replacements outs).length
    · rw [replacements_append, List.getElem?_append_left hp] at hdata
      rw [hflow p hp]
      exact h.whole p data hdata
    · -- the pair is the one that is made now
      have hlen : (replacements [o]).length ≤ 1 := List.length_filterMap_le _ _
      have hlt : p < (replacements (outs ++ [o])).length := (List.getElem?_eq_some_iff.mp hdata).1
      obtain rfl : p = (replacements outs).length := by
        rw [replacements_append, List.length_append] at hlt
        omega
      -- nothing was received at a pair that was not made
      have hnone : receivedAt (replacements outs).length outs = [] :=
        receivedAt_eq_nil fun r hr => absurd (h.known _ r hr) (Nat.lt_irrefl _)
      rcases o with _ | _ | _ | data' | _ | _ | _
      case replaced =>
        have hdata' : data' = data := by simpa [replacements] using hdata
        rw [hnone, hnew data' rfl, hdata']
        rfl
      all_goals simp [replacements] at hdata
  drained p hp := by
    -- where the end has been reported, nothing was unread, and so nothing is
    have hu : p < (replacements outs).length ∧ unread p = [] := by
      rcases List.mem_append.mp hp with hp | hp
      · exact ⟨h.known p _ hp, h.drained p hp⟩
      · have ho : o = .received p .eof := (List.mem_singleton.mp hp).symm
        exact ⟨hknown p _ ho, heof p ho⟩
    have hnil := hflow p hu.1
    rw [hu.2] at hnil
    exact (List.append_eq_nil_iff.mp hnil).2
  known p r hr := by
    rw [replacements_append, List.length_append]
    rcases List.mem_append.mp hr with hr | hr
    · exact Nat.lt_add_right _ (h.known p r hr)
    · exact Nat.lt_add_right _ (hknown p r (List.mem_singleton.mp hr).symm)

/-! ### The states of a run -/

/-- The first end of a pair, after some calls. -/
structure EndSuits (c : Calls) (p : ℕ) (e : SocketEnd) : Prop where
  /-- The response was finished. -/
  ended : e.ended = true
  /-- The second end is open as long as the call that made the pair is the last one. -/
  peer : e.peerClosed = true ↔ c.kept ≠ some p
  /-- No earlier is there a reset. -/
  reset : e.reset = true → c.kept ≠ some p

/-- **The state after some calls.** -/
structure Sound (c : Calls) (st : ProxyState) : Prop where
  /-- The descriptors are held. -/
  held : HeldIn st.kernel.table st.holds (Holder.Suits c)
  /-- The pairs are counted. -/
  made : st.kernel.pairs = c.made
  /-- The pair of the last call was made, and its second end is held. -/
  keeps : ∀ p, c.kept = some p → p < c.made ∧ 0 ≤ st.gBackendFd
  /-- The globals hold the response that was placed last, or none. -/
  response : ∀ buf ∈ st.globals.gBackendBuf, buf = c.response ∧ st.globals.gBackendSize = buf.length
  /-- The first ends suit the calls. -/
  ends : ∀ p < c.made, EndSuits c p (st.kernel.ends p false)

/-- What a state has at the first ends. -/
def ProxyState.unread (st : ProxyState) (p : ℕ) : List UInt8 := (st.kernel.ends p false).unread

/-- **What every step keeps.** -/
structure Serving (outs : List Outcome) (st : ProxyState) : Prop where
  /-- The outcomes fit. -/
  fits : Fitting outs
  /-- The state is sound. -/
  sound : Sound (callsOf outs) st
  /-- No bytes are lost. -/
  conserved : Conserved outs st.unread

/-- A step that is not seen, and changes no first end. -/
theorem Serving.silent {outs : List Outcome} {st st' : ProxyState} (h : Serving outs st)
    (hsound : Sound (callsOf outs) st') (hunread : st'.unread = st.unread) : Serving outs st' where
  fits := h.fits
  sound := hsound
  conserved := hunread ▸ h.conserved

/-- An outcome that tells of no bytes. -/
theorem Conserved.concat_quiet {outs : List Outcome} {o : Outcome} {unread : ℕ → List UInt8}
    (h : Conserved outs unread) (hrep : ∀ data, o ≠ .replaced data)
    (hrec : ∀ p r, o ≠ .received p r) : Conserved (outs ++ [o]) unread := by
  refine h.concat (fun p _ => ?_) (fun data ho => absurd ho (hrep data))
    (fun p r ho => absurd ho (hrec p r)) (fun p ho => absurd ho (hrec p _))
  have hbytes : o.bytesAt p = [] := by
    rcases o with _ | _ | _ | _ | _ | ⟨q, r⟩ | _
    case received => exact absurd rfl (hrec q r)
    all_goals rfl
  rw [hbytes, List.nil_append]

/-- A step that closed something. -/
theorem Serving.closed {outs : List Outcome} {st st' : ProxyState} (h : Serving outs st)
    (hsound : Sound (callsOf outs) st') (hunread : st'.unread = st.unread) :
    Serving (outs ++ [.closed true]) st' where
  fits := h.fits.concat rfl
  sound := by simpa [Calls.next] using hsound
  conserved := hunread ▸ h.conserved.concat_quiet (by simp) (by simp)

/-! ### A move of httpd -/

section Moves

variable {st : ProxyState} {c : Calls} {v fd : ℕ} {kernel : Kernel}

/-- What is held, where a file changes. -/
theorem holds_file (x : Option ℕ) :
    ProxyState.holds { st with file := Function.update st.file v x, kernel := kernel } =
      Function.update st.holds (.file v) x := by
  funext w
  rcases w with u | u | _
  · by_cases hu : u = v
    · subst hu
      simp [ProxyState.holds]
    · simp [ProxyState.holds, Function.update_of_ne, hu]
  · simp [ProxyState.holds, Function.update_of_ne]
  · simp [ProxyState.holds, Function.update_of_ne]

/-- What is held, where the socket of a connection changes. -/
theorem holds_sock (x : Option ℕ) :
    ProxyState.holds { st with sock := Function.update st.sock v x, kernel := kernel } =
      Function.update st.holds (.sock v) x := by
  funext w
  rcases w with u | u | _
  · simp [ProxyState.holds, Function.update_of_ne]
  · by_cases hu : u = v
    · subst hu
      simp [ProxyState.holds]
    · simp [ProxyState.holds, Function.update_of_ne, hu]
  · simp [ProxyState.holds, Function.update_of_ne]

/-- What is held, where `g_backend_fd` changes. -/
theorem holds_backend (x : ℤ) :
    ProxyState.holds { st with gBackendFd := x, kernel := kernel } =
      Function.update st.holds .backend (if 0 ≤ x then some x.toNat else none) := by
  funext w
  rcases w with u | u | _
  · simp [ProxyState.holds, Function.update_of_ne]
  · simp [ProxyState.holds, Function.update_of_ne]
  · simp [ProxyState.holds]

/-- Closing the descriptor of a file or of a connection changes no first end. -/
theorem close_ends_first {o : FileObject} (hlookup : kernel.table.lookup fd = some o)
    (ho : o = .other ∨ ∃ p < c.made, o = .endpoint p false) (p : ℕ) :
    (kernel.close fd).2.ends p false = kernel.ends p false := by
  rcases ho with rfl | ⟨q, -, rfl⟩
  · rw [Kernel.close_ends_other hlookup]
  · exact Kernel.close_ends_self hlookup p

/-- A sound state, where the descriptors change and the first ends do not. -/
theorem Sound.of_held (h : Sound c st) {st' : ProxyState}
    (hheld : HeldIn st'.kernel.table st'.holds (Holder.Suits c))
    (hpairs : st'.kernel.pairs = st.kernel.pairs) (hfd : st'.gBackendFd = st.gBackendFd)
    (hglobals : st'.globals = st.globals)
    (hends : ∀ p, st'.kernel.ends p false = st.kernel.ends p false) : Sound c st' where
  held := hheld
  made := hpairs.trans h.made
  keeps p hp := hfd ▸ h.keeps p hp
  response := hglobals ▸ h.response
  ends p hp := hends p ▸ h.ends p hp

/-- A sound state, where one first end changes, and still suits the calls. -/
theorem Sound.of_modify (h : Sound c st) {p : ℕ} {f : SocketEnd → SocketEnd}
    (hf : EndSuits c p (st.kernel.ends p false) → EndSuits c p (f (st.kernel.ends p false))) :
    Sound c { st with kernel := st.kernel.modify p false f } where
  held := h.held
  made := h.made
  keeps := h.keeps
  response := h.response
  ends q hq := by
    by_cases hqp : q = p
    · subst hqp
      rw [Kernel.modify_ends_self]
      exact hf (h.ends q hq)
    · rw [Kernel.modify_ends_of_ne f hqp]
      exact h.ends q hq

/-- What is not read, where one first end changes. -/
theorem unread_modify {p : ℕ} (f : SocketEnd → SocketEnd) :
    ProxyState.unread { st with kernel := st.kernel.modify p false f } =
      Function.update st.unread p (f (st.kernel.ends p false)).unread := by
  funext q
  by_cases hqp : q = p
  · subst hqp
    simp [ProxyState.unread]
  · rw [Function.update_of_ne hqp]
    simp only [ProxyState.unread, Kernel.modify_ends_of_ne f hqp]

variable {outs : List Outcome}

/-- A receipt: its bytes come from the front of those not read. -/
theorem Conserved.received {unread unread' : ℕ → List UInt8} (h : Conserved outs unread) {p : ℕ}
    (hp : p < (replacements outs).length) {r : Received}
    (hunread : unread' = Function.update unread p (unread' p))
    (hflow : r.data ++ unread' p = unread p) (heof : r = .eof → unread p = []) :
    Conserved (outs ++ [.received p r]) unread' := by
  refine h.concat (fun q _ => ?_) (by simp) ?_ ?_
  · by_cases hq : q = p
    · subst hq
      simpa [Outcome.bytesAt] using hflow
    · have hsame : unread' q = unread q := by rw [hunread, Function.update_of_ne hq]
      simp [Outcome.bytesAt, Ne.symm hq, hsame]
  · rintro q r' ho
    obtain ⟨rfl, -⟩ := Outcome.received.inj ho
    exact hp
  · rintro q ho
    obtain ⟨rfl, hr⟩ := Outcome.received.inj ho
    exact heof hr

/-- Something is received at the first end of a pair. -/
theorem Serving.received (h : Serving outs st) {p : ℕ} (hp : p < (callsOf outs).made) (n : ℕ) :
    Serving (outs ++ [.received p (st.kernel.recv p false n).1])
      { st with kernel := (st.kernel.recv p false n).2 } := by
  have hlen : p < (replacements outs).length := by
    rw [← made_callsOf]
    exact hp
  have hsuits := h.sound.ends p hp
  rcases st.kernel.recv_cases p false n with hr | ⟨hnil, hreset, hr⟩ | ⟨hnil, r, hnone, hr⟩
  · -- bytes are taken from the front of what is unread
    rw [hr]
    refine ⟨h.fits.concat trivial, ?_, h.conserved.received hlen ?_ ?_ (by simp)⟩
    · rw [callsOf_concat]
      exact h.sound.of_modify (f := fun e => { e with unread := e.unread.drop n })
        fun he => ⟨he.ended, he.peer, he.reset⟩
    · rw [unread_modify]
      simp
    · rw [unread_modify, Function.update_self]
      exact List.take_append_drop n _
  · rw [hr]
    -- the reset is reported once, and no byte is lost with it
    refine ⟨h.fits.concat (hsuits.reset hreset), ?_, h.conserved.received hlen ?_ ?_ (by simp)⟩
    · rw [callsOf_concat]
      exact h.sound.of_modify (f := fun e => { e with reset := false })
        fun he => ⟨he.ended, he.peer, by simp⟩
    · rw [unread_modify]
      simp
    · rw [unread_modify, Function.update_self]
      simp only [Received.data, List.nil_append]
      rfl
  · -- nothing changes
    rw [hr]
    have hfits : (Outcome.received p r).Fits (callsOf outs) := by
      rcases hnone with rfl | rfl
      · trivial
      · trivial
    have hdata : r.data = [] := by
      rcases hnone with rfl | rfl
      · rfl
      · rfl
    refine ⟨h.fits.concat hfits, ?_, h.conserved.received hlen ?_ ?_ fun _ => hnil⟩
    · rw [callsOf_concat]
      exact h.sound
    · simp
    · rw [hdata]
      rfl

/-- Something is sent at the first end of a pair. -/
theorem Serving.sent (h : Serving outs st) {p : ℕ}
    (hlookup : st.kernel.table.lookup fd = some (.endpoint p false))
    (hp : p < (callsOf outs).made) (data : List UInt8) (room : ℕ) :
    Serving (outs ++ [.sent p (st.kernel.send fd data room).1])
      { st with kernel := (st.kernel.send fd data room).2 } := by
  have hpeer := (h.sound.ends p hp).peer
  by_cases hclosed : (st.kernel.ends p false).peerClosed = true
  · have hsend : st.kernel.send fd data room = (.brokenPipe, st.kernel) := by
      simp [Kernel.send, hlookup, hclosed]
    rw [hsend]
    refine ⟨h.fits.concat ?_, ?_, h.conserved.concat_quiet (by simp) (by simp)⟩
    · simpa [Outcome.Fits] using hpeer.mp hclosed
    · rw [callsOf_concat]
      exact h.sound
  · obtain ⟨f, hf⟩ : ∃ f, f = fun e : SocketEnd =>
      { e with unread := e.unread ++ data.take room } := ⟨_, rfl⟩
    have hsend : st.kernel.send fd data room =
        (.taken (data.take room).length, st.kernel.modify p true f) := by
      simp [Kernel.send, hlookup, hclosed, hf]
    -- what is sent waits at the second end
    have hends : ∀ q, (st.kernel.modify p true f).ends q false = st.kernel.ends q false := by
      intro q
      by_cases hq : q = p
      · subst hq
        exact Kernel.modify_ends_not (s := false) _
      · exact Kernel.modify_ends_of_ne _ hq false
    rw [hsend]
    refine ⟨h.fits.concat ?_, ?_, ?_⟩
    · have hkept : (callsOf outs).kept = some p := by
        by_contra hne
        exact hclosed (hpeer.mpr hne)
      simp [Outcome.Fits, hkept]
    · rw [callsOf_concat]
      exact h.sound.of_held h.sound.held rfl rfl rfl hends
    · have hunread : ProxyState.unread { st with kernel := st.kernel.modify p true f } =
          st.unread := by
        funext q
        simp only [ProxyState.unread, hends]
      rw [hunread]
      exact h.conserved.concat_quiet (by simp) (by simp)

/-- **A move of httpd keeps everything**, and calls nothing. -/
theorem httpdStep_serving (numbering : Numbering FileObject) (h : Serving outs st)
    (move : HttpdMove) :
    Serving (outs ++ (httpdStep numbering st move).1) (httpdStep numbering st move).2 ∧
      callsOf (outs ++ (httpdStep numbering st move).1) = callsOf outs := by
  have hid : Serving (outs ++ []) st ∧ callsOf (outs ++ []) = callsOf outs := by simp [h]
  rcases move with v | v | v | v | ⟨v, n⟩ | ⟨v, data, room⟩
  case openFile =>
    -- a variable that holds a descriptor is not opened again
    rcases hv : st.file v with _ | fd
    · simp only [httpdStep, hv, List.append_nil, and_true]
      refine h.silent (h.sound.of_held ?_ rfl rfl rfl fun p => rfl) rfl
      rw [holds_file]
      exact h.sound.held.insert (numbering.next_notMem _) hv rfl
    · simpa only [httpdStep, hv] using hid
  case closeFile =>
    rcases hv : st.file v with _ | fd
    · simpa only [httpdStep, hv] using hid
    · have hheld : st.holds (.file v) = some fd := hv
      obtain ⟨o, ho, hsuits⟩ := h.sound.held.suits _ _ hheld
      obtain ⟨hok, htable, hpairs⟩ := Kernel.close_of_mem (h.sound.held.mem hheld)
      have hends := close_ends_first (c := callsOf outs) ho (Or.inl hsuits)
      simp only [httpdStep, hv, hok]
      refine ⟨h.closed (h.sound.of_held ?_ hpairs rfl rfl hends) ?_, by simp [Calls.next]⟩
      · rw [holds_file, htable]
        exact h.sound.held.erase hv
      · funext p
        simp only [ProxyState.unread, hends]
  case openSock =>
    rcases hv : st.sock v with _ | fd
    · simp only [httpdStep, hv, List.append_nil, and_true]
      refine h.silent (h.sound.of_held ?_ rfl rfl rfl fun p => rfl) rfl
      rw [holds_sock]
      -- it is a new object, and no end of a pair
      exact h.sound.held.insert (numbering.next_notMem _) hv (Or.inl rfl)
    · simpa only [httpdStep, hv] using hid
  case closeSock =>
    rcases hv : st.sock v with _ | fd
    · simpa only [httpdStep, hv] using hid
    · have hheld : st.holds (.sock v) = some fd := hv
      obtain ⟨o, ho, hsuits⟩ := h.sound.held.suits _ _ hheld
      obtain ⟨hok, htable, hpairs⟩ := Kernel.close_of_mem (h.sound.held.mem hheld)
      -- the socket may be the first end of a pair, whose bytes stay unread
      have hends := close_ends_first (c := callsOf outs) ho hsuits
      simp only [httpdStep, hv, hok]
      refine ⟨h.closed (h.sound.of_held ?_ hpairs rfl rfl hends) ?_, by simp [Calls.next]⟩
      · rw [holds_sock, htable]
        exact h.sound.held.erase hv
      · funext p
        simp only [ProxyState.unread, hends]
  case recv =>
    rcases hv : st.sock v with _ | fd
    · simpa only [httpdStep, hv, Option.bind_none] using hid
    · -- a socket that no call has replaced has no other end here
      obtain ⟨o, ho, rfl | ⟨p, hp, rfl⟩⟩ := h.sound.held.suits (.sock v) fd hv
      · simpa only [httpdStep, hv, Option.bind_some, ho] using hid
      · simp only [httpdStep, hv, Option.bind_some, ho]
        refine ⟨?_, by simp [Calls.next]⟩
        exact h.received hp n
  case send =>
    rcases hv : st.sock v with _ | fd
    · simpa only [httpdStep, hv] using hid
    · obtain ⟨o, ho, rfl | ⟨p, hp, rfl⟩⟩ := h.sound.held.suits (.sock v) fd hv
      · simp only [httpdStep, hv, ho, Kernel.send]
        exact hid
      · simp only [httpdStep, hv, ho]
        refine ⟨?_, by simp [Calls.next]⟩
        exact h.sent ho hp data room

/-- Any moves of httpd. -/
theorem httpd_serving (numbering : Numbering FileObject) (h : Serving outs st)
    (moves : List HttpdMove) :
    Serving (outs ++ ((httpd numbering).run st moves).1.flatten)
        ((httpd numbering).run st moves).2 ∧
      callsOf (outs ++ ((httpd numbering).run st moves).1.flatten) = callsOf outs := by
  induction moves generalizing outs st with
  | nil => simpa using h
  | cons move moves ih =>
    obtain ⟨hserving, hcalls⟩ := httpdStep_serving numbering h move
    obtain ⟨hrest, hcalls'⟩ := ih hserving
    simp only [Machine.run_cons, List.flatten_cons, ← List.append_assoc]
    exact ⟨hrest, hcalls'.trans hcalls⟩

end Moves

/-! ### A call of the wrapper -/

section Wrapper

variable {st : ProxyState} {outs : List Outcome}

/-- **The beginning of a call**: where there is a second end, it is closed, and none is held
any more. -/
theorem closeBackend_serving (h : Serving outs st) :
    Serving (outs ++ (.called :: (closeBackend st).1)) (closeBackend st).2 ∧
      (callsOf (outs ++ (.called :: (closeBackend st).1))).kept = none := by
  have hfits : Fitting (outs ++ [.called]) := h.fits.concat trivial
  have hconserved : Conserved (outs ++ [.called]) st.unread :=
    h.conserved.concat_quiet (by simp) (by simp)
  by_cases hfd : 0 ≤ st.gBackendFd
  · have hheld : st.holds .backend = some st.gBackendFd.toNat := if_pos hfd
    obtain ⟨o, hlookup, p, hkept, rfl⟩ := h.sound.held.suits _ _ hheld
    obtain ⟨hok, htable, hpairs⟩ := Kernel.close_of_mem (h.sound.held.mem hheld)
    have hcalls : callsOf (outs ++ [.called, .closed true]) =
        { callsOf outs with kept := none } := by
      simp [callsOf, Calls.next]
    -- the first end of the pair sees that its peer is closed, and the other pairs nothing
    obtain ⟨hself, hended, hpeer⟩ := Kernel.close_ends_not (s := true) hlookup
    rw [Bool.not_true] at hself hended hpeer
    have hother : ∀ q, q ≠ p → (st.kernel.close st.gBackendFd.toNat).2.ends q false =
        st.kernel.ends q false := fun q hq => Kernel.close_ends_of_ne hlookup hq false
    have hunread : ProxyState.unread { st with
        gBackendFd := -1, kernel := (st.kernel.close st.gBackendFd.toNat).2 } = st.unread := by
      funext q
      by_cases hq : q = p
      · subst hq
        exact hself
      · exact congrArg SocketEnd.unread (hother q hq)
    have hlist : outs ++ [.called, .closed true] = (outs ++ [.called]) ++ [.closed true] := by simp
    simp only [closeBackend, hfd, if_true, hok]
    refine ⟨⟨hlist ▸ hfits.concat rfl, ?_, ?_⟩, by rw [hcalls]⟩
    · rw [hcalls]
      refine ⟨?_, hpairs.trans h.sound.made, by simp, h.sound.response, fun q hq => ?_⟩
      · -- no other variable is meant for the pair of the last call
        have hheld' := h.sound.held.erase hheld
        rw [holds_backend, htable]
        refine hheld'.mono fun v fd a hv hsuits => ?_
        rcases v with v | c | _
        · exact hsuits
        · exact hsuits
        · simp at hv
      · -- the peer of every pair is closed now, as it was for those before the last one
        by_cases hqp : q = p
        · subst hqp
          exact ⟨hended, by simpa using hpeer, by simp⟩
        · have hsuits := h.sound.ends q hq
          have hclosed : (st.kernel.ends q false).peerClosed = true := by
            refine hsuits.peer.mpr ?_
            rw [hkept]
            simpa using Ne.symm hqp
          rw [hother q hqp]
          exact ⟨hsuits.ended, by simpa using hclosed, by simp⟩
    · rw [hunread, hlist]
      exact hconserved.concat_quiet (by simp) (by simp)
  · -- nothing is closed, and no pair was kept
    have hkept : (callsOf outs).kept = none := by
      rcases Option.eq_none_or_eq_some (callsOf outs).kept with hnone | ⟨p, hp⟩
      · exact hnone
      · exact absurd (h.sound.keeps p hp).2 hfd
    have hcalls : callsOf (outs ++ [.called]) = callsOf outs := by
      rw [callsOf_concat]
      simp only [Calls.next, ← hkept]
    simp only [closeBackend, hfd, if_false, hcalls]
    exact ⟨⟨hfits, hcalls ▸ h.sound, hconserved⟩, hkept⟩

/-- **What replacing a socket does to the system**: its descriptor is closed, there are two new
ones, and at the first end of the new pair the response waits to be read. -/
theorem replaced_kernel (numbering : Numbering FileObject) {k : Kernel} {fd : ℕ} {o : FileObject}
    (hlookup : k.table.lookup fd = some o)
    (ho : o = .other ∨ ∃ p < k.pairs, o = .endpoint p false) (data : List UInt8) (room : ℕ)
    {first second : ℕ} (hfirst : first = (k.socketpair numbering).1.1)
    (hsecond : second = (k.socketpair numbering).1.2) {k₁ k₂ : Kernel}
    (hk₁ : k₁ = ((k.socketpair numbering).2.close fd).2)
    (hk₂ : k₂ = (k₁.send second data room).2.shutdown second) :
    ((k.socketpair numbering).2.close fd).1 = true ∧ k₂.pairs = k.pairs + 1 ∧
      (∀ n, k₂.table.lookup n = (((k.table.erase fd).insert first (.endpoint k.pairs false)).insert
        second (.endpoint k.pairs true)).lookup n) ∧
          k₂.ends k.pairs false = { unread := data.take room, ended := true } ∧
            ∀ q < k.pairs, k₂.ends q false = k.ends q false := by
  obtain ⟨hfree, hfree', hne⟩ := k.socketpair_notMem numbering
  rw [← hfirst] at hfree hne
  rw [← hsecond] at hfree' hne
  have hfd : fd ∈ k.table := AList.lookup_isSome.mp (by simp [hlookup])
  have hfd₁ : fd ≠ first := fun h => hfree (h ▸ hfd)
  have hfd₂ : fd ≠ second := fun h => hfree' (h ▸ hfd)
  have hpair : ∀ n, (k.socketpair numbering).2.table.lookup n =
      if n = second then some (.endpoint k.pairs true)
      else if n = first then some (.endpoint k.pairs false) else k.table.lookup n := by
    intro n
    rw [Kernel.socketpair_lookup, hfirst, hsecond]
  have hlookup' : (k.socketpair numbering).2.table.lookup fd = some o := by
    rw [hpair, if_neg hfd₂, if_neg hfd₁, hlookup]
  have hmem : fd ∈ (k.socketpair numbering).2.table := by
    refine AList.lookup_isSome.mp ?_
    rw [hlookup']
    rfl
  obtain ⟨hok, htable, hpairs⟩ := Kernel.close_of_mem hmem
  rw [← hk₁] at htable hpairs
  -- the pair is new, so closing the old socket does not touch it
  have hnew : k₁.ends k.pairs = fun _ => {} := by
    rw [hk₁]
    rcases ho with rfl | ⟨q, hq, rfl⟩
    · rw [Kernel.close_ends_other hlookup', Kernel.socketpair_ends_self]
    · funext s
      rw [Kernel.close_ends_of_ne hlookup' (Nat.ne_of_gt hq), Kernel.socketpair_ends_self]
  have hold : ∀ q < k.pairs, k₁.ends q false = k.ends q false := by
    intro q hq
    have hmem : (k.socketpair numbering).2.ends q = k.ends q :=
      Kernel.socketpair_ends_of_ne (Nat.ne_of_lt hq)
    rw [hk₁, close_ends_first (c := { made := k.pairs }) hlookup' ho, hmem]
  have hsend : k₁.table.lookup second = some (.endpoint k.pairs true) := by
    rw [htable, AList.lookup_erase_ne (Ne.symm hfd₂), hpair, if_pos rfl]
  obtain ⟨htable₂, hpairs₂, hserved, hrest⟩ := Kernel.send_shutdown hsend hnew data room
  rw [← hk₂] at htable₂ hpairs₂ hserved hrest
  refine ⟨hok, hpairs₂.trans hpairs, fun n => ?_, hserved, fun q hq => ?_⟩
  · rw [htable₂, htable]
    by_cases hnfd : n = fd
    · rw [hnfd, AList.lookup_erase, AList.lookup_insert_ne hfd₂, AList.lookup_insert_ne hfd₁,
        AList.lookup_erase]
    · rw [AList.lookup_erase_ne hnfd, hpair]
      by_cases hn₂ : n = second
      · rw [if_pos hn₂, hn₂, AList.lookup_insert]
      · rw [if_neg hn₂, AList.lookup_insert_ne hn₂]
        by_cases hn₁ : n = first
        · rw [if_pos hn₁, hn₁, AList.lookup_insert]
        · rw [if_neg hn₁, AList.lookup_insert_ne hn₁, AList.lookup_erase_ne hnfd]
  · rw [hrest q (Nat.ne_of_lt hq), hold q hq]

/-- **The descriptors, where a socket is replaced**: the connection holds the first end, and the
harness the second. -/
theorem held_replaced {c : Calls} (h : Sound c st) (hkept : c.kept = none) {v fd first second : ℕ}
    (hheld : st.holds (.sock v) = some fd)
    (hfree : first ∉ st.kernel.table ∧ second ∉ st.kernel.table ∧ second ≠ first) {kernel : Kernel}
    (htable : ∀ n, kernel.table.lookup n = (((st.kernel.table.erase fd).insert first
      (.endpoint st.kernel.pairs false)).insert second
        (.endpoint st.kernel.pairs true)).lookup n) :
    HeldIn kernel.table
      (ProxyState.holds { st with
        sock := Function.update st.sock v (some first), gBackendFd := second, kernel := kernel })
      (Holder.Suits { c with made := c.made + 1, kept := some c.made }) := by
  obtain ⟨hfirst, hsecond, hne⟩ := hfree
  -- the second end of no pair is held
  have hnone : st.holds .backend = none := by
    rcases Option.eq_none_or_eq_some (st.holds .backend) with hnone | ⟨n, hn⟩
    · exact hnone
    · obtain ⟨o, -, p, hp, -⟩ := h.held.suits _ _ hn
      rw [hkept] at hp
      cases hp
  have hheld' : HeldIn st.kernel.table st.holds
      (Holder.Suits { c with made := c.made + 1, kept := some c.made }) := by
    refine h.held.mono fun w n a hw hsuits => ?_
    rcases w with w | w | _
    · exact hsuits
    · rcases hsuits with ha | ⟨p, hp, ha⟩
      · exact Or.inl ha
      · exact Or.inr ⟨p, Nat.lt_succ_of_lt hp, ha⟩
    · rw [hnone] at hw
      cases hw
  have hgone := hheld'.erase hheld
  have hsock : Holder.Suits { c with made := c.made + 1, kept := some c.made } (.sock v)
      (.endpoint st.kernel.pairs false) := Or.inr ⟨c.made, Nat.lt_succ_self _, by rw [h.made]⟩
  have hbackend : Holder.Suits { c with made := c.made + 1, kept := some c.made } .backend
      (.endpoint st.kernel.pairs true) := ⟨c.made, rfl, by rw [h.made]⟩
  have hold : first ∉ st.kernel.table.erase fd := fun hmem => hfirst (AList.mem_erase.mp hmem).2
  have hput := hgone.insert hold (by simp) hsock
  rw [Function.update_idem] at hput
  have hnew : second ∉
      (st.kernel.table.erase fd).insert first (.endpoint st.kernel.pairs false) := by
    rw [AList.mem_insert, not_or]
    exact ⟨hne, fun hmem => hsecond (AList.mem_erase.mp hmem).2⟩
  have hall := hput.insert hnew (by rw [Function.update_of_ne (by simp), hnone]) hbackend
  have hholds : ProxyState.holds { st with
      sock := Function.update st.sock v (some first), gBackendFd := second, kernel := kernel } =
        Function.update (Function.update st.holds (.sock v) (some first)) .backend
          (some second) := by
    funext w
    rcases w with w | w | _
    · simp [ProxyState.holds, Function.update_of_ne]
    · by_cases hw : w = v
      · subst hw
        simp [ProxyState.holds, Function.update_of_ne]
      · simp [ProxyState.holds, Function.update_of_ne, hw]
    · simp [ProxyState.holds]
  rw [hholds]
  exact hall.congr htable

/-- **The end of a call**: where the socket is replaced, the connection has a whole response to
read. -/
theorem replaceSocket_serving (numbering : Numbering FileObject) (h : Serving outs st)
    (hkept : (callsOf outs).kept = none)
    (call : ConnectCall) :
    Serving (outs ++ (replaceSocket numbering st call).1) (replaceSocket numbering st call).2 := by
  have hid : Serving (outs ++ []) st := by simpa using h
  -- without a response, a socket, or room for a pair, nothing is done
  rcases hbuf : st.globals.gBackendBuf with _ | buf
  · simpa only [replaceSocket, hbuf] using hid
  rcases hsock : st.sock call.conn with _ | fd
  · simpa only [replaceSocket, hbuf, hsock] using hid
  by_cases hcond : call.rc ≠ apOk ∨ st.globals.gBackendSize = 0 ∨ ¬ call.sockGet ∨ ¬ call.pairMade
  · simpa only [replaceSocket, hbuf, hsock, if_pos hcond] using hid
  simp only [replaceSocket, hbuf, hsock, if_neg hcond]
  have hheld : st.holds (.sock call.conn) = some fd := hsock
  obtain ⟨o, hlookup, hsuits⟩ := h.sound.held.suits _ _ hheld
  obtain ⟨hfree, hfree', hne⟩ := st.kernel.socketpair_notMem numbering
  -- the descriptors and the kernels on the way get names, so that no later goal unfolds them
  obtain ⟨first, hfirst⟩ : ∃ n, n = (st.kernel.socketpair numbering).1.1 := ⟨_, rfl⟩
  obtain ⟨second, hsecond⟩ : ∃ n, n = (st.kernel.socketpair numbering).1.2 := ⟨_, rfl⟩
  obtain ⟨data, hdata⟩ : ∃ d, d = buf.take st.globals.gBackendSize := ⟨_, rfl⟩
  obtain ⟨k₁, hk₁⟩ : ∃ k, k = ((st.kernel.socketpair numbering).2.close fd).2 := ⟨_, rfl⟩
  obtain ⟨k₂, hk₂⟩ : ∃ k, k = (k₁.send second data call.written).2.shutdown second :=
    ⟨_, rfl⟩
  obtain ⟨hok, hpairs, htable, hserved, hrest⟩ := replaced_kernel numbering hlookup
    (h.sound.made ▸ hsuits) data call.written hfirst hsecond hk₁ hk₂
  rw [hok, ← hk₁, ← hfirst, ← hsecond, ← hdata, ← hk₂]
  rw [← hfirst] at hfree hne
  rw [← hsecond] at hfree' hne
  have hcalls : callsOf (outs ++ [.closed true, .replaced (data.take call.written)]) =
      { callsOf outs with
        made := (callsOf outs).made + 1
        kept := some (callsOf outs).made } := by
    simp [callsOf, Calls.next]
  have hlist : outs ++ [.closed true, .replaced (data.take call.written)] =
      (outs ++ [.closed true]) ++ [.replaced (data.take call.written)] := by simp
  have hclosed : Fitting (outs ++ [.closed true]) := h.fits.concat rfl
  have hquiet : Conserved (outs ++ [.closed true]) st.unread :=
    h.conserved.concat_quiet (by simp) (by simp)
  obtain ⟨hresponse, hsize⟩ := h.sound.response buf hbuf
  refine ⟨hlist ▸ hclosed.concat ?_, ?_, ?_⟩
  · -- what is written is the beginning of the response
    rw [callsOf_concat, hdata, hresponse]
    exact (List.take_prefix _ _).trans (List.take_prefix _ _)
  · -- the state is sound for one call more, which keeps its pair
    rw [hcalls]
    refine ⟨?_, by rw [hpairs, h.sound.made], ?_, h.sound.response, fun p hp => ?_⟩
    · exact held_replaced h.sound hkept hheld ⟨hfree, hfree', hne⟩ htable
    · intro p hp
      obtain rfl := Option.some.inj hp
      exact ⟨Nat.lt_succ_self _, Int.natCast_nonneg _⟩
    · -- an earlier pair is as it was, and the new one has the data and its end
      rcases Nat.lt_succ_iff_lt_or_eq.mp hp with hlt | rfl
      · have hends := h.sound.ends p hlt
        have hpeer : (st.kernel.ends p false).peerClosed = true := by
          refine hends.peer.mpr ?_
          rw [hkept]
          simp
        rw [hrest p (h.sound.made ▸ hlt)]
        refine ⟨hends.ended, ?_, fun _ => ?_⟩
        · simpa [hpeer] using Nat.ne_of_gt hlt
        · simpa using Nat.ne_of_gt hlt
      · rw [← h.sound.made, hserved]
        exact ⟨rfl, by simp, by simp⟩
  · -- no other pair gets a byte, and what is unread of the new one is what was written
    rw [hlist]
    have hlen : (replacements (outs ++ [.closed true])).length = st.kernel.pairs := by
      rw [h.sound.made, made_callsOf]
      simp [replacements]
    refine hquiet.concat (fun p hp => ?_) ?_ (by simp) (by simp)
    · simp only [ProxyState.unread, hrest p (hlen ▸ hp)]
      rfl
    · rintro data' hdata'
      obtain rfl := Outcome.replaced.inj hdata'
      rw [hlen]
      simp only [ProxyState.unread, hserved]

/-- **A call of the wrapper keeps everything.** -/
theorem wrapConnectBackend_serving (numbering : Numbering FileObject) (h : Serving outs st)
    (call : ConnectCall) :
    Serving (outs ++ (wrapConnectBackend numbering st call).1)
      (wrapConnectBackend numbering st call).2 := by
  obtain ⟨hclosed, hkept⟩ := closeBackend_serving h
  obtain ⟨hreal, hcalls⟩ := httpd_serving numbering hclosed call.moves
  rw [← hcalls] at hkept
  have hreplaced := replaceSocket_serving numbering hreal hkept call
  have hsame : ∀ outs', callsOf (outs' ++ [.returned call.rc]) = callsOf outs' := fun outs' => by
    rw [callsOf_concat]
    rfl
  have houts : ∀ o₁ o₂ o₃ : List Outcome, outs ++ (.called :: o₁ ++ o₂ ++ o₃ ++
      [.returned call.rc]) = outs ++ (.called :: o₁) ++ o₂ ++ o₃ ++ [.returned call.rc] := by
    simp
  simp only [wrapConnectBackend]
  rw [houts]
  exact ⟨hreplaced.fits.concat trivial, (hsame _).symm ▸ hreplaced.sound,
    hreplaced.conserved.concat_quiet (by simp) (by simp)⟩

/-- httpd does not touch the globals of the harness. -/
theorem globals_httpdStep (numbering : Numbering FileObject) (st : ProxyState) (move : HttpdMove) :
    (httpdStep numbering st move).2.globals = st.globals := by
  rcases move with v | v | v | v | ⟨v, n⟩ | ⟨v, data, room⟩
  case send =>
    rcases hv : st.sock v with _ | fd
    · simp only [httpdStep, hv]
    · simp only [httpdStep, hv]
      split <;> rfl
  all_goals
    simp only [httpdStep]
    split <;> rfl

theorem globals_httpd (numbering : Numbering FileObject) (st : ProxyState)
    (moves : List HttpdMove) :
    ((httpd numbering).run st moves).2.globals = st.globals := by
  induction moves generalizing st with
  | nil => rfl
  | cons move moves ih =>
    rw [Machine.run_cons]
    exact (ih _).trans (globals_httpdStep numbering st move)

/-- **A call in which nothing fails replaces the socket.** -/
theorem replaced_mem_wrapConnectBackend (numbering : Numbering FileObject) {data : List UInt8}
    (hne : data ≠ []) (hbuf : st.globals.gBackendBuf = some data)
    (hsize : st.globals.gBackendSize = data.length) {call : ConnectCall} (hrc : call.rc = apOk)
    (hget : call.sockGet = true) (hpair : call.pairMade = true)
    (hsock : ((httpd numbering).run (closeBackend st).2 call.moves).2.sock call.conn ≠ none) :
    .replaced (data.take call.written) ∈ (wrapConnectBackend numbering st call).1 := by
  have hclose : (closeBackend st).2.globals = st.globals := by
    rw [closeBackend]
    split_ifs <;> rfl
  have hglobals := (globals_httpd numbering (closeBackend st).2 call.moves).trans hclose
  obtain ⟨fd, hfd⟩ := Option.ne_none_iff_exists'.mp hsock
  have hpos : ¬ data.length = 0 := mt List.length_eq_zero_iff.mp hne
  have hmem : .replaced (data.take call.written) ∈ (replaceSocket numbering
      ((httpd numbering).run (closeBackend st).2 call.moves).2 call).1 := by
    simp [replaceSocket, hglobals, hbuf, hsize, hfd, hrc, hget, hpair, hpos]
  simp [wrapConnectBackend, hmem]

theorem Serving.serve (numbering : Numbering FileObject) (h : Serving outs st) :
    SocketsServe numbering outs st where
  fits := h.fits
  held := h.sound.held
  whole := h.conserved.whole
  ended p hp := by
    have hlt := h.conserved.known p _ hp
    have hwhole := h.conserved.whole p _ (List.getElem?_eq_getElem hlt)
    rw [h.conserved.drained p hp, List.append_nil] at hwhole
    rw [List.getElem?_eq_getElem hlt, hwhole]
  answers call hrc hget hpair hbuf hne hsock := by
    obtain ⟨data, hdata⟩ := Option.ne_none_iff_exists'.mp hbuf
    obtain ⟨hresponse, hsize⟩ := h.sound.response data hdata
    rw [← hresponse] at hne ⊢
    exact replaced_mem_wrapConnectBackend numbering hne hdata hsize hrc hget hpair hsock

/-- **An event keeps everything.** -/
theorem proxyStep_serving (numbering : Numbering FileObject) (h : Serving outs st)
    (event : ProxyEvent) :
    Serving (outs ++ (proxyStep numbering st event).1) (proxyStep numbering st event).2 := by
  rcases event with data | _ | move | call
  case place =>
    simp only [proxyStep]
    refine ⟨h.fits.concat trivial, ?_, h.conserved.concat_quiet (by simp) (by simp)⟩
    rw [callsOf_concat]
    refine ⟨h.sound.held.mono fun v fd a _ hsuits => ?_, h.sound.made, h.sound.keeps,
      by simp [Calls.next], fun p hp => ?_⟩
    · rcases v with v | c | _
      all_goals exact hsuits
    · exact ⟨(h.sound.ends p hp).ended, (h.sound.ends p hp).peer, (h.sound.ends p hp).reset⟩
  case taken =>
    simp only [proxyStep, List.append_nil]
    exact ⟨h.fits, ⟨h.sound.held, h.sound.made, h.sound.keeps, by simp, h.sound.ends⟩,
      h.conserved⟩
  case httpd => exact (httpdStep_serving numbering h move).1
  case connect => exact wrapConnectBackend_serving numbering h call

/-- What every step keeps holds before the first. -/
theorem serving_start : Serving [] {} where
  fits before o after heq := by simp at heq
  sound :=
    { held := ⟨fun v fd hv => by rcases v with v | v | _ <;> simp [ProxyState.holds] at hv,
        fun v w fd hv => by rcases v with v | v | _ <;> simp [ProxyState.holds] at hv,
        fun fd hfd => absurd hfd (AList.notMem_empty fd)⟩
      made := rfl
      keeps := fun p hp => by simp [callsOf] at hp
      response := fun buf hbuf => by simp at hbuf
      ends := fun p hp => by simp [callsOf] at hp }
  conserved :=
    { whole := fun p data h => by simp [replacements] at h
      drained := fun p hp => by simp at hp
      known := fun p r hr => by simp at hr }

end Wrapper

/-- **The sockets of a whole run**: whatever files and connections httpd opens, reads, writes and
closes, whichever connects to backends are intercepted, and however descriptors are numbered,
nothing is closed twice, every descriptor that is open is in one variable that is meant for it,
every connection receives what was written for it, no pipe breaks before the wrapper is called
again, and a call in which nothing fails replaces the socket. -/
theorem backendSockets_serve (numbering : Numbering FileObject) (events : List ProxyEvent) :
    SocketsServe numbering ((backendSockets numbering).run {} events).1.flatten
      ((backendSockets numbering).run {} events).2 := by
  have hrun : ∀ (events : List ProxyEvent) (outs : List Outcome) (st : ProxyState),
      Serving outs st → Serving (outs ++ ((backendSockets numbering).run st events).1.flatten)
        ((backendSockets numbering).run st events).2 := by
    intro events
    induction events with
    | nil => exact fun outs st h => by simpa using h
    | cons event events ih =>
      intro outs st h
      simp only [Machine.run_cons, List.flatten_cons, ← List.append_assoc]
      exact ih _ _ (proxyStep_serving numbering h event)
  exact (hrun events [] {} serving_start).serve numbering

end Apatchy
