import Apatchy.Foundations.Blocks
import Apatchy.Foundations.Machine
import Apatchy.Harness.MultiRequest

/-!
# The input from standard input

Built to run alone, `mod_fuzzy` and `mod_fuzzy_multi` read their input from standard input,
with one and the same `read_stdin_and_process`: whatever a `read` gives is copied behind what
was read before, into a buffer that is moved to one of twice its capacity when there is no
room. The loop is a machine whose inputs are what the reads give, and which answers the
copies it makes (`Apatchy.stdinReader`); `Apatchy.readStdinAndProcess` is the whole function,
for both harnesses. What APR's pools give is a parameter (`Apatchy.Pool`): a block of the size
asked for, with anything in it.

The capacity is doubled at most once for one read, and that is enough, because a read never
gives more than the first capacity (`Apatchy.Represents.madeRoom`). A turn of the loop is
safe, and appends what was read to what the buffer represents (`Apatchy.Represents.turn`); so
no copy leaves its buffer, and in the end all that was read is at its front
(`Apatchy.stdinReader_keeps`).
-/

namespace Apatchy

/-! ### The loop -/

/-- `sizeof(buf)`, for the buffer `read` fills. -/
def readSize : ℕ := 4096

/-- The first capacity. -/
def firstCapacity : UInt64 := 16384

/-- What a `read` that returns a positive number has put into `buf`. -/
structure ReadChunk where
  /-- The bytes read. -/
  bytes : List UInt8
  /-- There are some. -/
  length_pos : 0 < bytes.length
  /-- They fit in `buf`. -/
  length_le : bytes.length ≤ readSize

/-- `apr_palloc`: a block for every size. Within one call of the harness no size is asked for
twice. -/
structure Pool where
  /-- The block, as it is given. -/
  palloc : UInt64 → List UInt8
  /-- It has the size asked for. -/
  length_palloc : ∀ size, (palloc size).length = size.toNat

/-- The variables of `read_stdin_and_process`. -/
structure StdinState where
  /-- The block `input_buf` points to. -/
  inputBuf : List UInt8
  /-- `total`. -/
  total : UInt64
  /-- `capacity`. -/
  capacity : UInt64

/-- The variables before the loop. -/
def stdinStart (pool : Pool) : StdinState where
  inputBuf := pool.palloc firstCapacity
  total := 0
  capacity := firstCapacity

/-- `memcpy(new_data, input_buf, total)`, with `new_data` of twice the capacity. -/
def moveCopy (pool : Pool) (st : StdinState) : Copy UInt8 where
  block := pool.palloc (st.capacity * 2)
  offset := 0
  source := st.inputBuf
  count := st.total.toNat

/-- The `if` of the loop: where `n` more bytes do not fit, the buffer is moved to one of twice
the capacity. Its answer is the copies made. -/
def makeRoom (pool : Pool) (n : UInt64) (st : StdinState) : List (Copy UInt8) × StdinState :=
  if st.total + n > st.capacity then
    ([moveCopy pool st],
      { st with inputBuf := (moveCopy pool st).result, capacity := st.capacity * 2 })
  else ([], st)

/-- `memcpy(input_buf + total, buf, n)`. -/
def appendCopy (st : StdinState) (chunk : ReadChunk) : Copy UInt8 where
  block := st.inputBuf
  offset := st.total.toNat
  source := chunk.bytes
  count := chunk.bytes.length

/-- The body of the loop: room is made, and the bytes are appended. -/
def stdinTurn (pool : Pool) (st : StdinState) (chunk : ReadChunk) :
    List (Copy UInt8) × StdinState :=
  let n := UInt64.ofNat chunk.bytes.length
  let made := makeRoom pool n st
  (made.1 ++ [appendCopy made.2 chunk],
    { made.2 with inputBuf := (appendCopy made.2 chunk).result, total := made.2.total + n })

/-- **The loop of `read_stdin_and_process`**: its inputs are what the reads give. -/
def stdinReader (pool : Pool) : Machine StdinState ReadChunk (List (Copy UInt8)) where
  step := stdinTurn pool

/-- A turn of the loop. -/
abbrev StdinEntry := Machine.Entry StdinState ReadChunk (List (Copy UInt8))

/-! ### The whole function -/

/-- What the read that ends the loop reports: the end, or a failure. -/
inductive ReadEnd where
  /-- `n == 0`. -/
  | eof : ReadEnd
  /-- `n < 0`. -/
  | failed : ReadEnd
  deriving DecidableEq

/-- **`read_stdin_and_process`**, given what it calls with `input_buf` and `total`; an error is
what it prints before it returns -1. -/
def readStdinAndProcess {β : Type*} (pool : Pool) (process : List UInt8 → β)
    (reads : List ReadChunk) (ending : ReadEnd) : Except String β :=
  let st := ((stdinReader pool).run (stdinStart pool) reads).2
  if ending = .failed then .error "Failed to read stdin\n"
  else if st.total = 0 then .error "No input data\n"
  else .ok (process (st.inputBuf.take st.total.toNat))

/-- `read_stdin_and_process` of `mod_fuzzy.c`, which makes one request of the input. -/
def modFuzzyStdin (apr : Apr) (g : FuzzGlobals) (calls : List FilterCall) (pool : Pool)
    (reads : List ReadChunk) (ending : ReadEnd) :
    Except String (List FilterReply × FuzzGlobals) :=
  readStdinAndProcess pool (fun data => fuzzOneInput apr g data calls) reads ending

/-- `read_stdin_and_process` of `mod_fuzzy_multi.c`, which runs the loop over the requests in
the input. -/
def modFuzzyMultiStdin (pool : Pool) (reads : List ReadChunk) (ending : ReadEnd) :
    Except String (Loop MultiState) :=
  readStdinAndProcess pool fuzzMultiInput reads ending

/-! ### What it should do -/

/-- What the reads give, in a row. -/
def bytesRead (reads : List ReadChunk) : List UInt8 := reads.flatMap ReadChunk.bytes

/-- A read that gives nothing ends the loop, and is not among them. -/
theorem bytesRead_eq_nil_iff {reads : List ReadChunk} : bytesRead reads = [] ↔ reads = [] := by
  refine ⟨?_, by rintro rfl; rfl⟩
  intro h
  rcases reads with _ | ⟨chunk, reads⟩
  · rfl
  · have hlength := congrArg List.length h
    have hpos := chunk.length_pos
    rw [bytesRead, List.flatMap_cons, List.length_append, List.length_nil] at hlength
    omega

/-- **The buffer represents what was read**: it is at the front of the buffer, and `total` is
its length. -/
structure Represents (read : List UInt8) (st : StdinState) : Prop where
  /-- `total` counts the bytes read. -/
  total_eq : st.total.toNat = read.length
  /-- They are the first bytes of the buffer. -/
  front : read <+: st.inputBuf
  /-- The buffer has its capacity. -/
  size : st.inputBuf.length = st.capacity.toNat
  /-- This is never less than the first capacity. -/
  least : firstCapacity.toNat ≤ st.capacity.toNat

/-- **A safe turn of the loop.** -/
structure SafeTurn (e : StdinEntry) : Prop where
  /-- What was read before and what was read now fit in the buffer. -/
  room : e.pre.total.toNat + e.input.bytes.length ≤ e.post.capacity.toNat
  /-- Every `memcpy` writes to a buffer of that capacity, and stays in it. -/
  copies : ∀ c ∈ e.answer, c.InBounds ∧ c.block.length = e.post.capacity.toNat
  /-- The capacity is what it was, or twice that. -/
  doubled : e.post.capacity = e.pre.capacity ∨
    e.post.capacity.toNat = 2 * e.pre.capacity.toNat

/-! ### One turn -/

theorem ReadChunk.toNat_length (chunk : ReadChunk) :
    (UInt64.ofNat chunk.bytes.length).toNat = chunk.bytes.length := by
  refine UInt64.toNat_ofNat_of_lt' ?_
  have hle := chunk.length_le
  simp only [readSize, UInt64.size] at hle ⊢
  omega

section Turn

variable (pool : Pool) {read : List UInt8} {st : StdinState} {n : UInt64}

/-- There is no more in the buffer than it has room for. -/
theorem Represents.length_le (h : Represents read st) : read.length ≤ st.capacity.toNat :=
  h.size ▸ h.front.length_le

/-- What the loop compares the capacity with. -/
theorem Represents.full_iff (h : Represents read st) (hfits : read.length + n.toNat < 2 ^ 63) :
    st.total + n > st.capacity ↔ st.capacity.toNat < read.length + n.toNat := by
  rw [gt_iff_lt, UInt64.lt_iff_toNat_lt, toNat_add_of_fits (by rw [h.total_eq]; omega), h.total_eq]

/-- **Room has been made** for `n` more bytes. -/
structure MadeRoom (read : List UInt8) (n : UInt64) (st : StdinState)
    (made : List (Copy UInt8) × StdinState) : Prop where
  /-- The buffer, moved or not, represents what was read. -/
  represents : Represents read made.2
  /-- There is room for `n` more bytes. -/
  room : read.length + n.toNat ≤ made.2.capacity.toNat
  /-- The move stays in the new buffer, and takes no more than there is. -/
  moves : ∀ c ∈ made.1, c.InBounds ∧ c.block.length = made.2.capacity.toNat
  /-- The capacity is what it was, or twice that. -/
  doubled : made.2.capacity = st.capacity ∨ made.2.capacity.toNat = 2 * st.capacity.toNat

/-- **One doubling makes room** for whatever a read can give, and what was read before is
moved along. -/
theorem Represents.madeRoom (h : Represents read st) (hn : n.toNat ≤ readSize)
    (hfits : read.length + n.toNat < 2 ^ 63) : MadeRoom read n st (makeRoom pool n st) := by
  have hle := h.length_le
  have hleast := h.least
  rw [makeRoom]
  split_ifs with hfull
  · have hlt : st.capacity.toNat < read.length + n.toNat := (h.full_iff hfits).mp hfull
    -- below 2^63 the doubling does not wrap around
    have hdouble : (st.capacity * 2).toNat = 2 * st.capacity.toNat :=
      toNat_double_of_fits (by omega)
    have hblock : (moveCopy pool st).block.length = (st.capacity * 2).toNat :=
      pool.length_palloc _
    have hbounds : (moveCopy pool st).InBounds := by
      constructor
      · rw [hblock, hdouble]
        simp only [moveCopy, h.total_eq]
        omega
      · simp only [moveCopy, h.total_eq, h.size]
        exact hle
    refine ⟨⟨h.total_eq, ?_, ?_, ?_⟩, ?_, ?_, Or.inr hdouble⟩
    · exact Copy.isPrefix_moved h.front h.total_eq rfl
    · exact (Copy.length_result hbounds).trans hblock
    · simp only [hdouble]
      omega
    · -- a read gives no more than the old capacity, and twice that is the new one
      simp only [hdouble]
      have hsize : readSize ≤ firstCapacity.toNat := by decide
      omega
    · intro c hc
      obtain rfl := List.mem_singleton.mp hc
      exact ⟨hbounds, hblock⟩
  · have hroom : read.length + n.toNat ≤ st.capacity.toNat :=
      Nat.not_lt.mp (mt (h.full_iff hfits).mpr hfull)
    exact ⟨h, hroom, by simp, Or.inl rfl⟩

/-- **Where there is room, what was read is appended.** -/
theorem Represents.append (h : Represents read st) {chunk : ReadChunk}
    (hn : n.toNat = chunk.bytes.length) (hroom : read.length + n.toNat ≤ st.capacity.toNat) :
    (appendCopy st chunk).InBounds ∧
      Represents (read ++ chunk.bytes)
        { st with inputBuf := (appendCopy st chunk).result, total := st.total + n } := by
  have hbounds : (appendCopy st chunk).InBounds := by
    refine ⟨?_, le_rfl⟩
    simp only [appendCopy, h.total_eq, h.size, ← hn]
    exact hroom
  refine ⟨hbounds, ?_, ?_, ?_, h.least⟩
  · have hcapacity : st.capacity.toNat < 2 ^ 64 := st.capacity.toNat_lt
    simp only
    rw [toNat_add_of_fits (by rw [h.total_eq]; omega), h.total_eq, hn, List.length_append]
  · have happended : read ++ chunk.bytes.take chunk.bytes.length <+: (appendCopy st chunk).result :=
      Copy.isPrefix_result (c := appendCopy st chunk) h.front h.total_eq
    rwa [List.take_length] at happended
  · exact (Copy.length_result hbounds).trans h.size

/-- **A turn of the loop is safe**, and appends what was read. -/
theorem Represents.turn (h : Represents read st) (chunk : ReadChunk)
    (hfits : (read ++ chunk.bytes).length < 2 ^ 63) :
    Represents (read ++ chunk.bytes) (stdinTurn pool st chunk).2 ∧
      SafeTurn ⟨st, chunk, (stdinTurn pool st chunk).1, (stdinTurn pool st chunk).2⟩ := by
  have hn := chunk.toNat_length
  rw [List.length_append] at hfits
  have hmade := h.madeRoom pool (hn.trans_le chunk.length_le) (hn.symm ▸ hfits)
  obtain ⟨hbounds, happended⟩ := hmade.represents.append hn hmade.room
  refine ⟨happended, ?_, ?_, hmade.doubled⟩
  · have hroom := hmade.room
    rw [hn, ← h.total_eq] at hroom
    exact hroom
  · intro c hc
    rcases List.mem_append.mp hc with hmove | happend
    · exact hmade.moves c hmove
    · obtain rfl := List.mem_singleton.mp happend
      exact ⟨hbounds, hmade.represents.size⟩

end Turn

/-! ### Every run -/

theorem represents_start (pool : Pool) : Represents [] (stdinStart pool) where
  total_eq := rfl
  front := List.nil_prefix
  size := pool.length_palloc firstCapacity
  least := le_rfl

/-- **A run of the loop is safe**, and appends all that is read. -/
theorem Represents.run {pool : Pool} {read : List UInt8} {st : StdinState}
    (h : Represents read st) (reads : List ReadChunk)
    (hfits : (read ++ bytesRead reads).length < 2 ^ 63) :
    (∀ e ∈ (stdinReader pool).trace st reads, SafeTurn e) ∧
      Represents (read ++ bytesRead reads) ((stdinReader pool).run st reads).2 := by
  induction reads generalizing read st with
  | nil => exact ⟨by simp, by simpa [bytesRead] using h⟩
  | cons chunk reads ih =>
    have hsplit : read ++ bytesRead (chunk :: reads) = read ++ chunk.bytes ++ bytesRead reads := by
      rw [bytesRead, List.flatMap_cons, ← List.append_assoc]
      rfl
    rw [hsplit] at hfits ⊢
    obtain ⟨hturn, hsafe⟩ := h.turn pool chunk (by
      rw [List.length_append] at hfits
      omega)
    obtain ⟨htrace, hrun⟩ := ih hturn hfits
    refine ⟨?_, hrun⟩
    intro e he
    rcases List.mem_cons.mp he with rfl | he
    · exact hsafe
    · exact htrace e he

/-- **The buffer grows safely**: whatever the reads give, no `memcpy` leaves the buffer it
writes to, though a turn doubles the capacity at most once, and at the end the first `total`
bytes of the buffer are what was read. -/
theorem stdinReader_keeps (pool : Pool) (reads : List ReadChunk)
    (htotal : (bytesRead reads).length < 2 ^ 63) :
    (∀ e ∈ (stdinReader pool).trace (stdinStart pool) reads, SafeTurn e) ∧
      ((stdinReader pool).run (stdinStart pool) reads).2.inputBuf.take
        ((stdinReader pool).run (stdinStart pool) reads).2.total.toNat = bytesRead reads ∧
      ((stdinReader pool).run (stdinStart pool) reads).2.total.toNat =
        (bytesRead reads).length := by
  obtain ⟨hsafe, hrep⟩ := (represents_start pool).run reads (by rwa [List.nil_append])
  rw [List.nil_append] at hrep
  refine ⟨hsafe, ?_, hrep.total_eq⟩
  rw [hrep.total_eq]
  exact (List.prefix_iff_eq_take.mp hrep.front).symm

/-- A pool whose blocks hold zeros. -/
def zeroPool : Pool where
  palloc size := List.replicate size.toNat 0
  length_palloc _ := List.length_replicate

/-- A read that fills all of `buf`. -/
def fullRead : ReadChunk where
  bytes := List.replicate readSize 65
  length_pos := by
    rw [List.length_replicate]
    decide
  length_le := List.length_replicate.le

/-- Five full reads do not fit in the first buffer. -/
theorem stdinReader_keeps_five :
    (∀ e ∈ (stdinReader zeroPool).trace (stdinStart zeroPool) (List.replicate 5 fullRead),
        SafeTurn e) ∧
      ((stdinReader zeroPool).run (stdinStart zeroPool)
          (List.replicate 5 fullRead)).2.inputBuf.take
        ((stdinReader zeroPool).run (stdinStart zeroPool)
          (List.replicate 5 fullRead)).2.total.toNat = bytesRead (List.replicate 5 fullRead) ∧
      ((stdinReader zeroPool).run (stdinStart zeroPool)
        (List.replicate 5 fullRead)).2.total.toNat =
          (bytesRead (List.replicate 5 fullRead)).length :=
  stdinReader_keeps zeroPool (List.replicate 5 fullRead) (by
    simp only [bytesRead, fullRead, List.replicate, List.flatMap_cons, List.flatMap_nil,
      List.length_append, List.length_replicate]
    decide)

/-- **What is processed is what was read**, however the reads have cut it, and nothing is
processed if there is none. -/
theorem readStdinAndProcess_eof {β : Type*} (pool : Pool) (process : List UInt8 → β)
    (reads : List ReadChunk) (htotal : (bytesRead reads).length < 2 ^ 63) :
    readStdinAndProcess pool process reads .eof =
      if reads = [] then .error "No input data\n" else .ok (process (bytesRead reads)) := by
  have hrep : Represents (bytesRead reads) ((stdinReader pool).run (stdinStart pool) reads).2 :=
    ((represents_start pool).run reads (by rwa [List.nil_append])).2
  have hzero : ((stdinReader pool).run (stdinStart pool) reads).2.total = 0 ↔ reads = [] := by
    rw [← UInt64.toNat_inj, hrep.total_eq, UInt64.toNat_zero, List.length_eq_zero_iff]
    exact bytesRead_eq_nil_iff
  rw [readStdinAndProcess, if_neg (by decide), if_congr hzero rfl rfl, hrep.total_eq,
    (List.prefix_iff_eq_take.mp hrep.front).symm]

/-- **The harnesses that run alone process what was read**, however the reads have cut it;
without input, or if a read fails, they process nothing and say so. -/
theorem stdinHarnesses_process (apr : Apr) (g : FuzzGlobals) (calls : List FilterCall)
    (pool : Pool) (reads : List ReadChunk) (htotal : (bytesRead reads).length < 2 ^ 63) :
    (modFuzzyStdin apr g calls pool reads .eof =
        if reads = [] then .error "No input data\n"
        else .ok (fuzzOneInput apr g (bytesRead reads) calls)) ∧
      (modFuzzyMultiStdin pool reads .eof =
        if reads = [] then .error "No input data\n"
        else .ok (fuzzMultiInput (bytesRead reads))) ∧
      modFuzzyStdin apr g calls pool reads .failed = .error "Failed to read stdin\n" ∧
      modFuzzyMultiStdin pool reads .failed = .error "Failed to read stdin\n" :=
  ⟨readStdinAndProcess_eof pool _ reads htotal, readStdinAndProcess_eof pool _ reads htotal,
    rfl, rfl⟩

/-- Five full reads are processed as one input. -/
theorem stdinHarnesses_process_five :
    modFuzzyMultiStdin zeroPool (List.replicate 5 fullRead) .eof =
      .ok (fuzzMultiInput (bytesRead (List.replicate 5 fullRead))) := by
  have hall := stdinHarnesses_process Apr.memory {} [] zeroPool (List.replicate 5 fullRead) (by
    simp only [bytesRead, fullRead, List.replicate, List.flatMap_cons, List.flatMap_nil,
      List.length_append, List.length_replicate]
    decide)
  rw [hall.2.1, if_neg (by simp)]

end Apatchy
