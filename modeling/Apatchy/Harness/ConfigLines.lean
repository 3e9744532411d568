import Apatchy.Foundations.Blocks
import Apatchy.Foundations.Lines
import Apatchy.Foundations.Loops
import Apatchy.Harness.Brigade

/-!
# Configuration lines from memory

`mod_fuzzy_htaccess.c` gives httpd's configuration parser a fuzz input as if it were a file:
whenever the parser wants a line, it calls `fuzz_cfg_getstr` with a buffer and its size. A
call copies bytes from the position in the context on, up to and with a newline or as many
as there is room for, and puts a NUL behind them (`Apatchy.fuzzCfgGetstr`). The calls a
parser makes until `APR_EOF` are the loop `Apatchy.fuzzCfgCalls`; what a buffer holds before
a call is not specified.

One call gives one line, cut to the size of the buffer: `Apatchy.fuzzCfgGetstr_line`, by an
invariant of the copying loop (`Apatchy.CopySoFar`). All of them give the input
(`Apatchy.fuzzCfgCalls_readsAll`).
-/

namespace Apatchy

/-! ### The reader -/

/-- `fuzz_cfg_ctx_t`. -/
structure FuzzCfgCtx where
  /-- `data`. -/
  data : List UInt8
  /-- `size`. -/
  size : UInt64
  /-- `pos`. -/
  pos : UInt64
  /-- `size` is the size of `data`. -/
  size_eq : size.toNat = data.length

/-- `ctx->data[ctx->pos]`. -/
def FuzzCfgCtx.charAt (ctx : FuzzCfgCtx) (h : ctx.pos < ctx.size) : UInt8 :=
  ctx.data.get ⟨ctx.pos.toNat, by
    rw [← ctx.size_eq]
    exact UInt64.lt_iff_toNat_lt.mp h⟩

/-- The variables of a call of `fuzz_cfg_getstr`, and the writes it has made. -/
structure GetstrState where
  /-- `ctx`. -/
  ctx : FuzzCfgCtx
  /-- The buffer `dst` points to. -/
  dst : List UInt8
  /-- `i`. -/
  i : UInt64 := 0
  /-- The writes to the buffer, in order. -/
  writes : List (Copy UInt8) := []

/-- `dst[i] = c`. -/
def GetstrState.put (st : GetstrState) (c : UInt8) : GetstrState :=
  let write := Copy.store st.dst st.i.toNat c
  { st with dst := write.result, writes := st.writes ++ [write] }

/-- The body of the loop: `char c = ctx->data[ctx->pos++]; dst[i++] = c`. -/
def GetstrState.copyChar (st : GetstrState) (c : UInt8) : GetstrState :=
  { st.put c with ctx := { st.ctx with pos := st.ctx.pos + 1 }, i := st.i + 1 }

/-- The `while` loop of `fuzz_cfg_getstr`, which a newline breaks. -/
def copyLoop (bufsiz : UInt64) (st : GetstrState) : GetstrState :=
  if h : st.i < bufsiz - 1 ∧ st.ctx.pos < st.ctx.size then
    if st.ctx.charAt h.2 = Apr.asciiLf then st.copyChar (st.ctx.charAt h.2)
    else copyLoop bufsiz (st.copyChar (st.ctx.charAt h.2))
  else st
termination_by st.ctx.size.toNat - st.ctx.pos.toNat
decreasing_by
  have hlt : st.ctx.pos.toNat < st.ctx.size.toNat := UInt64.lt_iff_toNat_lt.mp h.2
  have hsucc : (st.ctx.pos + 1).toNat = st.ctx.pos.toNat + 1 := toNat_succ_of_lt h.2
  simp only [GetstrState.copyChar]
  omega

/-- **`fuzz_cfg_getstr`**: the status, and the variables at the end of the call. -/
def fuzzCfgGetstr (buf : List UInt8) (bufsiz : UInt64) (ctx : FuzzCfgCtx) :
    AprStatus × GetstrState :=
  if ctx.size ≤ ctx.pos then (.eof, { ctx := ctx, dst := buf })
  else (.success, (copyLoop bufsiz { ctx := ctx, dst := buf }).put 0)

/-- The bytes a call has stored before the NUL, which it stores at `dst[i]`. -/
def GetstrState.stored (st : GetstrState) : List UInt8 := st.dst.take st.i.toNat

/-- The context, and the calls that have returned `APR_SUCCESS`. -/
structure CfgReading where
  /-- `ctx`. -/
  ctx : FuzzCfgCtx
  /-- The calls, each at its end. -/
  calls : List GetstrState := []

/-- **Calls until `APR_EOF`**, each with what the buffer holds then. -/
def fuzzCfgCalls (bufsiz : UInt64) (bufs : ℕ → Vector UInt8 bufsiz.toNat) : Loop CfgReading where
  turn r :=
    let (status, st) := fuzzCfgGetstr (bufs r.calls.length).toList bufsiz r.ctx
    if status = .eof then none else some { ctx := st.ctx, calls := r.calls ++ [st] }

/-- The context `fuzz_htaccess_one` opens. -/
def htaccessCtx (data : List UInt8) (size : UInt64) (hsize : size.toNat = data.length) :
    FuzzCfgCtx where
  data := data
  size := size
  pos := 0
  size_eq := hsize

/-! ### What it should do -/

/-- **A call that gives a piece of the input.** -/
structure IsPiece (bufsiz : UInt64) (call : GetstrState) : Prop where
  /-- The piece is not empty. -/
  ne_nil : call.stored ≠ []
  /-- There is room for it and the NUL. -/
  length_le : call.stored.length ≤ bufsiz.toNat - 1
  /-- Only its last byte can be a newline. -/
  newline : ∀ c ∈ call.stored.dropLast, c ≠ Apr.asciiLf
  /-- It and the NUL are what was written, in this order. -/
  written : call.writes.flatMap Copy.source = call.stored ++ [0]
  /-- The buffer begins with them. -/
  terminated : call.stored ++ [0] <+: call.dst
  /-- Every write stays within the `bufsiz` bytes of the buffer. -/
  writes : ∀ w ∈ call.writes, w.InBounds ∧ w.block.length = bufsiz.toNat

/-! ### What is left of the input -/

/-- What a context has not given yet. -/
def FuzzCfgCtx.rest (ctx : FuzzCfgCtx) : List UInt8 := ctx.data.drop ctx.pos.toNat

theorem FuzzCfgCtx.rest_eq_cons {ctx : FuzzCfgCtx} (h : ctx.pos < ctx.size) :
    ctx.rest = ctx.charAt h :: { ctx with pos := ctx.pos + 1 }.rest := by
  have hlt : ctx.pos.toNat < ctx.data.length := ctx.size_eq ▸ UInt64.lt_iff_toNat_lt.mp h
  rw [rest, List.drop_eq_getElem_cons hlt]
  simp only [charAt, rest, toNat_succ_of_lt h]
  rfl

/-- There is nothing left at the end. -/
theorem FuzzCfgCtx.rest_eq_nil_iff {ctx : FuzzCfgCtx} : ctx.rest = [] ↔ ctx.size ≤ ctx.pos := by
  rw [rest, List.drop_eq_nil_iff, ← ctx.size_eq, UInt64.le_iff_toNat_le]

/-! ### One call -/

/-- **What holds between two turns of the copying loop**: what was copied is at the front of
the buffer, and there is still room for the NUL. -/
structure CopySoFar (bufsiz : UInt64) (text front : List UInt8) (st : GetstrState) : Prop where
  /-- The text is what was copied, and what is left. -/
  text_eq : front ++ st.ctx.rest = text
  /-- `i` counts the bytes copied. -/
  i_eq : st.i.toNat = front.length
  /-- There is room for one more. -/
  room : front.length < bufsiz.toNat
  /-- The buffer has its size. -/
  size_dst : st.dst.length = bufsiz.toNat
  /-- What was copied is at its front. -/
  front_dst : front <+: st.dst
  /-- It is all that was written. -/
  written : st.writes.flatMap Copy.source = front
  /-- All writes were in the buffer. -/
  writes : ∀ w ∈ st.writes, w.InBounds ∧ w.block.length = bufsiz.toNat

namespace CopySoFar

variable {bufsiz : UInt64} {text front : List UInt8} {st : GetstrState}

/-- What the loop compares `i` with. -/
theorem i_lt_iff (hst : CopySoFar bufsiz text front st) :
    st.i < bufsiz - 1 ↔ front.length < bufsiz.toNat - 1 := by
  have hone : (1 : UInt64) ≤ bufsiz := by
    rw [UInt64.le_iff_toNat_le, UInt64.toNat_one]
    exact Nat.one_le_of_lt hst.room
  rw [UInt64.lt_iff_toNat_lt, UInt64.toNat_sub_of_le bufsiz 1 hone, UInt64.toNat_one, hst.i_eq]

/-- **A write at `dst[i]`** is in the buffer, and goes behind what was copied. -/
theorem put (hst : CopySoFar bufsiz text front st) (c : UInt8) :
    (st.put c).dst.length = bufsiz.toNat ∧ front ++ [c] <+: (st.put c).dst ∧
      (st.put c).writes.flatMap Copy.source = front ++ [c] ∧
      ∀ w ∈ (st.put c).writes, w.InBounds ∧ w.block.length = bufsiz.toNat := by
  have hbounds : (Copy.store st.dst st.i.toNat c).InBounds := by
    rw [Copy.inBounds_store, hst.i_eq, hst.size_dst]
    exact hst.room
  refine ⟨?_, Copy.isPrefix_store hst.front_dst hst.i_eq c, ?_, ?_⟩
  · exact (Copy.length_result hbounds).trans hst.size_dst
  · simp only [GetstrState.put, List.flatMap_append, hst.written, List.flatMap_singleton]
    rfl
  · intro w hw
    rcases List.mem_append.mp hw with hold | hnew
    · exact hst.writes w hold
    · obtain rfl := List.mem_singleton.mp hnew
      exact ⟨hbounds, hst.size_dst⟩

/-- **A turn of the loop** copies the next byte. -/
theorem copyChar (hst : CopySoFar bufsiz text front st) (hi : st.i < bufsiz - 1)
    (hpos : st.ctx.pos < st.ctx.size) :
    CopySoFar bufsiz text (front ++ [st.ctx.charAt hpos]) (st.copyChar (st.ctx.charAt hpos)) := by
  obtain ⟨hsize, hfront, hwritten, hwrites⟩ := hst.put (st.ctx.charAt hpos)
  refine ⟨?_, ?_, ?_, hsize, hfront, hwritten, hwrites⟩
  · rw [← hst.text_eq, FuzzCfgCtx.rest_eq_cons hpos]
    exact List.append_assoc front [_] _
  · rw [List.length_append, List.length_singleton, ← hst.i_eq]
    exact toNat_succ_of_lt hi
  · have hroom := hst.i_lt_iff.mp hi
    rw [List.length_append, List.length_singleton]
    omega

/-- **The loop copies one line**, as far as there is room for it. -/
theorem copyLoop (hst : CopySoFar bufsiz text front st) :
    CopySoFar bufsiz text
      (front ++ cutLine Apr.asciiLf (bufsiz.toNat - 1 - front.length) st.ctx.rest)
      (copyLoop bufsiz st) := by
  fun_induction Apatchy.copyLoop bufsiz st generalizing front with
  | case1 st h hc =>
    -- the newline is copied, and breaks the loop
    obtain ⟨room, hroom⟩ : ∃ room, bufsiz.toNat - 1 - front.length = room + 1 :=
      Nat.exists_eq_succ_of_ne_zero (by have := hst.i_lt_iff.mp h.1; omega)
    rw [hroom, FuzzCfgCtx.rest_eq_cons h.2, cutLine, if_pos hc]
    exact hst.copyChar h.1 h.2
  | case2 st h hc ih =>
    obtain ⟨room, hroom⟩ : ∃ room, bufsiz.toNat - 1 - front.length = room + 1 :=
      Nat.exists_eq_succ_of_ne_zero (by have := hst.i_lt_iff.mp h.1; omega)
    have hnext := ih (hst.copyChar h.1 h.2)
    have hless : bufsiz.toNat - 1 - (front ++ [st.ctx.charAt h.2]).length = room := by
      rw [List.length_append, List.length_singleton]
      omega
    rw [hless, List.append_assoc] at hnext
    rw [hroom, FuzzCfgCtx.rest_eq_cons h.2, cutLine, if_neg hc]
    exact hnext
  | case3 st h =>
    -- there is no room, or nothing left
    have hcut : cutLine Apr.asciiLf (bufsiz.toNat - 1 - front.length) st.ctx.rest = [] := by
      by_cases hi : st.i < bufsiz - 1
      · have hend : st.ctx.rest = [] := by
          rw [FuzzCfgCtx.rest_eq_nil_iff]
          exact UInt64.not_lt.mp fun hpos => h ⟨hi, hpos⟩
        rw [hend, cutLine_nil]
      · have hroom : bufsiz.toNat - 1 - front.length = 0 := by
          have := mt hst.i_lt_iff.mpr hi
          omega
        rw [hroom, cutLine_zero]
    rw [hcut, List.append_nil]
    exact hst

/-- The bytes before the NUL are those that were copied. -/
theorem stored_put (hst : CopySoFar bufsiz text front st) (c : UInt8) :
    (st.put c).stored = front := by
  obtain ⟨-, hfront, -⟩ := hst.put c
  have htake := List.prefix_iff_eq_take.mp ((List.prefix_append front [c]).trans hfront)
  rw [htake, ← hst.i_eq]
  rfl

end CopySoFar

/-- The start of a call. -/
theorem copySoFar_start {bufsiz : UInt64} (hroom : 0 < bufsiz.toNat) (ctx : FuzzCfgCtx)
    {buf : List UInt8} (hbuf : buf.length = bufsiz.toNat) :
    CopySoFar bufsiz ctx.rest [] { ctx := ctx, dst := buf } where
  text_eq := rfl
  i_eq := rfl
  room := hroom
  size_dst := hbuf
  front_dst := List.nil_prefix
  written := rfl
  writes := by simp

/-- A call reports the end where nothing is left, and then writes nothing. -/
theorem fuzzCfgGetstr_cases (buf : List UInt8) (bufsiz : UInt64) (ctx : FuzzCfgCtx) :
    (ctx.rest = [] ∧ fuzzCfgGetstr buf bufsiz ctx = (.eof, { ctx := ctx, dst := buf })) ∨
      ∃ st, fuzzCfgGetstr buf bufsiz ctx = (.success, st) := by
  rw [fuzzCfgGetstr]
  split_ifs with hend
  · exact Or.inl ⟨FuzzCfgCtx.rest_eq_nil_iff.mpr hend, rfl⟩
  · exact Or.inr ⟨_, rfl⟩

/-- **A call gives the next line**, cut to the size of the buffer, and leaves the rest. -/
theorem fuzzCfgGetstr_line {bufsiz : UInt64} (hsize : 2 ≤ bufsiz.toNat) {ctx : FuzzCfgCtx}
    {buf : List UInt8} (hbuf : buf.length = bufsiz.toNat) {st : GetstrState}
    (h : fuzzCfgGetstr buf bufsiz ctx = (.success, st)) :
    st.stored = cutLine Apr.asciiLf (bufsiz.toNat - 1) ctx.rest ∧
      st.stored ++ st.ctx.rest = ctx.rest ∧ IsPiece bufsiz st := by
  rw [fuzzCfgGetstr] at h
  split_ifs at h with hend
  · simp at h
  obtain ⟨-, rfl⟩ := Prod.mk.inj h
  have hcopied := (copySoFar_start (by omega) ctx hbuf).copyLoop
  rw [List.nil_append, List.length_nil, Nat.sub_zero] at hcopied
  have hstored := hcopied.stored_put 0
  obtain ⟨-, hterminated, hwritten, hwrites⟩ := hcopied.put 0
  have hne : ctx.rest ≠ [] := mt FuzzCfgCtx.rest_eq_nil_iff.mp hend
  refine ⟨hstored, hstored ▸ hcopied.text_eq, ?_⟩
  constructor
  · exact hstored ▸ cutLine_ne_nil (by omega) hne
  · exact hstored ▸ length_cutLine_le ..
  · exact hstored ▸ ne_of_mem_dropLast_cutLine
  · exact hstored.symm ▸ hwritten
  · exact hstored.symm ▸ hterminated
  · exact hwrites

/-! ### All calls -/

/-- **What holds between two calls**: the pieces and what is left are the input. -/
structure ReadSoFar (bufsiz : UInt64) (data : List UInt8) (r : CfgReading) : Prop where
  /-- The pieces and what is left are the input. -/
  data_eq : r.calls.flatMap GetstrState.stored ++ r.ctx.rest = data
  /-- Every call was as it should be. -/
  pieces : ∀ call ∈ r.calls, IsPiece bufsiz call

section Calls

variable {bufsiz : UInt64} {bufs : ℕ → Vector UInt8 bufsiz.toNat} {data : List UInt8}
  {r r' : CfgReading}

/-- **The calls that are counted** are those that give a line. -/
theorem fuzzCfgCalls_turn (h : (fuzzCfgCalls bufsiz bufs).turn r = some r') :
    ∃ st, fuzzCfgGetstr (bufs r.calls.length).toList bufsiz r.ctx = (.success, st) ∧
      r' = { ctx := st.ctx, calls := r.calls ++ [st] } := by
  simp only [fuzzCfgCalls] at h
  rcases fuzzCfgGetstr_cases (bufs r.calls.length).toList bufsiz r.ctx with ⟨-, hcall⟩ | ⟨st, hcall⟩
  · simp [hcall] at h
  · rw [hcall] at h
    exact ⟨st, hcall, (Option.some.inj h).symm⟩

/-- The calls are over when one reports the end, and writes nothing. -/
theorem fuzzCfgCalls_left (h : (fuzzCfgCalls bufsiz bufs).turn r = none) :
    r.ctx.rest = [] ∧ fuzzCfgGetstr (bufs r.calls.length).toList bufsiz r.ctx =
      (.eof, { ctx := r.ctx, dst := (bufs r.calls.length).toList }) := by
  simp only [fuzzCfgCalls] at h
  rcases fuzzCfgGetstr_cases (bufs r.calls.length).toList bufsiz r.ctx with hend | ⟨st, hcall⟩
  · exact hend
  · simp [hcall] at h

/-- **A call keeps what holds between two calls**, and leaves less of the input. -/
theorem ReadSoFar.turn (hsize : 2 ≤ bufsiz.toNat) (h : (fuzzCfgCalls bufsiz bufs).turn r = some r')
    (hr : ReadSoFar bufsiz data r) :
    ReadSoFar bufsiz data r' ∧ r'.ctx.rest.length < r.ctx.rest.length := by
  obtain ⟨st, hcall, rfl⟩ := fuzzCfgCalls_turn h
  obtain ⟨-, hrest, hpiece⟩ := fuzzCfgGetstr_line hsize Vector.length_toList hcall
  refine ⟨⟨?_, ?_⟩, ?_⟩
  · rw [List.flatMap_append, List.flatMap_singleton, List.append_assoc, hrest]
    exact hr.data_eq
  · intro call hmem
    rcases List.mem_append.mp hmem with hold | hnew
    · exact hr.pieces call hold
    · exact List.mem_singleton.mp hnew ▸ hpiece
  · have hlength := congrArg List.length hrest
    have hpos := List.length_pos_of_ne_nil hpiece.ne_nil
    rw [List.length_append] at hlength
    simp only
    omega

end Calls

/-- **All of the input is read, line by line**: calls with a buffer of two bytes or more come
to `APR_EOF`, every one before gives a piece of the input, and the pieces in a row are the
input. -/
theorem fuzzCfgCalls_readsAll (data : List UInt8) (size : UInt64)
    (hdata : size.toNat = data.length) (bufsiz : UInt64) (hsize : 2 ≤ bufsiz)
    (bufs : ℕ → Vector UInt8 bufsiz.toNat) :
    ∃ r, (fuzzCfgCalls bufsiz bufs).Ends { ctx := htaccessCtx data size hdata } r ∧
      fuzzCfgGetstr (bufs r.calls.length).toList bufsiz r.ctx =
        (.eof, { ctx := r.ctx, dst := (bufs r.calls.length).toList }) ∧
      r.calls.flatMap GetstrState.stored = data ∧ ∀ call ∈ r.calls, IsPiece bufsiz call := by
  have hroom : 2 ≤ bufsiz.toNat := UInt64.le_iff_toNat_le.mp hsize
  have hstart : ReadSoFar bufsiz data { ctx := htaccessCtx data size hdata } :=
    ⟨rfl, by simp⟩
  obtain ⟨r, hends, hr, hleft⟩ := (fuzzCfgCalls bufsiz bufs).ends_of_measure
    (fun r => r.ctx.rest.length) (fun _ _ h hr => hr.turn hroom h) hstart
  obtain ⟨hrest, hcall⟩ := fuzzCfgCalls_left hleft
  have hdata_eq := hr.data_eq
  rw [hrest, List.append_nil] at hdata_eq
  exact ⟨r, hends, hcall, hdata_eq, hr.pieces⟩

/-- A line that is longer than its buffer, and one that is not. -/
theorem fuzzCfgCalls_readsAll_three :
    ∃ r, (fuzzCfgCalls 3 fun _ => Vector.replicate _ 7).Ends
        { ctx := htaccessCtx [65, 66, 67, 10, 68] 5 rfl } r ∧
      fuzzCfgGetstr (Vector.replicate 3 7).toList 3 r.ctx =
        (.eof, { ctx := r.ctx, dst := [7, 7, 7] }) ∧
      r.calls.flatMap GetstrState.stored = [65, 66, 67, 10, 68] ∧
      ∀ call ∈ r.calls, IsPiece 3 call :=
  fuzzCfgCalls_readsAll [65, 66, 67, 10, 68] 5 rfl 3 (by decide) fun _ => Vector.replicate _ 7

end Apatchy
