import Apatchy.Harness.InputFilter

/-!
# What the input filter delivers

Two results about the filter of `Apatchy.Harness.InputFilter`, over every
sequence of calls httpd may make.

**Nothing is lost.** `Apatchy.fuzzHarness_faithful`: in a session of any inputs,
the calls made on each connection are answered from that connection's input
alone, and at every moment what was moved out followed by what is still held is
that input (`Apatchy.Faithful`). Peeking and failing change nothing that is
delivered later: the states before and after such a call answer alike for ever,
the relation being `Apatchy.Alike`. Once the end was reported it stays reported.

**A short last read fails.** `AP_MODE_READBYTES` is documented to read *up to* a
number of bytes. The filter passes that number to `apr_brigade_partition` and
treats `APR_INCOMPLETE`, which is what a request past the last byte yields, as an
error – while the filter of the fuzzed backend accepts it. So the call delivers
what it should exactly when enough bytes remain or the connection is drained
(`Apatchy.readbytes_deliversUpTo_iff`).
-/

namespace Apatchy

variable {apr : Apr}

/-! ### Conservation -/

/-- **One call conserves the bytes**: what it moves out and what is held after it
are what was held before. -/
theorem movedBytes_append_heldBytes (hapr : apr.Lawful) (st : ConnState) (c : FilterCall) :
    movedBytes c (fuzzInputFilter apr st c).1 ++ heldBytes (fuzzInputFilter apr st c).2 =
      heldBytes st := by
  have hnone : ∀ r : FilterReply, r.out = [] → movedBytes c r = [] := by
    intro r hr
    rw [movedBytes]
    cases c.mode <;> simp [hr]
  rcases fuzzInputFilter_cases apr st c with ⟨-, h⟩ | ⟨-, -, h⟩ | ⟨-, -, -, h⟩ | ⟨-, -, -, h⟩
  · simp [h, hnone]
  · simp [h, hnone]
  · rw [h, hnone _ rfl, List.nil_append]
    exact heldBytes_populate st
  · rw [h, ← heldBytes_populate st, heldBytes, heldBytes, ← List.append_assoc,
      bytesOf_serve hapr]

/-- **A run conserves the bytes.** -/
theorem movedOut_append_heldBytes (hapr : apr.Lawful) (data : List UInt8)
    (calls : List FilterCall) :
    movedOut apr data calls ++ heldBytes (stateAfter apr data calls) = data := by
  have hrun : ∀ (calls : List FilterCall) (st : ConnState),
      ((inputFilter apr).trace st calls).flatMap (fun e => movedBytes e.input e.answer) ++
        heldBytes ((inputFilter apr).run st calls).2 = heldBytes st := by
    intro calls
    induction calls with
    | nil => intro st; rfl
    | cons c calls ih =>
      intro st
      have hstep := movedBytes_append_heldBytes hapr st c
      rw [← ih (fuzzInputFilter apr st c).2] at hstep
      simpa [inputFilter] using hstep
  have hstart : heldBytes (connStart data) = data := by
    simp [heldBytes, connStart, pendingBytes, loadedGlobals]
  simpa [movedOut, stateAfter, hstart] using hrun calls (connStart data)

/-! ### States that answer alike -/

/-- The end of the stream was reported, or is what the next read will find. -/
def Ended (st : ConnState) : Prop := st.net.eosSent = true ∨ Drained st

/-- **Two states that answer alike for ever**: they differ by the first loading
of the input, or both are at the end of the stream. -/
def Alike (st st' : ConnState) : Prop := populate st = populate st' ∨ (Ended st ∧ Ended st')

/-- Loading the input first changes neither the answer nor the state reached. -/
theorem fuzzInputFilter_populate (apr : Apr) (st : ConnState) (c : FilterCall) :
    (fuzzInputFilter apr (populate st) c).1 = (fuzzInputFilter apr st c).1 ∧
      populate (fuzzInputFilter apr (populate st) c).2 =
        populate (fuzzInputFilter apr st c).2 := by
  by_cases hinit : c.mode = .init
  · simp [fuzzInputFilter, hinit]
  · rcases hsent : st.net.eosSent with _ | _
    · simp [fuzzInputFilter, hinit, hsent]
    · simp [fuzzInputFilter, hinit, hsent]

/-- At the end of the stream every read but an `INIT` reports it, and the stream
stays at its end. -/
theorem fuzzInputFilter_of_ended (apr : Apr) {st : ConnState} (h : Ended st) (c : FilterCall) :
    (fuzzInputFilter apr st c).1 = ⟨if c.mode = .init then .success else .eof, []⟩ ∧
      Ended (fuzzInputFilter apr st c).2 := by
  rcases fuzzInputFilter_cases apr st c with
    ⟨hm, hc⟩ | ⟨hm, hsent, hc⟩ | ⟨hm, hsent, hbb, hc⟩ | ⟨hm, hsent, hbb, hc⟩
  · rw [hc, if_pos hm]
    exact ⟨rfl, h⟩
  · rw [hc, if_neg hm]
    exact ⟨rfl, h⟩
  · rw [hc, if_neg hm]
    exact ⟨rfl, Or.inl rfl⟩
  · rcases h with h | h
    · rw [hsent] at h
      exact absurd h (by simp)
    · exact absurd ((drained_iff st).mp h) hbb

/-- A read that reports the end of the stream has reached it. -/
theorem ended_of_eof (hapr : apr.Lawful) {st : ConnState} {c : FilterCall}
    (h : (fuzzInputFilter apr st c).1.status = .eof) : Ended (fuzzInputFilter apr st c).2 := by
  rcases fuzzInputFilter_cases apr st c with
    ⟨-, hc⟩ | ⟨-, hsent, hc⟩ | ⟨-, -, -, hc⟩ | ⟨-, -, -, hc⟩
  · rw [hc] at h
    exact absurd h (by simp)
  · rw [hc]
    exact Or.inl hsent
  · rw [hc]
    exact Or.inl rfl
  · rw [hc] at h
    exact absurd h (serve_status_ne_eof hapr _ _)

theorem answer_eq_of_alike (apr : Apr) {st st' : ConnState} (h : Alike st st') (c : FilterCall) :
    (fuzzInputFilter apr st c).1 = (fuzzInputFilter apr st' c).1 := by
  rcases h with h | ⟨h, h'⟩
  · rw [← (fuzzInputFilter_populate apr st c).1, h, (fuzzInputFilter_populate apr st' c).1]
  · rw [(fuzzInputFilter_of_ended apr h c).1, (fuzzInputFilter_of_ended apr h' c).1]

theorem alike_step (apr : Apr) {st st' : ConnState} (h : Alike st st') (c : FilterCall) :
    Alike (fuzzInputFilter apr st c).2 (fuzzInputFilter apr st' c).2 := by
  rcases h with h | ⟨h, h'⟩
  · refine Or.inl ?_
    rw [← (fuzzInputFilter_populate apr st c).2, h, (fuzzInputFilter_populate apr st' c).2]
  · exact Or.inr ⟨(fuzzInputFilter_of_ended apr h c).2, (fuzzInputFilter_of_ended apr h' c).2⟩

/-- **Peeking and failing leave a state that answers alike.** -/
theorem alike_of_peek (hapr : apr.Lawful) {st : ConnState} {c : FilterCall}
    (h : c.mode = .speculative ∨ (fuzzInputFilter apr st c).1.status ≠ .success) :
    Alike (fuzzInputFilter apr st c).2 st := by
  rcases fuzzInputFilter_cases apr st c with
    ⟨hm, hc⟩ | ⟨-, -, hc⟩ | ⟨-, -, hbb, hc⟩ | ⟨-, -, -, hc⟩
  · simp [hm, hc] at h
  · rw [hc]
    exact Or.inl rfl
  · rw [hc]
    exact Or.inr ⟨Or.inl rfl, Or.inr ((drained_iff st).mpr hbb)⟩
  · rw [hc] at h ⊢
    rw [serve_frame hapr _ _ h]
    exact Or.inl (populate_populate st)

/-! ### The connections of a session -/

/-- **The connection is faithful to its input.** -/
structure Faithful (apr : Apr) (data : List UInt8) : Prop where
  /-- At every moment, the bytes moved out and then the bytes still held are the
  input. -/
  conserved : ∀ calls, movedOut apr data calls ++ heldBytes (stateAfter apr data calls) = data
  /-- A speculative read, and one that returns an error, changes no later
  answer. -/
  peek : ∀ calls c, c.mode = .speculative ∨ (replyAfter apr data calls c).status ≠ .success →
    ∀ later, ((inputFilter apr).run (stateAfter apr data (calls ++ [c])) later).1 =
      ((inputFilter apr).run (stateAfter apr data calls) later).1
  /-- Once a call has returned `APR_EOF`, every later one but an `INIT` does. -/
  eof_sticks : ∀ calls c, (replyAfter apr data calls c).status = .eof →
    ∀ later c', c'.mode ≠ .init →
      (replyAfter apr data (calls ++ c :: later) c').status = .eof

theorem faithful (hapr : apr.Lawful) (data : List UInt8) : Faithful apr data where
  conserved := movedOut_append_heldBytes hapr data
  peek calls c hc later := by
    rw [stateAfter_concat]
    exact (inputFilter apr).answers_eq_of_bisim (R := Alike)
      (fun _ _ c h => answer_eq_of_alike apr h c) (fun _ _ c h => alike_step apr h c)
      (alike_of_peek hapr hc) later
  eof_sticks calls c hc later c' hinit := by
    have hend : Ended (stateAfter apr data (calls ++ c :: later)) := by
      have hsplit : stateAfter apr data (calls ++ c :: later) =
          ((inputFilter apr).run (stateAfter apr data (calls ++ [c])) later).2 := by
        simp [stateAfter, Machine.run_append]
      have hkeep : ∀ st c, Ended st → Ended ((inputFilter apr).step st c).2 :=
        fun _ c h => (fuzzInputFilter_of_ended apr h c).2
      rw [hsplit, stateAfter_concat]
      exact (inputFilter apr).invariant_run hkeep (ended_of_eof hapr hc) later
    rw [replyAfter, (fuzzInputFilter_of_ended apr hend c').1, if_neg hinit]

/-- **Every connection of a session is faithful to its own input**, whatever was
fuzzed before it and whatever httpd asks for. -/
theorem fuzzHarness_faithful (apr : Apr) (hapr : apr.Lawful) (g : FuzzGlobals)
    (inputs : List (List UInt8 × List FilterCall)) (hne : ∀ i ∈ inputs, i.1 ≠ []) :
    ∀ e ∈ (fuzzHarness apr).trace g inputs,
      e.answer = ((inputFilter apr).run (connStart e.input.1) e.input.2).1 ∧
        Faithful apr e.input.1 := by
  intro e he
  have hstep := (fuzzHarness apr).step_of_mem_trace he
  have hdata : e.input.1 ≠ [] := hne _ ((fuzzHarness apr).input_mem_of_mem_trace he)
  refine ⟨?_, faithful hapr e.input.1⟩
  rw [← fuzzOneInput_eq apr e.pre hdata e.input.2]
  exact congrArg Prod.fst hstep

/-- Two inputs, the first read by a line, a peek and a short read, the second
drained at once. -/
theorem fuzzHarness_faithful_two :
    Apr.memory.Lawful ∧
      ∀ e ∈ (fuzzHarness Apr.memory).trace {}
          [([71, 10, 65, 66], [⟨.getline, .blockRead, 0⟩, ⟨.speculative, .blockRead, 0⟩,
            ⟨.readbytes, .blockRead, 1⟩]), ([67], [⟨.exhaustive, .nonblockRead, 0⟩])],
        e.answer = ((inputFilter Apr.memory).run (connStart e.input.1) e.input.2).1 ∧
          Faithful Apr.memory e.input.1 :=
  ⟨Apr.lawful_memory, fuzzHarness_faithful Apr.memory Apr.lawful_memory {} _ (by simp)⟩

/-! ### Reading up to a number of bytes -/

/-- **What `AP_MODE_READBYTES` is documented to do**: deliver up to `n` of the
bytes that remain, and the end of the stream when none does. -/
def DeliversUpTo (st : ConnState) (n : ℤ) (r : FilterReply) : Prop :=
  (heldBytes st ≠ [] → r.status = .success ∧ bytesOf r.out = (heldBytes st).take n.toNat) ∧
    (heldBytes st = [] → .eos ∈ r.out ∨ r.status = .eof)

instance (st : ConnState) (n : ℤ) (r : FilterReply) : Decidable (DeliversUpTo st n r) :=
  inferInstanceAs (Decidable (_ ∧ _))

/-- What the states of a connection keep: the input is loaded into an empty
brigade once, and the end is reported only when nothing is left. -/
structure ConnInv (st : ConnState) : Prop where
  /-- The brigade is filled from the global input and from nowhere else. -/
  loaded_once : st.globals.gInputData = none ∨ st.net.bb = []
  /-- The end is reported at the end. -/
  drained_of_eosSent : st.net.eosSent = true → Drained st

/-- After loading, a nonempty brigade holds all there is. -/
theorem heldBytes_eq_of_connInv {st : ConnState} (h : ConnInv st)
    (hbb : (populate st).net.bb ≠ []) : heldBytes st = bytesOf (populate st).net.bb := by
  rw [← heldBytes_populate st]
  have hnone : (populate st).globals.gInputData = none := by
    rcases hg : st.globals.gInputData with _ | data
    · rw [populate_of_none hg, hg]
    · by_cases hload : 0 < st.globals.gInputSize ∧ st.net.bb = []
      · simp [populate, hg, hload]
      · have hst : populate st = st := by simp [populate, hg, hload]
        rw [hst] at hbb
        exact absurd (h.loaded_once.resolve_left (by simp [hg])) hbb
  simp [heldBytes, pendingBytes, hnone]

theorem connInv_populate {st : ConnState} (h : ConnInv st) : ConnInv (populate st) where
  loaded_once := by
    rcases hg : st.globals.gInputData with _ | data
    · exact Or.inl (by rw [populate_of_none hg, hg])
    · by_cases hload : 0 < st.globals.gInputSize ∧ st.net.bb = []
      · exact Or.inl (by simp [populate, hg, hload])
      · have hst : populate st = st := by simp [populate, hg, hload]
        rw [hst]
        exact h.loaded_once
  drained_of_eosSent hsent := by
    rw [eosSent_populate] at hsent
    rw [drained_iff, populate_populate, ← drained_iff]
    exact h.drained_of_eosSent hsent

theorem connInv_step (apr : Apr) (st : ConnState) (c : FilterCall) (h : ConnInv st) :
    ConnInv (fuzzInputFilter apr st c).2 := by
  have hp := connInv_populate h
  rcases fuzzInputFilter_cases apr st c with
    ⟨-, hc⟩ | ⟨-, -, hc⟩ | ⟨-, -, hbb, hc⟩ | ⟨-, hsent, hbb, hc⟩
  · rw [hc]
    exact h
  · rw [hc]
    exact h
  · rw [hc]
    have hdrained : Drained (populate st) := by rwa [drained_iff, populate_populate]
    exact ⟨hp.loaded_once, fun _ => hdrained⟩
  · rw [hc]
    refine ⟨Or.inl (hp.loaded_once.resolve_right hbb), fun hs => ?_⟩
    simp [eosSent_serve, hsent] at hs

theorem connInv_stateAfter (apr : Apr) (data : List UInt8) (calls : List FilterCall) :
    ConnInv (stateAfter apr data calls) :=
  (inputFilter apr).invariant_run (connInv_step apr)
    (show ConnInv (connStart data) from ⟨Or.inr rfl, fun h => absurd h (by simp [connStart])⟩)
    calls

/-- **`READBYTES` delivers what it should exactly when it is not asked for more
than remains**, or when the connection is drained: past the last byte the filter
returns `APR_INCOMPLETE` and delivers nothing. -/
theorem readbytes_deliversUpTo_iff (apr : Apr) (hapr : apr.Lawful) (data : List UInt8)
    (calls : List FilterCall) (block : AprReadType) (n : ℤ) (hn : 0 < n) :
    DeliversUpTo (stateAfter apr data calls) n
        (replyAfter apr data calls ⟨.readbytes, block, n⟩) ↔
      n ≤ (heldBytes (stateAfter apr data calls)).length ∨
        Drained (stateAfter apr data calls) := by
  have hinv := connInv_stateAfter apr data calls
  rw [replyAfter]
  generalize stateAfter apr data calls = st at hinv ⊢
  set c : FilterCall := ⟨.readbytes, block, n⟩ with hcall
  -- where the filter reports the end, the connection is drained, and both sides hold
  have hend : Drained st → (fuzzInputFilter apr st c).1 = ⟨.eof, []⟩ →
      (DeliversUpTo st n (fuzzInputFilter apr st c).1 ↔
        n ≤ (heldBytes st).length ∨ Drained st) := by
    intro hd hr
    simp [DeliversUpTo, heldBytes_of_drained hd, hr, hd]
  rcases fuzzInputFilter_cases apr st c with
    ⟨hm, -⟩ | ⟨-, hsent, hc⟩ | ⟨-, -, hbb, hc⟩ | ⟨-, -, hbb, hc⟩
  · exact absurd hm (by simp [hcall])
  · exact hend (hinv.drained_of_eosSent hsent) (by rw [hc])
  · exact hend ((drained_iff st).mpr hbb) (by rw [hc])
  · have hheld := heldBytes_eq_of_connInv hinv hbb
    have hnot : ¬Drained st := fun hd => hbb ((drained_iff st).mp hd)
    rw [hc]
    rcases lt_or_ge ((bytesOf (populate st).net.bb).length : ℤ) n with hgt | hle
    · -- too much is asked for, and nothing is delivered, whether bytes remain or not
      rw [serve_readbytes_gt hapr _ c rfl hn hgt]
      by_cases hempty : heldBytes st = []
      · simp [DeliversUpTo, hempty, hnot, not_le.mpr hn]
      · have hne : bytesOf (populate st).net.bb ≠ [] := by rwa [← hheld]
        simp [DeliversUpTo, hnot, hheld, hne, hgt]
    · obtain ⟨hstatus, hout, -⟩ := serve_readbytes_le hapr (populate st).net c rfl hn hle
      have hne : bytesOf (populate st).net.bb ≠ [] := by
        intro hnil
        rw [hnil] at hle
        exact absurd hn (not_lt.mpr (by simpa using hle))
      simp only [DeliversUpTo, hheld, hstatus, hout]
      simp [hne, hle, hcall]

/-- One byte is left of the input `H`: a read of two bytes fails. -/
theorem readbytes_not_deliversUpTo :
    Apr.memory.Lawful ∧
      ¬DeliversUpTo (stateAfter Apr.memory [72] []) 2
        (replyAfter Apr.memory [72] [] ⟨.readbytes, .blockRead, 2⟩) :=
  ⟨Apr.lawful_memory, by decide⟩

/-- Three bytes are left of the input `GET`, and two are read. -/
theorem readbytes_deliversUpTo_two :
    DeliversUpTo (stateAfter Apr.memory [71, 69, 84] []) 2
      (replyAfter Apr.memory [71, 69, 84] [] ⟨.readbytes, .blockRead, 2⟩) :=
  (readbytes_deliversUpTo_iff Apr.memory Apr.lawful_memory [71, 69, 84] [] .blockRead 2
    (by decide)).mpr (Or.inl (by decide))

end Apatchy
