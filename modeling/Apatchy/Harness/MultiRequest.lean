import Apatchy.Foundations.Lines
import Apatchy.Foundations.Loops
import Apatchy.Harness.InputFilter

/-!
# Several requests in one input

`mod_fuzzy_multi.c` takes a fuzz input for a row of requests, each of which ends with
CRLFCRLF, and processes each as a connection of its own: `fuzz_multi_input` cuts the input
behind the first CRLFCRLF of what is left, passes the segment to `fuzz_one_input`, and goes
on with the rest, for at most sixteen segments. Its loop is `Apatchy.fuzzMultiInput`, over a
state that records the calls made.

`Apatchy.fuzzMultiInput_splits`: the loop ends, with the input split as it should be
(`Apatchy.IsSplitting`). What carries it is `Apatchy.SplitSoFar`, which says of every state
that the calls made so far are the input up to `p`.
-/

namespace Apatchy

/-! ### The loop -/

/-- `MAX_REQUESTS_PER_INPUT`. -/
def maxRequestsPerInput : ℕ := 16

/-- The variables of the loop of `fuzz_multi_input`, and the calls of `fuzz_one_input` it
has made. -/
structure MultiState where
  /-- `p`, as an offset in the input. -/
  p : ℕ := 0
  /-- `count`. -/
  count : ℕ := 0
  /-- The segments passed to `fuzz_one_input`. -/
  calls : List (List UInt8) := []
  deriving DecidableEq

/-- `seg_len`: up to and with the CRLFCRLF that `memmem` finds, or all of the rest. -/
def segLen (data : List UInt8) (p : ℕ) : ℕ :=
  match find blankLine (data.drop p) with
  | some sep => sep + 4
  | none => data.length - p

/-- **The loop of `fuzz_multi_input`.** -/
def fuzzMultiInput (data : List UInt8) : Loop MultiState where
  turn st :=
    if st.p < data.length ∧ st.count < maxRequestsPerInput then
      -- up to and with the blank line, or to the end
      let n := segLen data st.p
      let st' :=
        if 0 < n then
          { st with count := st.count + 1, calls := st.calls ++ [(data.drop st.p).take n] }
        else st
      some { st' with p := st.p + n }
    else none

/-! ### What it should do -/

/-- A segment ends with CRLFCRLF, and has no other. -/
def EndsOnce (segment : List UInt8) : Prop :=
  blankLine <:+ segment ∧ ∀ a b, segment = a ++ blankLine ++ b → b = []

/-- **An input split into requests.** -/
structure IsSplitting (data : List UInt8) (segments : List (List UInt8)) : Prop where
  /-- There are at most sixteen. -/
  length_le : segments.length ≤ maxRequestsPerInput
  /-- None is empty. -/
  ne_nil : ∀ segment ∈ segments, segment ≠ []
  /-- In a row they are a front part of the input. -/
  begins : segments.flatten <+: data
  /-- They are all of it unless there are sixteen. -/
  whole : segments.length < maxRequestsPerInput → segments.flatten = data
  /-- Each but the last is cut behind its only CRLFCRLF. -/
  endsOnce : ∀ segment ∈ segments.dropLast, EndsOnce segment

/-! ### One turn -/

/-- A segment is never empty, and never leaves the input. -/
theorem segLen_bounds {data : List UInt8} {p : ℕ} (h : p < data.length) :
    0 < segLen data p ∧ p + segLen data p ≤ data.length := by
  rw [segLen]
  rcases hsep : find blankLine (data.drop p) with _ | sep
  · simp only
    omega
  · obtain ⟨hle, ⟨rest, hrest⟩, -⟩ := find_eq_some_iff.mp hsep
    have hlength := congrArg List.length hrest
    simp only [blankLine, crlf, List.length_append, List.length_cons, List.length_nil,
      List.length_drop] at hle hlength ⊢
    omega

/-- A segment reaches the end of the input or ends with its only CRLFCRLF. -/
theorem endsOnce_segment {data : List UInt8} {p : ℕ} (h : p + segLen data p < data.length) :
    EndsOnce ((data.drop p).take (segLen data p)) := by
  rw [segLen] at h ⊢
  rcases hsep : find blankLine (data.drop p) with _ | sep
  · simp only [hsep] at h
    omega
  · exact take_of_find hsep

/-- **The turns of the loop**: one more segment is passed on. -/
theorem fuzzMultiInput_turn {data : List UInt8} {st st' : MultiState}
    (h : (fuzzMultiInput data).turn st = some st') :
    st.p < data.length ∧ st.count < maxRequestsPerInput ∧
      st' = { p := st.p + segLen data st.p, count := st.count + 1,
              calls := st.calls ++ [(data.drop st.p).take (segLen data st.p)] } := by
  simp only [fuzzMultiInput] at h
  split_ifs at h with hgo hseg
  · exact ⟨hgo.1, hgo.2, (Option.some.inj h).symm⟩
  · exact absurd (segLen_bounds hgo.1).1 hseg

/-- **What holds between two turns**: the calls made so far are the input up to `p`. -/
structure SplitSoFar (data : List UInt8) (st : MultiState) : Prop where
  /-- `p` is in the input or at its end. -/
  p_le : st.p ≤ data.length
  /-- `count` counts the calls. -/
  count_eq : st.count = st.calls.length
  /-- It is not more than the limit. -/
  count_le : st.count ≤ maxRequestsPerInput
  /-- No segment was empty. -/
  ne_nil : ∀ segment ∈ st.calls, segment ≠ []
  /-- The segments are the input up to `p`. -/
  flatten : st.calls.flatten = data.take st.p
  /-- Each segment but the last is cut behind its only CRLFCRLF. -/
  endsOnce : ∀ segment ∈ st.calls.dropLast, EndsOnce segment
  /-- So is the last one, unless it reaches the end of the input. -/
  endsOnce_of_lt : st.p < data.length → ∀ segment ∈ st.calls, EndsOnce segment

/-- **A turn keeps what holds between two turns**, and brings `p` closer to the end. -/
theorem SplitSoFar.turn {data : List UInt8} {st st' : MultiState}
    (h : (fuzzMultiInput data).turn st = some st') (hst : SplitSoFar data st) :
    SplitSoFar data st' ∧ data.length - st'.p < data.length - st.p := by
  obtain ⟨hp, hcount, rfl⟩ := fuzzMultiInput_turn h
  obtain ⟨hpos, hle⟩ := segLen_bounds hp
  refine ⟨⟨hle, ?_, hcount, ?_, ?_, ?_, ?_⟩, by simp only; omega⟩
  · simp [hst.count_eq]
  · intro segment hsegment
    rcases List.mem_append.mp hsegment with hold | hnew
    · exact hst.ne_nil segment hold
    · obtain rfl := List.mem_singleton.mp hnew
      refine List.ne_nil_of_length_pos ?_
      rw [List.length_take, List.length_drop]
      omega
  · rw [List.flatten_append, hst.flatten, List.flatten_singleton, ← List.take_add]
  · rw [List.dropLast_concat]
    exact hst.endsOnce_of_lt hp
  · intro hlt segment hsegment
    rcases List.mem_append.mp hsegment with hold | hnew
    · exact hst.endsOnce_of_lt hp segment hold
    · obtain rfl := List.mem_singleton.mp hnew
      exact endsOnce_segment hlt

theorem splitSoFar_start (data : List UInt8) : SplitSoFar data {} where
  p_le := Nat.zero_le _
  count_eq := rfl
  count_le := Nat.zero_le _
  ne_nil := by simp
  flatten := by simp
  endsOnce := by simp
  endsOnce_of_lt := by simp

/-! ### The whole input -/

/-- What holds where the loop is left is that the input is split. -/
theorem SplitSoFar.isSplitting {data : List UInt8} {st : MultiState} (hst : SplitSoFar data st)
    (hleft : (fuzzMultiInput data).turn st = none) : IsSplitting data st.calls where
  length_le := hst.count_eq ▸ hst.count_le
  ne_nil := hst.ne_nil
  begins := hst.flatten ▸ List.take_prefix ..
  whole := by
    intro hfew
    have hend : ¬ st.p < data.length := by
      intro hp
      simp [fuzzMultiInput, hp, hst.count_eq, hfew] at hleft
    rw [hst.flatten, List.take_of_length_le (by omega)]
  endsOnce := hst.endsOnce

/-- **Every input is split into requests**: the loop ends, and the segments it has passed to
`fuzz_one_input` are the input cut behind each first CRLFCRLF. -/
theorem fuzzMultiInput_splits (data : List UInt8) :
    ∃ st, (fuzzMultiInput data).Ends {} st ∧ IsSplitting data st.calls := by
  obtain ⟨st, hends, hst, hleft⟩ := (fuzzMultiInput data).ends_of_measure
    (fun st => data.length - st.p) (fun _ _ h hst => hst.turn h) (splitSoFar_start data)
  exact ⟨st, hends, hst.isSplitting hleft⟩

/-- Separators that overlap: the first CRLFCRLF ends the first request, and what is left
of the other is the second. -/
example : (fuzzMultiInput [71, 13, 10, 13, 10, 13, 10]).after 2 {} =
    some ⟨7, 2, [[71, 13, 10, 13, 10], [13, 10]]⟩ := by decide

end Apatchy
