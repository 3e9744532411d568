import Mathlib.Data.Int.Order.Basic
import Mathlib.Data.List.Basic

/-!
# Bucket brigades

What the harness uses of APR's bucket brigades. A brigade is a list of buckets;
the input brigades of the harness hold bytes in memory and the end-of-stream
marker, nothing else (`Apatchy.Bucket`).

APR itself is not part of the repository, so its three routines the input filters
call are a parameter (`Apatchy.Apr`), and what the filters rely on is
`Apatchy.Apr.Lawful`:

* `apr_brigade_split_line` moves a front part of the brigade out and loses
  nothing; reading buckets that are already in memory does not fail;
* `apr_brigade_partition` splits the brigade at an offset, and reports
  `APR_INCOMPLETE`, leaving the brigade alone, when it holds fewer bytes.

`Apatchy.Apr.memory` is APR's own behaviour on buckets in memory; it is lawful
(`Apatchy.Apr.lawful_memory`), and it is what concrete runs are evaluated with.

Where the progress of a reader matters, so does what is left of a brigade: buckets from
the front are gone, and the last of them perhaps in part (`Apatchy.Behind`). That APR's
routines leave no other is `Apatchy.Apr.TakesFront`.
-/

namespace Apatchy

/-! ### Buckets and brigades -/

/-- A bucket of an input brigade: bytes in memory, or the end-of-stream marker. -/
inductive Bucket where
  /-- A heap bucket. -/
  | heap (data : List UInt8) : Bucket
  /-- The end-of-stream bucket. -/
  | eos : Bucket
  deriving DecidableEq

/-- The bytes a bucket carries; metadata carries none. -/
def Bucket.bytes : Bucket → List UInt8
  | .heap data => data
  | .eos => []

/-- The bytes a brigade carries. -/
def bytesOf (bb : List Bucket) : List UInt8 := bb.flatMap Bucket.bytes

@[simp] theorem bytesOf_nil : bytesOf [] = [] := rfl

@[simp] theorem bytesOf_cons (b : Bucket) (bb : List Bucket) :
    bytesOf (b :: bb) = b.bytes ++ bytesOf bb := by
  simp [bytesOf]

@[simp] theorem bytesOf_append (bb bb' : List Bucket) :
    bytesOf (bb ++ bb') = bytesOf bb ++ bytesOf bb' := by
  simp [bytesOf]

@[simp] theorem Bucket.bytes_heap (data : List UInt8) : (Bucket.heap data).bytes = data := rfl

@[simp] theorem Bucket.bytes_eos : Bucket.eos.bytes = [] := rfl

/-! ### APR as a parameter -/

/-- The status codes of APR the filters look at; any other code is kept by its
number. -/
inductive AprStatus where
  /-- `APR_SUCCESS`. -/
  | success : AprStatus
  /-- `APR_EOF`. -/
  | eof : AprStatus
  /-- `APR_INCOMPLETE`. -/
  | incomplete : AprStatus
  /-- `APR_EAGAIN`. -/
  | eagain : AprStatus
  /-- `APR_ENOTIMPL`. -/
  | enotimpl : AprStatus
  /-- Any other code. -/
  | other (code : ℕ) : AprStatus
  deriving DecidableEq

/-- `apr_read_type_e`. -/
inductive AprReadType where
  /-- `APR_BLOCK_READ`. -/
  | blockRead : AprReadType
  /-- `APR_NONBLOCK_READ`. -/
  | nonblockRead : AprReadType
  deriving DecidableEq

/-- The brigade routines of APR the filters call. -/
structure Apr where
  /-- `apr_brigade_split_line`: the status, the buckets moved to the output
  brigade, and what is left of the input brigade. -/
  brigadeSplitLine : List Bucket → AprReadType → ℕ → AprStatus × List Bucket × List Bucket
  /-- `apr_brigade_partition`: the status, the brigade after the split, and the
  position in it of the bucket at the requested offset – the length of the
  brigade being the sentinel. -/
  brigadePartition : List Bucket → ℤ → AprStatus × List Bucket × ℕ
  /-- `apr_bucket_copy`, `none` when it fails. A copy leaves the bucket where it
  is. -/
  bucketCopy : Bucket → Option Bucket

/-- **What the filters rely on**, on brigades of buckets in memory. -/
structure Apr.Lawful (apr : Apr) : Prop where
  /-- Buckets in memory are read without failing. -/
  splitLine_status : ∀ bb block max, (apr.brigadeSplitLine bb block max).1 = .success
  /-- A line is moved from the front, and no byte is lost. -/
  splitLine_bytes : ∀ bb block max,
    bytesOf (apr.brigadeSplitLine bb block max).2.1 ++
      bytesOf (apr.brigadeSplitLine bb block max).2.2 = bytesOf bb
  /-- With enough bytes in the brigade, it is split at the offset. -/
  partition_le : ∀ bb (n : ℤ), 0 < n → n ≤ (bytesOf bb).length →
    (apr.brigadePartition bb n).1 = .success ∧
      bytesOf ((apr.brigadePartition bb n).2.1.take (apr.brigadePartition bb n).2.2) =
        (bytesOf bb).take n.toNat ∧
      bytesOf (apr.brigadePartition bb n).2.1 = bytesOf bb
  /-- With too few, the brigade is left alone and the call says so. -/
  partition_gt : ∀ bb (n : ℤ), 0 < n → (bytesOf bb).length < n →
    apr.brigadePartition bb n = (.incomplete, bb, bb.length)

/-! ### APR on buckets in memory -/

namespace Apr

/-- `APR_ASCII_LF`. -/
def asciiLf : UInt8 := 10

/-- The loop of `apr_brigade_split_line`, `seen` bytes having been moved already:
a bucket with a line feed is split after it, one without is moved whole, and the
limit is looked at after each bucket. -/
def memorySplitLine (max : ℕ) : ℕ → List Bucket → List Bucket × List Bucket
  | _, [] => ([], [])
  | seen, b :: bb =>
    match b.bytes.findIdx? (· == asciiLf) with
    | some i => ([.heap (b.bytes.take (i + 1))], .heap (b.bytes.drop (i + 1)) :: bb)
    | none =>
      if max ≤ seen + b.bytes.length then ([b], bb)
      else
        (b :: (memorySplitLine max (seen + b.bytes.length) bb).1,
          (memorySplitLine max (seen + b.bytes.length) bb).2)

/-- The loop of `apr_brigade_partition`, `point` bytes being left to skip. -/
def memoryPartition : ℕ → List Bucket → AprStatus × List Bucket × ℕ
  | _, [] => (.incomplete, [], 0)
  | point, b :: bb =>
    if point < b.bytes.length then
      (.success, .heap (b.bytes.take point) :: .heap (b.bytes.drop point) :: bb, 1)
    else if point = b.bytes.length then (.success, b :: bb, 1)
    else
      ((memoryPartition (point - b.bytes.length) bb).1,
        b :: (memoryPartition (point - b.bytes.length) bb).2.1,
        (memoryPartition (point - b.bytes.length) bb).2.2 + 1)

/-- `APR_EINVAL`, as the number of its `errno`. -/
def einval : AprStatus := .other 22

/-- **APR on buckets in memory.** -/
def memory : Apr where
  brigadeSplitLine bb _ max := (.success, memorySplitLine max 0 bb)
  brigadePartition bb n :=
    if n < 0 then (einval, bb, 0)
    else if n = 0 then (.success, bb, 0)
    else memoryPartition n.toNat bb
  bucketCopy b := some b

theorem bytesOf_memorySplitLine (max seen : ℕ) (bb : List Bucket) :
    bytesOf (memorySplitLine max seen bb).1 ++ bytesOf (memorySplitLine max seen bb).2 =
      bytesOf bb := by
  induction bb generalizing seen with
  | nil => rfl
  | cons b bb ih =>
    rw [memorySplitLine]
    cases b.bytes.findIdx? (· == asciiLf) with
    | some i => simp [← List.append_assoc]
    | none =>
      by_cases hmax : max ≤ seen + b.bytes.length
      · simp [hmax]
      · simp [hmax, ih]

theorem bytesOf_memoryPartition (point : ℕ) (bb : List Bucket) :
    bytesOf (memoryPartition point bb).2.1 = bytesOf bb := by
  induction bb generalizing point with
  | nil => rfl
  | cons b bb ih =>
    rw [memoryPartition]
    by_cases hlt : point < b.bytes.length
    · simp [hlt, ← List.append_assoc]
    · by_cases heq : point = b.bytes.length
      · simp [heq]
      · simp [hlt, heq, ih]

theorem memoryPartition_le (point : ℕ) (bb : List Bucket) (h : point ≤ (bytesOf bb).length)
    (hpos : 0 < point) :
    (memoryPartition point bb).1 = .success ∧
      bytesOf ((memoryPartition point bb).2.1.take (memoryPartition point bb).2.2) =
        (bytesOf bb).take point := by
  induction bb generalizing point with
  | nil =>
    have hnil : point = 0 := by simpa using h
    omega
  | cons b bb ih =>
    rw [memoryPartition]
    -- the offset is inside the first bucket, at its end, or past it
    by_cases hlt : point < b.bytes.length
    · have htake : (b.bytes ++ bytesOf bb).take point = b.bytes.take point :=
        List.take_append_of_le_length (by omega)
      simp [hlt, htake]
    · by_cases heq : point = b.bytes.length
      · simp [heq]
      · have hrest : point - b.bytes.length ≤ (bytesOf bb).length := by
          simp only [bytesOf_cons, List.length_append] at h
          omega
        obtain ⟨hstatus, hfront⟩ := ih (point - b.bytes.length) hrest (by omega)
        have htake : (b.bytes ++ bytesOf bb).take point =
            b.bytes ++ (bytesOf bb).take (point - b.bytes.length) := by
          rw [List.take_append, List.take_of_length_le (by omega)]
        simp [hlt, heq, hstatus, hfront, htake]

theorem memoryPartition_gt (point : ℕ) (bb : List Bucket) (h : (bytesOf bb).length < point) :
    memoryPartition point bb = (.incomplete, bb, bb.length) := by
  induction bb generalizing point with
  | nil => rfl
  | cons b bb ih =>
    simp only [bytesOf_cons, List.length_append] at h
    rw [memoryPartition, if_neg (by omega), if_neg (by omega), ih _ (by omega)]
    simp

/-- **APR's behaviour on buckets in memory is what the filters rely on.** -/
theorem lawful_memory : Apr.memory.Lawful where
  splitLine_status _ _ _ := rfl
  splitLine_bytes bb _ max := bytesOf_memorySplitLine max 0 bb
  partition_le bb n hpos hle := by
    have hmem : memory.brigadePartition bb n = memoryPartition n.toNat bb := by
      simp [memory, show ¬n < 0 by omega, show n ≠ 0 by omega]
    obtain ⟨hstatus, hfront⟩ := memoryPartition_le n.toNat bb (by omega) (by omega)
    rw [hmem]
    exact ⟨hstatus, hfront, bytesOf_memoryPartition _ _⟩
  partition_gt bb n hpos hgt := by
    have hmem : memory.brigadePartition bb n = memoryPartition n.toNat bb := by
      simp [memory, show ¬n < 0 by omega, show n ≠ 0 by omega]
    rw [hmem]
    exact memoryPartition_gt n.toNat bb (by omega)

end Apr

/-! ### Front parts -/

/-- **What is left of a brigade** once a front part is gone: at least one bucket was taken
from the front, whole, or the last of them up to a point behind its first byte. -/
def Behind (bb rest : List Bucket) : Prop :=
  (∃ k, 0 < k ∧ k ≤ bb.length ∧ rest = bb.drop k) ∨
    ∃ before b after taken left, bb = before ++ b :: after ∧ taken ≠ [] ∧
      b.bytes = taken ++ left ∧ rest = .heap left :: after

/-- A measure of a brigade: its bytes and its buckets. -/
def brigadeSize (bb : List Bucket) : ℕ := (bytesOf bb).length + bb.length

/-- Taking a front part makes a brigade smaller. -/
theorem Behind.brigadeSize_lt {bb rest : List Bucket} (h : Behind bb rest) :
    brigadeSize rest < brigadeSize bb := by
  rcases h with ⟨k, hpos, hle, rfl⟩ | ⟨before, b, after, taken, left, rfl, hne, hb, rfl⟩
  · have hbytes : (bytesOf bb).length = (bytesOf (bb.take k)).length +
        (bytesOf (bb.drop k)).length := by
      rw [← List.length_append, ← bytesOf_append, List.take_append_drop]
    simp only [brigadeSize, List.length_drop]
    omega
  · have hpos : 0 < taken.length := List.length_pos_of_ne_nil hne
    simp only [brigadeSize, bytesOf_append, bytesOf_cons, Bucket.bytes_heap, hb,
      List.length_append, List.length_cons]
    omega

/-- A front part with the buckets before it is a front part. -/
theorem Behind.cons {bb rest : List Bucket} (h : Behind bb rest) (b₀ : Bucket) :
    Behind (b₀ :: bb) rest := by
  rcases h with ⟨k, hpos, hle, rfl⟩ | ⟨before, b, after, taken, left, rfl, hne, hb, rfl⟩
  · exact Or.inl ⟨k + 1, Nat.succ_pos k, Nat.succ_le_succ hle, rfl⟩
  · exact Or.inr ⟨b₀ :: before, b, after, taken, left, rfl, hne, hb, rfl⟩

theorem behind_tail (b : Bucket) (bb : List Bucket) : Behind (b :: bb) bb :=
  Or.inl ⟨1, Nat.one_pos, Nat.succ_pos _, rfl⟩

theorem behind_nil {bb : List Bucket} (h : bb ≠ []) : Behind bb [] :=
  Or.inl ⟨bb.length, List.length_pos_of_ne_nil h, Nat.le_refl _, by simp⟩

namespace Apr

/-- **What a reader's progress relies on**: APR takes from the front of a brigade, and at
least one bucket or a part of one. -/
structure TakesFront (apr : Apr) : Prop extends apr.Lawful where
  /-- A line is at least one bucket, or a part of one. -/
  splitLine_behind : ∀ bb block max, 0 < max → bb ≠ [] →
    Behind bb (apr.brigadeSplitLine bb block max).2.2
  /-- So is a number of bytes that the brigade holds. -/
  partition_behind : ∀ bb (n : ℤ), 0 < n → n ≤ (bytesOf bb).length →
    Behind bb ((apr.brigadePartition bb n).2.1.drop (apr.brigadePartition bb n).2.2)

theorem behind_memorySplitLine (max seen : ℕ) {bb : List Bucket} (hbb : bb ≠ []) :
    Behind bb (memorySplitLine max seen bb).2 := by
  induction bb generalizing seen with
  | nil => exact absurd rfl hbb
  | cons b bb ih =>
    rw [memorySplitLine]
    rcases hlf : b.bytes.findIdx? (· == asciiLf) with _ | i
    · simp only
      split_ifs with hmax
      · exact behind_tail b bb
      · rcases eq_or_ne bb [] with rfl | hne
        · exact behind_tail b []
        · exact (ih _ hne).cons b
    · have hi : i < b.bytes.length := (List.findIdx?_eq_some_iff_getElem.mp hlf).1
      refine Or.inr ⟨[], b, bb, b.bytes.take (i + 1), b.bytes.drop (i + 1), rfl, ?_, ?_, rfl⟩
      · refine List.ne_nil_of_length_pos ?_
        rw [List.length_take]
        omega
      · rw [List.take_append_drop]

theorem behind_memoryPartition {point : ℕ} {bb : List Bucket} (hpos : 0 < point)
    (h : point ≤ (bytesOf bb).length) :
    Behind bb ((memoryPartition point bb).2.1.drop (memoryPartition point bb).2.2) := by
  induction bb generalizing point with
  | nil =>
    have hnil : point = 0 := by simpa using h
    omega
  | cons b bb ih =>
    rw [memoryPartition]
    split_ifs with hlt heq
    · refine Or.inr ⟨[], b, bb, b.bytes.take point, b.bytes.drop point, rfl, ?_, ?_, rfl⟩
      · refine List.ne_nil_of_length_pos ?_
        rw [List.length_take]
        omega
      · rw [List.take_append_drop]
    · exact behind_tail b bb
    · simp only [bytesOf_cons, List.length_append] at h
      exact (ih (by omega) (by omega)).cons b

/-- **APR takes from the front of a brigade of buckets in memory.** -/
theorem takesFront_memory : Apr.memory.TakesFront where
  toLawful := lawful_memory
  splitLine_behind _ _ max _ hbb := behind_memorySplitLine max 0 hbb
  partition_behind bb n hpos hle := by
    have hmem : memory.brigadePartition bb n = memoryPartition n.toNat bb := by
      simp [memory, show ¬n < 0 by omega, show n ≠ 0 by omega]
    rw [hmem]
    exact behind_memoryPartition (by omega) (by omega)

end Apr

end Apatchy
