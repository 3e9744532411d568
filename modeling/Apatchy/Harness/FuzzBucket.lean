import Apatchy.Foundations.Machine
import Apatchy.Harness.Brigade

/-!
# Fuzz buckets

`fuzz_common.c` has a bucket type of its own, `FUZZ`, whose bytes are in a context with an
offset (`Apatchy.FuzzBucketCtx`). A split of a bucket copies its structure, so all pieces of
one bucket share the context, while each has a start and a length of its own; a read takes
all that is behind the offset, whatever the piece, and turns the piece it is made of into a
heap bucket. Splits and reads in any order are a machine (`Apatchy.fuzzBuckets`).

`Apatchy.read_splitPieces`: a bucket that was split, and then is read from left to right,
gives its bytes once. The pieces of it are all alike to a read (`Apatchy.Unread`): the first
one gives everything, and the others report the end. What APR makes of a split is a parameter
(`Apatchy.SharesData`).
-/

namespace Apatchy

/-- `fuzz_bucket_ctx`, which all pieces of a bucket share. -/
structure FuzzBucketCtx where
  /-- `data`. -/
  data : List UInt8
  /-- `length`. -/
  length : ℕ
  /-- `offset`. -/
  offset : ℕ := 0
  deriving DecidableEq

/-- A piece of the bucket: still a fuzz bucket, or a heap bucket since it was read. -/
inductive Piece where
  /-- `start` and `length` of a bucket of type `fuzz_bucket_type`. -/
  | fuzz (start length : ℕ) : Piece
  /-- What `apr_bucket_heap_make` makes of the bucket read. -/
  | heap (data : List UInt8) : Piece
  deriving DecidableEq

/-- The pieces of one fuzz bucket, in the order of the brigade. -/
structure FuzzPieces where
  /-- The shared context. -/
  ctx : FuzzBucketCtx
  /-- The pieces. -/
  pieces : List Piece
  deriving DecidableEq

/-- **`fuzz_bucket_create`.** -/
def fuzzBucketCreate (data : List UInt8) (length : ℕ) : FuzzPieces where
  ctx := { data := data, length := length, offset := 0 }
  pieces := [.fuzz 0 length]

/-- **`fuzz_bucket_read`**: all that is behind the offset, or the end. -/
def fuzzBucketRead (ctx : FuzzBucketCtx) : AprStatus × List UInt8 × FuzzBucketCtx :=
  if ctx.length ≤ ctx.offset then (.eof, [], ctx)
  else
    (.success, (ctx.data.drop ctx.offset).take (ctx.length - ctx.offset),
      { ctx with offset := ctx.length })

/-- What is done to a bucket of the brigade. -/
inductive PieceCall where
  /-- The piece with this number is split at a point. -/
  | split (i point : ℕ) : PieceCall
  /-- The piece with this number is read. -/
  | read (i : ℕ) : PieceCall
  deriving DecidableEq

section Pieces

-- `apr_bucket_shared_split`
variable (sharedSplit : ℕ → Piece → Option (Piece × Piece))

/-- One call, and what it answers: a status, and the bytes read. -/
def pieceStep (s : FuzzPieces) : PieceCall → (AprStatus × List UInt8) × FuzzPieces
  | .split i point =>
    match (s.pieces[i]?).bind (sharedSplit point) with
    | none => ((Apr.einval, []), s)
    | some (a, b) =>
      ((.success, []), { s with pieces := s.pieces.take i ++ a :: b :: s.pieces.drop (i + 1) })
  | .read i =>
    match s.pieces[i]? with
    | none => ((Apr.einval, []), s)
    | some (.heap data) => ((.success, data), s)
    | some (.fuzz _ _) =>
      -- the piece that is read becomes a heap bucket with all of the data
      match fuzzBucketRead s.ctx with
      | (.success, bytes, ctx) =>
        ((.success, bytes), { ctx := ctx, pieces := s.pieces.set i (.heap bytes) })
      | (status, bytes, ctx) => ((status, bytes), { s with ctx := ctx })

/-- **The pieces of a fuzz bucket**, as a machine. -/
def fuzzBuckets : Machine FuzzPieces PieceCall (AprStatus × List UInt8) where
  step := pieceStep sharedSplit

/-- The pieces after some splits, each of a piece at a point. -/
def splitPieces (s : FuzzPieces) (splits : List (ℕ × ℕ)) : FuzzPieces :=
  ((fuzzBuckets sharedSplit).run s (splits.map fun sp => .split sp.1 sp.2)).2

/-- What is read from left to right: one answer for each piece. -/
def readPieces (s : FuzzPieces) : List (AprStatus × List UInt8) :=
  ((fuzzBuckets sharedSplit).run s ((List.range s.pieces.length).map .read)).1

end Pieces

/-- **What the filters rely on** of a split: both pieces share the data of the one that is
split, and a point behind its end is refused. -/
structure SharesData (sharedSplit : ℕ → Piece → Option (Piece × Piece)) : Prop where
  /-- A point within the piece. -/
  within : ∀ point start length, point ≤ length → sharedSplit point (.fuzz start length) =
    some (.fuzz start point, .fuzz (start + point) (length - point))
  /-- A point behind its end. -/
  behind : ∀ point start length, length < point → sharedSplit point (.fuzz start length) = none

/-! ### Pieces that are not read yet -/

/-- **Nothing has been read**: the offset is at the front, and every piece is still a fuzz
bucket. -/
structure Unread (data : List UInt8) (s : FuzzPieces) : Prop where
  /-- The context is as it was made. -/
  ctx_eq : s.ctx = { data := data, length := data.length, offset := 0 }
  /-- There is a piece. -/
  ne_nil : s.pieces ≠ []
  /-- All pieces are fuzz buckets. -/
  fuzz : ∀ p ∈ s.pieces, ∃ start length, p = .fuzz start length

theorem unread_create (data : List UInt8) : Unread data (fuzzBucketCreate data data.length) where
  ctx_eq := rfl
  ne_nil := by simp [fuzzBucketCreate]
  fuzz := by simp [fuzzBucketCreate]

section Reads

variable {sharedSplit : ℕ → Piece → Option (Piece × Piece)}

/-- A split makes two fuzz buckets of one. -/
theorem SharesData.eq_fuzz (hsplit : SharesData sharedSplit) {point start length : ℕ} {a b : Piece}
    (h : sharedSplit point (.fuzz start length) = some (a, b)) :
    a = .fuzz start point ∧ b = .fuzz (start + point) (length - point) := by
  rcases Nat.lt_or_ge length point with hgt | hle
  · rw [hsplit.behind point start length hgt] at h
    exact absurd h (by simp)
  · rw [hsplit.within point start length hle, Option.some.injEq, Prod.mk.injEq] at h
    exact ⟨h.1.symm, h.2.symm⟩

/-- **A split reads nothing.** -/
theorem Unread.split (hsplit : SharesData sharedSplit) {data : List UInt8} {s : FuzzPieces}
    (h : Unread data s) (i point : ℕ) :
    Unread data (pieceStep sharedSplit s (.split i point)).2 := by
  rcases hpieces : (s.pieces[i]?).bind (sharedSplit point) with _ | ⟨a, b⟩
  · simpa [pieceStep, hpieces] using h
  · obtain ⟨p, hp, hab⟩ := Option.bind_eq_some_iff.mp hpieces
    obtain ⟨start, length, rfl⟩ := h.fuzz p (List.mem_of_getElem? hp)
    obtain ⟨rfl, rfl⟩ := hsplit.eq_fuzz hab
    simp only [pieceStep, hpieces]
    refine ⟨h.ctx_eq, by simp, ?_⟩
    intro p' hp'
    rcases List.mem_append.mp hp' with hfront | hrest
    · exact h.fuzz p' (List.mem_of_mem_take hfront)
    · rcases List.mem_cons.mp hrest with rfl | hrest
      · exact ⟨_, _, rfl⟩
      · rcases List.mem_cons.mp hrest with rfl | hback
        · exact ⟨_, _, rfl⟩
        · exact h.fuzz p' (List.mem_of_mem_drop hback)

theorem Unread.splits (hsplit : SharesData sharedSplit) {data : List UInt8} {s : FuzzPieces}
    (h : Unread data s) (splits : List (ℕ × ℕ)) :
    Unread data (splitPieces sharedSplit s splits) := by
  induction splits generalizing s with
  | nil => exact h
  | cons sp splits ih => exact ih (h.split hsplit sp.1 sp.2)

/-! ### Reading -/

/-- Behind the end of the data, every fuzz bucket reports the end. -/
theorem pieceStep_read_spent {s : FuzzPieces} (hspent : s.ctx.length ≤ s.ctx.offset) {i : ℕ}
    {start length : ℕ} (hi : s.pieces[i]? = some (.fuzz start length)) :
    pieceStep sharedSplit s (.read i) = ((.eof, []), s) := by
  simp [pieceStep, hi, fuzzBucketRead, hspent]

theorem run_read_spent {s : FuzzPieces} (hspent : s.ctx.length ≤ s.ctx.offset) {is : List ℕ}
    (his : ∀ i ∈ is, ∃ start length, s.pieces[i]? = some (.fuzz start length)) :
    (fuzzBuckets sharedSplit).run s (is.map .read) = (List.replicate is.length (.eof, []), s) := by
  induction is with
  | nil => rfl
  | cons i is ih =>
    obtain ⟨start, length, hi⟩ := his i (List.mem_cons_self ..)
    have hstep : (fuzzBuckets sharedSplit).step s (.read i) = ((.eof, []), s) :=
      @pieceStep_read_spent sharedSplit s hspent i start length hi
    rw [List.map_cons, Machine.run_cons, hstep, ih fun i hi => his i (List.mem_cons_of_mem _ hi)]
    rfl

/-- **The first piece gives everything, and the others report the end.** -/
theorem Unread.readPieces {data : List UInt8} {s : FuzzPieces} (h : Unread data s) :
    (readPieces sharedSplit s).map Prod.snd = data :: List.replicate (s.pieces.length - 1) [] := by
  obtain ⟨ctx, pieces⟩ := s
  obtain rfl := h.ctx_eq
  obtain ⟨p, pieces, rfl⟩ := List.exists_cons_of_ne_nil h.ne_nil
  obtain ⟨start, length, rfl⟩ := h.fuzz p (List.mem_cons_self ..)
  -- after the first piece is read, the others are still pieces of the bucket
  have hlater : ∀ i ∈ (List.range pieces.length).map Nat.succ,
      ∀ first : Piece, ∃ start length, (first :: pieces)[i]? = some (.fuzz start length) := by
    intro i hi first
    obtain ⟨j, hj, rfl⟩ := List.mem_map.mp hi
    have hlt : j < pieces.length := List.mem_range.mp hj
    obtain ⟨start', length', hp⟩ := h.fuzz pieces[j]
      (List.mem_cons_of_mem _ (List.getElem_mem hlt))
    refine ⟨start', length', ?_⟩
    rw [List.getElem?_cons_succ, List.getElem?_eq_getElem hlt, hp]
  rw [Apatchy.readPieces, List.length_cons, List.range_succ_eq_map, List.map_cons,
    Machine.run_cons]
  -- with no data even the first piece reports the end
  rcases data with _ | ⟨c, data⟩
  · have hfirst : (fuzzBuckets sharedSplit).step
        { ctx := ⟨[], 0, 0⟩, pieces := .fuzz start length :: pieces } (.read 0) =
          ((.eof, []), { ctx := ⟨[], 0, 0⟩, pieces := .fuzz start length :: pieces }) := rfl
    simp only [List.length_nil, hfirst]
    rw [run_read_spent (Nat.le_refl 0) fun i hi => hlater i hi _]
    simp
  · have hfirst : (fuzzBuckets sharedSplit).step
        { ctx := ⟨c :: data, (c :: data).length, 0⟩, pieces := .fuzz start length :: pieces }
          (.read 0) =
        ((.success, c :: data),
          { ctx := ⟨c :: data, (c :: data).length, (c :: data).length⟩,
            pieces := .heap (c :: data) :: pieces }) := by
      simp [fuzzBuckets, pieceStep, fuzzBucketRead]
    rw [hfirst, run_read_spent (Nat.le_refl _) fun i hi => hlater i hi _]
    simp

end Reads

/-- **Fuzz buckets split and read exactly once**: whatever pieces a bucket is split into,
reading them from left to right gives its bytes, each once. -/
theorem read_splitPieces (sharedSplit : ℕ → Piece → Option (Piece × Piece))
    (hsplit : SharesData sharedSplit) (data : List UInt8) (splits : List (ℕ × ℕ)) :
    (readPieces sharedSplit (splitPieces sharedSplit (fuzzBucketCreate data data.length)
      splits)).flatMap Prod.snd = data := by
  have hread := @Unread.readPieces sharedSplit data _ ((unread_create data).splits hsplit splits)
  rw [List.flatMap_def, hread, List.flatten_cons]
  simp

/-- `apr_bucket_shared_split`, and `apr_bucket_split` of heap buckets. -/
def aprSharedSplit (point : ℕ) : Piece → Option (Piece × Piece)
  | .fuzz start length =>
    if length < point then none
    else some (.fuzz start point, .fuzz (start + point) (length - point))
  | .heap data =>
    if data.length < point then none else some (.heap (data.take point), .heap (data.drop point))

theorem sharesData_aprSharedSplit : SharesData aprSharedSplit where
  within _ _ _ h := if_neg (Nat.not_lt.mpr h)
  behind _ _ _ h := if_pos h

/-- The first piece of three gives what is behind it too. -/
theorem read_splitPieces_three :
    readPieces aprSharedSplit
        (splitPieces aprSharedSplit (fuzzBucketCreate [1, 2, 3, 4] 4) [(0, 3), (0, 1)]) =
      [(.success, [1, 2, 3, 4]), (.eof, []), (.eof, [])] ∧
    (readPieces aprSharedSplit
        (splitPieces aprSharedSplit (fuzzBucketCreate [1, 2, 3, 4] 4)
          [(0, 3), (0, 1)])).flatMap Prod.snd = [1, 2, 3, 4] :=
  ⟨by decide, read_splitPieces aprSharedSplit sharesData_aprSharedSplit [1, 2, 3, 4]
    [(0, 3), (0, 1)]⟩

end Apatchy
