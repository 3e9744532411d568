import Apatchy.Foundations.Tables
import Mathlib.Data.Prod.Lex

/-!
# From segments to line counts

llvm-cov describes the coverage of a file by *segments*: each says from which line and
column on a count holds, up to where the next segment begins, and some say that there is
no count (`Apatchy.Segment`). The introspection report wants a count for each line, and
takes the greatest one of the segments that reach the line (`Apatchy.lineTable`).

A segment reaches a line if its extent has a column of it (`Apatchy.Touches`). The code
takes the lines up to that of the next segment, the last one included. A segment that
begins in the first column of its line leaves nothing of that line to the one before it,
but the line is counted for it all the same. The result is right exactly if, on each such
line, a segment that begins there counts as much (`Apatchy.lineTable_holdsMaxima_iff`).
-/

namespace Apatchy

/-! ### Segments -/

/-- A segment, as far as it is read. -/
structure Segment where
  /-- The line where it begins. -/
  line : ℕ
  /-- The column where it begins. -/
  col : ℕ
  /-- How often it was executed; llvm-cov writes no negative counts. -/
  count : ℕ
  /-- Whether the count means anything. -/
  hasCount : Bool
deriving DecidableEq, Repr

/-- The coverage of a file. -/
structure CovFile where
  /-- Its name. -/
  filename : String
  /-- Its segments. -/
  segments : List Segment
deriving DecidableEq, Repr

/-- `segs[i + 1][0] if i + 1 < len(segs) else line`. -/
def endLine (seg : Segment) (next : Option Segment) : ℕ :=
  match next with
  | some n => n.line
  | none => seg.line

/-- The loop over the segments of a file: each is counted for its lines. -/
def countSegments : List Segment → Table ℕ ℕ → Table ℕ ℕ
  | [], lines => lines
  | seg :: segs, lines =>
    if seg.hasCount then
      let ends := endLine seg segs.head?
      countSegments segs (lines.raise 0 (List.range' seg.line (ends + 1 - seg.line)) seg.count)
    else countSegments segs lines

/-- **The line table of a file.** -/
def lineTable (segs : List Segment) : Table ℕ ℕ := countSegments segs fun _ => none

/-- `line_counts`: the line tables by file name, but for files without segments. -/
def lineCounts (files : List CovFile) : Table String (Table ℕ ℕ) :=
  files.foldl (fun table file =>
    if file.segments = [] then table else table.set file.filename (lineTable file.segments))
    fun _ => none

/-! ### Extents -/

/-- The segments, each with the one that comes next. -/
def withNext : List Segment → List (Segment × Option Segment)
  | [] => []
  | seg :: segs => (seg, segs.head?) :: withNext segs

/-- Where a segment begins. -/
def Segment.pos (seg : Segment) : ℕ ×ₗ ℕ := toLex (seg.line, seg.col)

/-- **The extent of a segment has a column of a line**: one from where it begins on and
before the next segment; for the last segment, one of its own line. -/
def Touches (p : Segment × Option Segment) (ln : ℕ) : Prop :=
  ∃ col, 1 ≤ col ∧ p.1.pos ≤ toLex (ln, col) ∧
    match p.2 with
    | some n => toLex (ln, col) < n.pos
    | none => ln = p.1.line

/-- The counts of the segments that touch a line. -/
def touchingCounts (segs : List Segment) (ln : ℕ) : Set ℕ :=
  {c | ∃ p ∈ withNext segs, p.1.hasCount = true ∧ Touches p ln ∧ c = p.1.count}

/-- The counts of the segments that the code counts for a line. -/
def markedCounts (segs : List Segment) (ln : ℕ) : Set ℕ :=
  {c | ∃ p ∈ withNext segs, p.1.hasCount = true ∧ (p.1.line ≤ ln ∧ ln ≤ endLine p.1 p.2) ∧
    c = p.1.count}

theorem pos_le_iff {seg : Segment} {ln col : ℕ} :
    seg.pos ≤ toLex (ln, col) ↔ seg.line < ln ∨ seg.line = ln ∧ seg.col ≤ col := by
  simp [Segment.pos, Prod.Lex.toLex_le_toLex]

theorem lt_pos_iff {seg : Segment} {ln col : ℕ} :
    toLex (ln, col) < seg.pos ↔ ln < seg.line ∨ ln = seg.line ∧ col < seg.col := by
  simp [Segment.pos, Prod.Lex.toLex_lt_toLex]

theorem pos_lt_pos_iff {seg seg' : Segment} :
    seg.pos < seg'.pos ↔ seg.line < seg'.line ∨ seg.line = seg'.line ∧ seg.col < seg'.col := by
  simp [Segment.pos, Prod.Lex.toLex_lt_toLex]

/-! ### What the code counts -/

theorem mem_markedCounts_cons {seg : Segment} {segs : List Segment} {ln : ℕ} {c : ℕ} :
    c ∈ markedCounts (seg :: segs) ln ↔
      (seg.hasCount = true ∧ (seg.line ≤ ln ∧ ln ≤ endLine seg segs.head?) ∧ c = seg.count) ∨
      c ∈ markedCounts segs ln := by
  simp only [markedCounts, withNext, Set.mem_ofPred_eq, List.mem_cons, or_and_right, exists_or,
    exists_eq_left]

theorem countSegments_holdsMaxima (segs : List Segment) {lines : Table ℕ ℕ} {values : ℕ → Set ℕ}
    (h : HoldsMaxima lines values) :
    HoldsMaxima (countSegments segs lines) fun ln => values ln ∪ markedCounts segs ln := by
  induction segs generalizing lines values with
  | nil => simpa [countSegments, markedCounts, withNext] using h
  | cons seg segs ih =>
    rw [countSegments]
    by_cases hseg : seg.hasCount = true
    · rw [if_pos hseg]
      have hvalues : (fun ln => values ln ∪ markedCounts (seg :: segs) ln) = fun ln =>
          values ln ∪ {c | ln ∈ List.range' seg.line (endLine seg segs.head? + 1 - seg.line) ∧
            c = seg.count} ∪ markedCounts segs ln := by
        ext ln c
        -- Python counts both ends of the range
        have hrange : ln ∈ List.range' seg.line (endLine seg segs.head? + 1 - seg.line) ↔
            seg.line ≤ ln ∧ ln ≤ endLine seg segs.head? := by
          rw [List.mem_range'_1]
          omega
        simp only [Set.mem_union, mem_markedCounts_cons, Set.mem_ofPred_eq, hrange, hseg, true_and,
          or_assoc]
      rw [hvalues]
      exact ih (h.raise (Nat.zero_le _) _)
    · rw [if_neg hseg]
      have hvalues : (fun ln => values ln ∪ markedCounts (seg :: segs) ln) =
          fun ln => values ln ∪ markedCounts segs ln := by
        ext ln c
        simp only [Set.mem_union, mem_markedCounts_cons, hseg, false_and, false_or,
          Bool.false_eq_true]
      rw [hvalues]
      exact ih h

/-- **The table holds the greatest of the counts that the code counts for a line.** -/
theorem lineTable_holdsMaxima (segs : List Segment) :
    HoldsMaxima (lineTable segs) (markedCounts segs) := by
  have h := countSegments_holdsMaxima segs (holdsMaxima_empty (κ := ℕ) (β := ℕ))
  simp only [Set.empty_union] at h
  exact h

/-! ### What the segments touch -/

/-- Segments in order, and columns that count from one. -/
structure WellPlaced (segs : List Segment) : Prop where
  /-- Each begins after the one before it. -/
  sorted : (segs.map Segment.pos).Pairwise (· < ·)
  /-- The first column is the first. -/
  col : ∀ seg ∈ segs, 1 ≤ seg.col

theorem WellPlaced.tail {seg : Segment} {segs : List Segment} (h : WellPlaced (seg :: segs)) :
    WellPlaced segs where
  sorted := (List.pairwise_cons.mp h.sorted).2
  col s hs := h.col s (List.mem_cons_of_mem _ hs)

theorem mem_of_mem_withNext {segs : List Segment} {p : Segment × Option Segment}
    (hp : p ∈ withNext segs) : p.1 ∈ segs ∧ ∀ n, p.2 = some n → n ∈ segs := by
  induction segs with
  | nil => simp [withNext] at hp
  | cons seg segs ih =>
    rcases List.mem_cons.mp hp with rfl | hp
    · refine ⟨List.mem_cons_self .., fun n hn => List.mem_cons_of_mem _ ?_⟩
      exact List.mem_of_mem_head? hn
    · exact ⟨List.mem_cons_of_mem _ (ih hp).1, fun n hn => List.mem_cons_of_mem _ ((ih hp).2 n hn)⟩

theorem exists_mem_withNext {segs : List Segment} {seg : Segment} (hseg : seg ∈ segs) :
    ∃ next, (seg, next) ∈ withNext segs := by
  induction segs with
  | nil => simp at hseg
  | cons s segs ih =>
    rcases List.mem_cons.mp hseg with rfl | hseg
    · exact ⟨_, List.mem_cons_self ..⟩
    · obtain ⟨next, hnext⟩ := ih hseg
      exact ⟨next, List.mem_cons_of_mem _ hnext⟩

/-- The next segment begins after it. -/
theorem WellPlaced.lt_next {segs : List Segment} (h : WellPlaced segs)
    {p : Segment × Option Segment} (hp : p ∈ withNext segs) {n : Segment} (hn : p.2 = some n) :
    p.1.pos < n.pos := by
  induction segs with
  | nil => simp [withNext] at hp
  | cons seg segs ih =>
    rcases List.mem_cons.mp hp with rfl | hp
    · refine (List.pairwise_cons.mp h.sorted).1 _ (List.mem_map_of_mem ?_)
      exact List.mem_of_mem_head? hn
    · exact ih h.tail hp

/-- **No segment comes between a segment and the next**: one that begins before another ends
where that one begins, or earlier. -/
theorem WellPlaced.next_le {segs : List Segment} (h : WellPlaced segs)
    {p : Segment × Option Segment} (hp : p ∈ withNext segs) {m : Segment} (hm : m ∈ segs)
    (hlt : p.1.pos < m.pos) : ∃ n, p.2 = some n ∧ n.pos ≤ m.pos := by
  induction segs with
  | nil => simp [withNext] at hp
  | cons seg segs ih =>
    have hfirst := (List.pairwise_cons.mp h.sorted).1
    rcases List.mem_cons.mp hp with rfl | hp'
    · have hmem : m ∈ segs := by
        rcases List.mem_cons.mp hm with rfl | hm
        · exact absurd hlt (lt_irrefl _)
        · exact hm
      rcases segs with _ | ⟨n, segs⟩
      · simp at hmem
      · refine ⟨n, rfl, ?_⟩
        rcases List.mem_cons.mp hmem with rfl | hmem
        · exact le_rfl
        · exact le_of_lt ((List.pairwise_cons.mp h.tail.sorted).1 _ (List.mem_map_of_mem hmem))
    · have hmem : m ∈ segs := by
        rcases List.mem_cons.mp hm with rfl | hm
        · have hlater : p.1 ∈ segs := (mem_of_mem_withNext hp').1
          exact absurd (hlt.trans (hfirst _ (List.mem_map_of_mem hlater))) (lt_irrefl _)
        · exact hm
      exact ih h.tail hp' hmem

/-- **What a segment touches**: the lines up to the next segment, but not the line of that if
it begins in the first column of a later line. -/
theorem touches_iff {segs : List Segment} (h : WellPlaced segs) {p : Segment × Option Segment}
    (hp : p ∈ withNext segs) {ln : ℕ} :
    Touches p ln ↔ (p.1.line ≤ ln ∧ ln ≤ endLine p.1 p.2) ∧
      ¬ ∃ n, p.2 = some n ∧ n.line = ln ∧ n.col = 1 ∧ p.1.line < ln := by
  obtain ⟨seg, next⟩ := p
  have hcol := h.col seg (mem_of_mem_withNext hp).1
  simp only [Touches, pos_le_iff]
  rcases next with _ | n
  · constructor
    · rintro ⟨col, -, -, rfl⟩
      exact ⟨⟨le_rfl, le_rfl⟩, by simp⟩
    · rintro ⟨⟨hge, hle⟩, -⟩
      have hln : seg.line = ln := le_antisymm hge hle
      exact ⟨seg.col, hcol, Or.inr ⟨hln, le_rfl⟩, hln.symm⟩
  · have hncol := h.col n ((mem_of_mem_withNext hp).2 n rfl)
    have hlt := pos_lt_pos_iff.mp (h.lt_next hp rfl)
    simp only [lt_pos_iff, endLine, Option.some.injEq, exists_eq_left'] at hlt ⊢
    constructor
    · rintro ⟨col, hone, hfrom, hto⟩
      omega
    · rintro ⟨⟨hge, hle⟩, hnot⟩
      rcases Nat.eq_or_lt_of_le hge with hown | hlater
      · exact ⟨seg.col, hcol, by omega, by omega⟩
      · exact ⟨1, le_rfl, by omega, by omega⟩

/-- A segment touches the line on which it begins. -/
theorem touches_own_line {segs : List Segment} (h : WellPlaced segs)
    {p : Segment × Option Segment} (hp : p ∈ withNext segs) : Touches p p.1.line := by
  rw [touches_iff h hp]
  refine ⟨⟨le_rfl, ?_⟩, ?_⟩
  · obtain ⟨seg, next⟩ := p
    rcases next with _ | n
    · exact le_rfl
    · have hlt := pos_lt_pos_iff.mp (h.lt_next hp rfl)
      simp only [endLine] at hlt ⊢
      omega
  · rintro ⟨n, -, -, -, hbad⟩
    exact lt_irrefl _ hbad

/-- **Only a segment that begins on a line touches it**, if one begins in its first
column. -/
theorem line_eq_of_touches {segs : List Segment} (h : WellPlaced segs) {n : Segment}
    (hn : n ∈ segs) (hcol : n.col = 1) {p : Segment × Option Segment} (hp : p ∈ withNext segs)
    (htouch : Touches p n.line) : p.1.line = n.line := by
  obtain ⟨col, hone, hfrom, hto⟩ := htouch
  rw [pos_le_iff] at hfrom
  rcases lt_or_ge p.1.pos n.pos with hbefore | hafter
  · -- It would end before the line begins.
    obtain ⟨m, hm, hmn⟩ := h.next_le hp hn hbefore
    rw [hm] at hto
    have hstart := lt_of_lt_of_le hto hmn
    rw [lt_pos_iff] at hstart
    omega
  · rcases Prod.Lex.toLex_le_toLex.mp hafter with hlt | ⟨heq, -⟩
    · have hline : n.line < p.1.line := hlt
      omega
    · exact heq.symm

theorem touchingCounts_subset {segs : List Segment} (h : WellPlaced segs) (ln : ℕ) :
    touchingCounts segs ln ⊆ markedCounts segs ln := by
  rintro c ⟨p, hp, hhas, htouch, hc⟩
  exact ⟨p, hp, hhas, ((touches_iff h hp).mp htouch).1, hc⟩

/-! ### When the table is right -/

/-- **A segment that begins a line is counted as often as the one before it**, if that has a
count and began on an earlier line: some segment that begins on the line is. -/
def LineStartsCounted (segs : List Segment) : Prop :=
  ∀ p ∈ withNext segs, ∀ n, p.2 = some n → p.1.hasCount = true → n.col = 1 →
    p.1.line < n.line → ∃ seg ∈ segs, seg.hasCount = true ∧ seg.line = n.line ∧
      p.1.count ≤ seg.count

/-- **The line table is right exactly if** no segment is counted for a line that another
one begins, unless one that begins there is counted as often: then, and only then, it has
for each line the greatest count of the segments that touch it. -/
theorem lineTable_holdsMaxima_iff {segs : List Segment} (h : WellPlaced segs) :
    HoldsMaxima (lineTable segs) (touchingCounts segs) ↔ LineStartsCounted segs := by
  have htable := lineTable_holdsMaxima segs
  constructor
  · intro hright p hp n hn hhas hcol hlt
    have hmarked : p.1.count ∈ markedCounts segs n.line := by
      refine ⟨p, hp, hhas, ⟨hlt.le, ?_⟩, rfl⟩
      rw [hn, endLine]
    -- The table has a count for the line, so some segment touches it.
    rcases hentry : lineTable segs n.line with _ | b
    · have hempty := (htable n.line).2 hentry
      exact absurd hmarked (by simp [hempty])
    · obtain ⟨p', hp', hhas', htouch, rfl⟩ := ((hright n.line).1 b hentry).1
      have hline := line_eq_of_touches h ((mem_of_mem_withNext hp).2 n hn) hcol hp' htouch
      have hgreatest := (htable n.line).1 _ hentry
      exact ⟨p'.1, (mem_of_mem_withNext hp').1, hhas', hline, hgreatest.2 hmarked⟩
  · intro hstarts ln
    refine ⟨fun b hb => ?_, fun hnone => ?_⟩
    · have hgreatest := (htable ln).1 b hb
      refine ⟨?_, fun c hc => hgreatest.2 (touchingCounts_subset h ln hc)⟩
      obtain ⟨p, hp, hhas, hlines, rfl⟩ := hgreatest.1
      by_cases htouch : Touches p ln
      · exact ⟨p, hp, hhas, htouch, rfl⟩
      · -- Counted beyond its extent: a segment that begins on the line is counted as often.
        rw [touches_iff h hp] at htouch
        obtain ⟨n, hn, rfl, hcol, hlt⟩ : ∃ n, p.2 = some n ∧ n.line = ln ∧ n.col = 1 ∧
            p.1.line < ln := by tauto
        obtain ⟨seg, hseg, hhas', hline, hle⟩ := hstarts p hp n hn hhas hcol hlt
        obtain ⟨next, hnext⟩ := exists_mem_withNext hseg
        have hown : Touches (seg, next) n.line := hline ▸ touches_own_line h hnext
        have hmem : seg.count ∈ touchingCounts segs n.line := ⟨_, hnext, hhas', hown, rfl⟩
        have hge := hgreatest.2 (touchingCounts_subset h _ hmem)
        rwa [le_antisymm hle hge]
    · have hempty := (htable ln).2 hnone
      exact Set.subset_eq_empty (touchingCounts_subset h ln) hempty

/-! ### A skipped region -/

/-- A function of two lines, and a region after it that is not compiled. -/
def skippedRegion : List Segment := [⟨1, 12, 5, true⟩, ⟨3, 1, 0, false⟩]

/-- Its first line is counted for the function. -/
theorem not_holdsMaxima_skippedRegion :
    WellPlaced skippedRegion ∧ lineTable skippedRegion 3 = some 5 ∧
    ¬ HoldsMaxima (lineTable skippedRegion) (touchingCounts skippedRegion) := by
  have hentry : lineTable skippedRegion 3 = some 5 := by decide
  refine ⟨⟨by decide, by decide⟩, hentry, fun h => ?_⟩
  obtain ⟨p, hp, hhas, ⟨col, hone, -, hto⟩, -⟩ := ((h 3).1 5 hentry).1
  simp only [withNext, skippedRegion, List.mem_cons, List.not_mem_nil, or_false] at hp
  rcases hp with rfl | rfl
  · simp only [List.head?_cons, lt_pos_iff] at hto
    omega
  · exact absurd hhas (by decide)

/-- **A function that ends in the middle of a line**, where the region begins. -/
theorem lineTable_holdsMaxima_midLine :
    WellPlaced [⟨1, 12, 5, true⟩, ⟨3, 2, 0, false⟩] ∧
    HoldsMaxima (lineTable [⟨1, 12, 5, true⟩, ⟨3, 2, 0, false⟩])
      (touchingCounts [⟨1, 12, 5, true⟩, ⟨3, 2, 0, false⟩]) := by
  have hplaced : WellPlaced [⟨1, 12, 5, true⟩, ⟨3, 2, 0, false⟩] := ⟨by decide, by decide⟩
  refine ⟨hplaced, (lineTable_holdsMaxima_iff hplaced).mpr ?_⟩
  intro p hp n hn hhas hcol
  simp only [withNext, List.mem_cons, List.not_mem_nil, or_false] at hp
  rcases hp with rfl | rfl
  · obtain rfl := Option.some.inj hn
    exact absurd hcol (by decide)
  · exact absurd hhas (by decide)

end Apatchy
