import Apatchy.Foundations.Curves
import Apatchy.Fuzzers.StatsExporter
import Mathlib.Algebra.Order.Floor.Ring
import Mathlib.Algebra.Order.Ring.Rat
import Mathlib.Data.Rat.Floor

/-!
# Events on the coverage curve

The statistics panel reads the sessions of `stat.json`, draws the edge counts of the pulses
of one over time, and puts each event on that curve: `pulses` are the running maxima of the
counts, and `interpolate` looks for the last pulse that is not after the event and goes
from there towards the next one. Numbers are rational here, and only `Apatchy.interpolate`
rounds.

The search for the pulse is an index into the list; it finds the bracket of
`Apatchy.curve` (`Apatchy.interpolateExact_eq`). After the last pulse the curve stays where
it is, but before the first one it is continued downwards, so an event that precedes a
session's first pulse is drawn below every pulse. `Apatchy.onCurve_iff` says when the events
are within the pulses.
-/

namespace Apatchy

/-! ### The pulses -/

/-- A pulse as the charts show it. -/
structure PulsePoint where
  /-- `ts`. -/
  ts : ℚ
  /-- `edges`, the largest so far. -/
  edges : ℚ
  /-- `features`, the largest so far. -/
  features : ℚ
  /-- `corpus`, the largest so far. -/
  corpus : ℚ
  /-- `exec_s`, of all workers. -/
  execS : ℚ
  deriving DecidableEq

/-- The executions per second of all workers: zero and `null` are both taken for missing. -/
def execPerSecond (workers : ℕ) (p : FuzzerPulse) : ℚ :=
  match p.workerExecS with
  | none => p.execS
  | some rate => if rate = 0 then p.execS else rate * if workers = 0 then 1 else (workers : ℚ)

section Panel

-- `new Date(time).getTime()`, in milliseconds, which depends on the viewer's time zone
variable (getTime : String → ℤ)

/-- The loop of `pulses`, with `maxEdges`, `maxFeatures` and `maxCorpus`. -/
def pulsesFrom (workers : ℕ) (maxEdges maxFeatures maxCorpus : ℚ) :
    List FuzzerPulse → List PulsePoint
  | [] => []
  | p :: ps =>
    { ts := getTime p.time, edges := max maxEdges p.edges, features := max maxFeatures p.features,
      corpus := max maxCorpus p.corpus, execS := execPerSecond workers p } ::
      pulsesFrom workers (max maxEdges p.edges) (max maxFeatures p.features)
        (max maxCorpus p.corpus) ps

/-- **`pulses`**: the running maxima. -/
def pulses (session : FuzzerSession) : List PulsePoint :=
  pulsesFrom getTime session.workers 0 0 0 session.pulses

/-! ### The interpolation -/

/-- The loop for `beforeIdx`: the last index up to which no pulse is after the event. -/
def scanBefore (evTs : ℚ) : List PulsePoint → ℕ → ℕ → ℕ
  | [], _, beforeIdx => beforeIdx
  | p :: ps, i, beforeIdx => if p.ts ≤ evTs then scanBefore evTs ps (i + 1) i else beforeIdx

/-- The value between the pulse with an index and the next one. -/
def valueFrom (pts : List PulsePoint) (beforeIdx : ℕ) (evTs : ℚ) : Option ℚ := do
  let before ← pts[beforeIdx]?
  let after ← pts[min (beforeIdx + 1) (pts.length - 1)]?
  let range := after.ts - before.ts
  let t := if range > 0 then (evTs - before.ts) / range else 0
  return before.edges + (after.edges - before.edges) * t

/-- **`interpolate`** before it rounds; `none` where there is no pulse to look at. -/
def interpolateExact (pts : List PulsePoint) (evTs : ℚ) : Option ℚ :=
  valueFrom pts (scanBefore evTs pts 0 0) evTs

/-- `interpolate`, with its `Math.round`. -/
def interpolate (pts : List PulsePoint) (evTs : ℚ) : Option ℤ :=
  (interpolateExact pts evTs).map fun v => ⌊v + 1 / 2⌋

/-! ### The curve it is on -/

/-- A pulse as a point: its time and its edges. -/
def PulsePoint.point (p : PulsePoint) : ℚ × ℚ := (p.ts, p.edges)

/-- Behind a pulse that is not after the event, the search finds the bracket of the curve. -/
theorem valueFrom_scanBefore (evTs : ℚ) (front : List PulsePoint) (p : PulsePoint)
    (rest : List PulsePoint) :
    valueFrom (front ++ p :: rest) (scanBefore evTs rest (front.length + 1) front.length) evTs =
      some (curve ((p :: rest).map PulsePoint.point) evTs) := by
  induction rest generalizing front p with
  | nil =>
    have hbefore : (front ++ [p])[front.length]? = some p := by simp
    simp [valueFrom, scanBefore, curve, PulsePoint.point]
  | cons q rest ih =>
    rw [scanBefore]
    simp only [List.map_cons, curve]
    by_cases hq : q.ts ≤ evTs
    · -- both go on behind the next pulse
      have hcurve : q.point.1 ≤ evTs := hq
      rw [if_pos hq, if_pos hcurve]
      have hnext := ih (front ++ [p]) q
      simpa using hnext
    · -- the next pulse is after the event, and the bracket is found
      have hcurve : ¬ q.point.1 ≤ evTs := hq
      rw [if_neg hq, if_neg hcurve]
      have hbefore : (front ++ p :: q :: rest)[front.length]? = some p := by simp
      have hafter : (front ++ p :: q :: rest)[min (front.length + 1)
          ((front ++ p :: q :: rest).length - 1)]? = some q := by
        have hmin : min (front.length + 1) ((front ++ p :: q :: rest).length - 1) =
            front.length + 1 := by
          simp only [List.length_append, List.length_cons]
          omega
        rw [hmin]
        simp
      simp only [valueFrom, hbefore, hafter]
      rfl

/-- **The search finds the bracket of the curve**, for pulses in the order of their times. -/
theorem interpolateExact_eq {pts : List PulsePoint} (hne : pts ≠ [])
    (hsorted : pts.Pairwise fun p q => p.ts ≤ q.ts) (evTs : ℚ) :
    interpolateExact pts evTs = some (curve (pts.map PulsePoint.point) evTs) := by
  obtain ⟨p, rest, rfl⟩ := List.exists_cons_of_ne_nil hne
  have hfront := valueFrom_scanBefore evTs [] p rest
  rw [interpolateExact, scanBefore]
  by_cases hp : p.ts ≤ evTs
  · rw [if_pos hp]
    exact hfront
  · -- an event before the first pulse is seen from that pulse too
    rw [if_neg hp]
    rcases rest with _ | ⟨q, rest⟩
    · exact hfront
    · have hq : ¬ q.ts ≤ evTs := by
        intro hq
        exact hp ((List.rel_of_pairwise_cons hsorted (List.mem_cons_self ..)).trans hq)
      rw [scanBefore, if_neg hq] at hfront
      exact hfront

/-- The pulses of a session are in the order of their times. -/
def TimeSorted (ps : List FuzzerPulse) : Prop :=
  ps.Pairwise fun p q => getTime p.time ≤ getTime q.time

variable {getTime}

/-- The pulses that are drawn rise: their times are those of the session's pulses, and their
edges are running maxima. -/
theorem pulsesFrom_rising {ps : List FuzzerPulse} (hsorted : TimeSorted getTime ps) (workers : ℕ)
    (maxEdges maxFeatures maxCorpus : ℚ) :
    IsRising ((pulsesFrom getTime workers maxEdges maxFeatures maxCorpus ps).map
      PulsePoint.point) ∧
      ∀ pt ∈ pulsesFrom getTime workers maxEdges maxFeatures maxCorpus ps,
        maxEdges ≤ pt.edges ∧ ∃ p ∈ ps, pt.ts = getTime p.time := by
  induction ps generalizing maxEdges maxFeatures maxCorpus with
  | nil => exact ⟨List.Pairwise.nil, by simp [pulsesFrom]⟩
  | cons p ps ih =>
    obtain ⟨hrising, hpoints⟩ := ih hsorted.of_cons (max maxEdges p.edges)
      (max maxFeatures p.features) (max maxCorpus p.corpus)
    refine ⟨List.pairwise_cons.mpr ⟨?_, hrising⟩, ?_⟩
    · intro pt hpt
      obtain ⟨q, hq, rfl⟩ := List.mem_map.mp hpt
      obtain ⟨hle, p', hp', hts⟩ := hpoints q hq
      have htime : (getTime p.time : ℚ) ≤ q.ts := by
        rw [hts]
        exact_mod_cast List.rel_of_pairwise_cons hsorted hp'
      exact ⟨htime, hle⟩
    · intro pt hpt
      rcases List.mem_cons.mp hpt with rfl | hpt
      · exact ⟨le_max_left .., p, List.mem_cons_self .., rfl⟩
      · obtain ⟨hle, p', hp', hts⟩ := hpoints pt hpt
        exact ⟨(le_max_left ..).trans hle, p', List.mem_cons_of_mem _ hp', hts⟩

variable {session : FuzzerSession} (hne : session.pulses ≠ [])
  (hsorted : TimeSorted getTime session.pulses)

include hsorted in
/-- The pulses of a session are points of a curve that rises. -/
theorem pulses_rising : IsRising ((pulses getTime session).map PulsePoint.point) :=
  (pulsesFrom_rising hsorted session.workers 0 0 0).1

include hne in
theorem pulses_ne_nil : pulses getTime session ≠ [] := by
  obtain ⟨p, ps, hps⟩ := List.exists_cons_of_ne_nil hne
  simp [pulses, hps, pulsesFrom]

include hne hsorted in
theorem interpolateExact_pulses (evTs : ℚ) :
    interpolateExact (pulses getTime session) evTs =
      some (curve ((pulses getTime session).map PulsePoint.point) evTs) := by
  refine interpolateExact_eq (pulses_ne_nil hne) ?_ evTs
  exact List.Pairwise.imp (fun h => h.1) (List.pairwise_map.mp (pulses_rising hsorted))

/-! ### When the events are on the curve -/

/-- The value of an event is between the smallest and the largest edges of the pulses. -/
def WithinPulses (pts : List PulsePoint) (evTs : ℚ) : Prop :=
  ∃ v, interpolateExact pts evTs = some v ∧ (∃ p ∈ pts, p.edges ≤ v) ∧ ∃ p ∈ pts, v ≤ p.edges

variable (getTime session) in
/-- **The events are on the curve of a session**: their values are within its pulses, and do
not fall with time. -/
structure OnCurve (events : List FuzzerEvent) : Prop where
  /-- They are within the pulses. -/
  within : ∀ ev ∈ events, WithinPulses (pulses getTime session) (getTime ev.time)
  /-- They do not fall. -/
  monotone : ∀ ev ∈ events, ∀ ev' ∈ events, getTime ev.time ≤ getTime ev'.time →
    ∀ v ∈ interpolateExact (pulses getTime session) (getTime ev.time),
    ∀ v' ∈ interpolateExact (pulses getTime session) (getTime ev'.time), v ≤ v'

variable (getTime) in
/-- An event does not precede a rise: it is not before the first pulse, or there is one pulse
only, or the second one is at the same time, or does not raise the edges. -/
def NotBeforeRise (ps : List FuzzerPulse) (ev : FuzzerEvent) : Prop :=
  match ps with
  | p :: q :: _ =>
    getTime p.time ≤ getTime ev.time ∨ getTime q.time = getTime p.time ∨ q.edges ≤ max 0 p.edges
  | _ => True

include hne hsorted

/-- The values of events never fall, before the first pulse either. -/
theorem interpolateExact_mono {evTs evTs' : ℚ} (hle : evTs ≤ evTs') {v v' : ℚ}
    (hv : v ∈ interpolateExact (pulses getTime session) evTs)
    (hv' : v' ∈ interpolateExact (pulses getTime session) evTs') : v ≤ v' := by
  rw [interpolateExact_pulses hne hsorted, Option.mem_some_iff] at hv hv'
  rw [← hv, ← hv']
  exact curve_mono (pulses_rising hsorted) hle

/-- **When one event is within the pulses.** -/
theorem withinPulses_iff (ev : FuzzerEvent) :
    WithinPulses (pulses getTime session) (getTime ev.time) ↔
      NotBeforeRise getTime session.pulses ev := by
  have hrising := pulses_rising hsorted
  have hvalue := interpolateExact_pulses hne hsorted (getTime ev.time)
  have hpoint (P : ℚ → Prop) : (∃ p ∈ pulses getTime session, P p.edges) ↔
      ∃ pt ∈ (pulses getTime session).map PulsePoint.point, P pt.2 := by
    simp [PulsePoint.point]
  -- some pulse is never below the curve, so that only the other bound counts
  have hupper : ∃ pt ∈ (pulses getTime session).map PulsePoint.point,
      curve ((pulses getTime session).map PulsePoint.point) (getTime ev.time) ≤ pt.2 :=
    exists_curve_le hrising (by simpa using pulses_ne_nil hne) _
  have hwithin : WithinPulses (pulses getTime session) (getTime ev.time) ↔
      ∃ pt ∈ (pulses getTime session).map PulsePoint.point,
        pt.2 ≤ curve ((pulses getTime session).map PulsePoint.point) (getTime ev.time) := by
    simp only [WithinPulses, hvalue, Option.some.injEq, exists_eq_left']
    exact (and_congr (hpoint fun e => e ≤ _) (hpoint fun e => _ ≤ e)).trans (and_iff_left hupper)
  rw [hwithin]
  simp only [pulses] at hrising ⊢
  -- a curve is below all its points only in front of a first one that the second is above
  rcases hps : session.pulses with _ | ⟨p, _ | ⟨q, ps⟩⟩
  · exact absurd hps hne
  · rw [hps] at hrising
    refine (exists_le_curve_iff hrising _).trans ?_
    simp [NotBeforeRise, pulsesFrom]
  · rw [hps] at hrising
    have hpq : getTime p.time ≤ getTime q.time := by
      rw [TimeSorted, hps] at hsorted
      exact List.rel_of_pairwise_cons hsorted (List.mem_cons_self ..)
    have htime : (getTime q.time : ℚ) ≤ getTime p.time ↔ getTime q.time = getTime p.time := by
      rw [Int.cast_le]
      exact ⟨fun h => le_antisymm h hpq, fun h => h.le⟩
    have hedges : max (max 0 (p.edges : ℚ)) q.edges ≤ max 0 (p.edges : ℚ) ↔
        q.edges ≤ max 0 p.edges := by
      rw [max_le_iff, and_iff_right le_rfl]
      exact_mod_cast Iff.rfl
    refine (exists_le_curve_iff hrising _).trans (or_congr Int.cast_le ?_)
    simp only [pulsesFrom, List.map_cons, List.head?_cons, Option.mem_some_iff, forall_eq']
    exact or_congr htime hedges

/-- **When the events are on the curve of a session**: exactly if none of them precedes a
rise from the first pulse to the second. -/
theorem onCurve_iff (events : List FuzzerEvent) :
    OnCurve getTime session events ↔ ∀ ev ∈ events, NotBeforeRise getTime session.pulses ev := by
  constructor
  · intro h ev hev
    exact (withinPulses_iff hne hsorted ev).mp (h.within ev hev)
  · intro h
    refine ⟨?_, ?_⟩
    · intro ev hev
      exact (withinPulses_iff hne hsorted ev).mpr (h ev hev)
    · intro ev _ ev' _ hle v hv v' hv'
      exact interpolateExact_mono hne hsorted (by exact_mod_cast hle) hv hv'

end Panel

/-! ### A session with two pulses -/

/-- Three times of a minute, in a zone without an offset. -/
def minuteTime (time : String) : ℤ :=
  if time = "1970-01-01T00:00:01" then 1000
  else if time = "1970-01-01T00:00:02" then 2000
  else if time = "1970-01-01T00:00:03" then 3000
  else 0

/-- A pulse with nothing but a time and edges. -/
def barePulse (time : String) (edges : ℤ) : FuzzerPulse where
  time := time
  edges := edges
  features := 0
  corpus := 0
  corpusSize := "0b"
  totalExecs := 0
  execS := 0
  workerExecS := none
  rss := "0Mb"
  crashes := 0

/-- A session with two pulses, the second of which covers more. -/
def twoPulses : FuzzerSession where
  startTime := "1970-01-01T00:00:00"
  workers := 1
  pulses := [barePulse "1970-01-01T00:00:02" 10, barePulse "1970-01-01T00:00:03" 20]

theorem timeSorted_twoPulses : TimeSorted minuteTime twoPulses.pulses := by
  simp [TimeSorted, twoPulses, barePulse, minuteTime]

/-- An event at each of the pulses. -/
theorem onCurve_iff_twoPulses :
    OnCurve minuteTime twoPulses [⟨"crash", "1970-01-01T00:00:02", "crash-a"⟩,
      ⟨"crash", "1970-01-01T00:00:03", "crash-b"⟩] := by
  refine (onCurve_iff (by simp [twoPulses]) timeSorted_twoPulses _).mpr fun ev hev => Or.inl ?_
  rcases List.mem_pair.mp hev with rfl | rfl
  · simp [barePulse, minuteTime]
  · simp [barePulse, minuteTime]

/-- An event a second before the first pulse is drawn at no edges at all. -/
theorem not_onCurve :
    ¬ ∀ (getTime : String → ℤ) (session : FuzzerSession) (events : List FuzzerEvent),
      session.pulses ≠ [] → TimeSorted getTime session.pulses →
        OnCurve getTime session events := by
  intro h
  have hcurve := h minuteTime twoPulses [⟨"last_func", "1970-01-01T00:00:01", "main"⟩]
    (by simp [twoPulses]) timeSorted_twoPulses
  obtain ⟨v, hv, ⟨p, hp, hle⟩, -⟩ := hcurve.within _ (List.mem_cons_self ..)
  have hvalue : interpolateExact (pulses minuteTime twoPulses)
      (minuteTime "1970-01-01T00:00:01") = some 0 := by decide +kernel
  have hpulses : ∀ p ∈ pulses minuteTime twoPulses, 10 ≤ p.edges := by decide +kernel
  obtain rfl : 0 = v := Option.some.inj (hvalue.symm.trans hv)
  exact absurd ((hpulses p hp).trans hle) (by norm_num)

end Apatchy
