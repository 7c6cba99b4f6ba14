import Chronos.Decimal
import Chronos.RunningPeak

/-!
# Drawdown of an equity curve

`MetricsCollector::recordEquity` and the drawdown loop of `calculateMetrics`,
one pass with a running peak. Percentages are exact rationals. The largest
fall is that over all pairs of snapshots; the percentage kept with it is the
one at the first snapshot of the largest fall, which need not be the largest
percentage.
-/

set_option autoImplicit false

namespace Chronos
open RunningPeak

structure MetricsCollector where
  equitySnaps : List (ℕ × Decimal) := []
  maxDrawdown : Decimal := 0
  maxDrawdownPct : ℚ := 0
  maxDdDurationUs : ℕ := 0
  drawdownCurve : List (ℕ × ℚ) := []

namespace MetricsCollector

def recordEquity (m : MetricsCollector) (timestampUs : ℕ) (equity : Decimal) : MetricsCollector :=
  { m with equitySnaps := m.equitySnaps++[(timestampUs,equity)] }

def drawdownPct (peak dd : Decimal) : ℚ :=
  if 0 < peak then dd.toRat/peak.toRat*100 else 0

structure DrawdownLoop extends MetricsCollector where
  peak : Decimal
  ddStart : ℕ := 0
  inDd : Bool := false

namespace DrawdownLoop

def closeDrawdown (s : DrawdownLoop) (ts : ℕ) : DrawdownLoop :=
  { s with
    maxDdDurationUs := max s.maxDdDurationUs ((ts+2^64-s.ddStart)%2^64)
    inDd := false }

def raisePeak (s : DrawdownLoop) (ts : ℕ) (eq : Decimal) : DrawdownLoop :=
  if s.peak < eq then
    if s.inDd then { s with peak := eq }.closeDrawdown ts else { s with peak := eq }
  else s

def recordPoint (s : DrawdownLoop) (ts : ℕ) (dd : Decimal) (ddPct : ℚ) : DrawdownLoop :=
  let s := { s with drawdownCurve := s.drawdownCurve++[(ts,ddPct)] }
  if s.maxDrawdown < dd then { s with maxDrawdown := dd, maxDrawdownPct := ddPct } else s

def openDrawdown (s : DrawdownLoop) (ts : ℕ) (dd : Decimal) : DrawdownLoop :=
  if 0 < dd ∧ s.inDd = false then { s with ddStart := ts, inDd := true } else s

def snapshot (s : DrawdownLoop) (snap : ℕ × Decimal) : DrawdownLoop :=
  let s := s.raisePeak snap.1 snap.2
  let dd := s.peak-snap.2
  (s.recordPoint snap.1 dd (drawdownPct s.peak dd)).openDrawdown snap.1 dd

def largest (s : DrawdownLoop) : Decimal × ℚ := (s.maxDrawdown,s.maxDrawdownPct)

@[simp] theorem closeDrawdown_peak (s : DrawdownLoop) (ts : ℕ) :
    (s.closeDrawdown ts).peak = s.peak := rfl
@[simp] theorem closeDrawdown_curve (s : DrawdownLoop) (ts : ℕ) :
    (s.closeDrawdown ts).drawdownCurve = s.drawdownCurve := rfl
@[simp] theorem closeDrawdown_largest (s : DrawdownLoop) (ts : ℕ) :
    (s.closeDrawdown ts).largest = s.largest := rfl

theorem raisePeak_peak (s : DrawdownLoop) (ts : ℕ) (eq : Decimal) :
    (s.raisePeak ts eq).peak = max s.peak eq := by
  unfold raisePeak
  by_cases h : s.peak < eq
  · rw [if_pos h, max_eq_right h.le]
    split_ifs <;> rfl
  · rw [if_neg h, max_eq_left (not_lt.mp h)]

@[simp] theorem raisePeak_curve (s : DrawdownLoop) (ts : ℕ) (eq : Decimal) :
    (s.raisePeak ts eq).drawdownCurve = s.drawdownCurve := by
  unfold raisePeak
  split_ifs <;> rfl

@[simp] theorem raisePeak_largest (s : DrawdownLoop) (ts : ℕ) (eq : Decimal) :
    (s.raisePeak ts eq).largest = s.largest := by
  unfold raisePeak
  split_ifs <;> rfl

@[simp] theorem recordPoint_peak (s : DrawdownLoop) (ts : ℕ) (dd : Decimal) (p : ℚ) :
    (s.recordPoint ts dd p).peak = s.peak := by
  unfold recordPoint
  dsimp only
  split_ifs <;> rfl

theorem recordPoint_curve (s : DrawdownLoop) (ts : ℕ) (dd : Decimal) (p : ℚ) :
    (s.recordPoint ts dd p).drawdownCurve = s.drawdownCurve++[(ts,p)] := by
  unfold recordPoint
  dsimp only
  split_ifs <;> rfl

theorem recordPoint_largest (s : DrawdownLoop) (ts : ℕ) (dd : Decimal) (p : ℚ) :
    (s.recordPoint ts dd p).largest = keep Prod.fst s.largest (dd,p) := by
  unfold recordPoint keep largest
  dsimp only
  split_ifs <;> rfl

@[simp] theorem openDrawdown_peak (s : DrawdownLoop) (ts : ℕ) (dd : Decimal) :
    (s.openDrawdown ts dd).peak = s.peak := by
  unfold openDrawdown
  split_ifs <;> rfl

@[simp] theorem openDrawdown_curve (s : DrawdownLoop) (ts : ℕ) (dd : Decimal) :
    (s.openDrawdown ts dd).drawdownCurve = s.drawdownCurve := by
  unfold openDrawdown
  split_ifs <;> rfl

@[simp] theorem openDrawdown_largest (s : DrawdownLoop) (ts : ℕ) (dd : Decimal) :
    (s.openDrawdown ts dd).largest = s.largest := by
  unfold openDrawdown
  split_ifs <;> rfl

theorem snapshot_peak (s : DrawdownLoop) (snap : ℕ × Decimal) :
    (s.snapshot snap).peak = max s.peak snap.2 := by
  simp only [snapshot, openDrawdown_peak, recordPoint_peak, raisePeak_peak]

theorem snapshot_curve (s : DrawdownLoop) (snap : ℕ × Decimal) :
    (s.snapshot snap).drawdownCurve = s.drawdownCurve++
      [(snap.1,drawdownPct (max s.peak snap.2) (max s.peak snap.2-snap.2))] := by
  simp only [snapshot, openDrawdown_curve, recordPoint_curve, raisePeak_curve, raisePeak_peak]

theorem snapshot_largest (s : DrawdownLoop) (snap : ℕ × Decimal) :
    (s.snapshot snap).largest = keep Prod.fst s.largest
      (max s.peak snap.2-snap.2,drawdownPct (max s.peak snap.2) (max s.peak snap.2-snap.2)) := by
  simp only [snapshot, openDrawdown_largest, recordPoint_largest, raisePeak_largest,
    raisePeak_peak]

end DrawdownLoop

def enterLoop (m : MetricsCollector) (first : Decimal) : DrawdownLoop :=
  { equitySnaps := m.equitySnaps, peak := first }

/-- The drawdown part of `calculateMetrics`. When it is done, `dailyReturns`
follows, which need not return. -/
def calculateMetrics (m : MetricsCollector) : MetricsCollector :=
  match m.equitySnaps with
  | [] => { equitySnaps := [] }
  | first::rest =>
    let s := (first::rest).foldl DrawdownLoop.snapshot (m.enterLoop first.2)
    if s.inDd then
      (s.closeDrawdown ((first::rest).getLast (List.cons_ne_nil first rest)).1).toMetricsCollector
    else s.toMetricsCollector

def fallAt (peak eq : Decimal) : Decimal × ℚ := (peak-eq,drawdownPct peak (peak-eq))

def fallsFrom (peak : Decimal) (equities : List Decimal) : List (Decimal × ℚ) :=
  List.zipWith fallAt (peaks peak equities) equities

def falls : List Decimal → List (Decimal × ℚ)
  | [] => []
  | first::rest => fallsFrom first (first::rest)

theorem fallsFrom_cons (peak eq : Decimal) (equities : List Decimal) :
    fallsFrom peak (eq::equities) =
      fallAt (max peak eq) eq::fallsFrom (max peak eq) equities := rfl

@[simp] theorem length_fallsFrom (peak : Decimal) (equities : List Decimal) :
    (fallsFrom peak equities).length = equities.length := by
  simp [fallsFrom]

/-- The loop adds one point to the curve for every snapshot. -/
theorem loop_curve (snaps : List (ℕ × Decimal)) (s : DrawdownLoop) :
    (snaps.foldl DrawdownLoop.snapshot s).drawdownCurve = s.drawdownCurve++
      (snaps.map Prod.fst).zip ((fallsFrom s.peak (snaps.map Prod.snd)).map Prod.snd) := by
  induction snaps generalizing s with
  | nil => exact (List.append_nil _).symm
  | cons snap snaps ih =>
    rw [List.foldl_cons, ih, s.snapshot_curve, s.snapshot_peak, List.append_assoc]
    rfl

/-- The loop keeps the first of the largest falls. -/
theorem loop_largest (snaps : List (ℕ × Decimal)) (s : DrawdownLoop) :
    (snaps.foldl DrawdownLoop.snapshot s).largest =
      (fallsFrom s.peak (snaps.map Prod.snd)).foldl (keep Prod.fst) s.largest := by
  induction snaps generalizing s with
  | nil => rfl
  | cons snap snaps ih =>
    rw [List.foldl_cons, ih, s.snapshot_largest, s.snapshot_peak]
    rfl

def equities (m : MetricsCollector) : List Decimal := m.equitySnaps.map Prod.snd

theorem calculateMetrics_loop (m : MetricsCollector) (first : ℕ × Decimal)
    (rest : List (ℕ × Decimal)) (hm : m.equitySnaps = first::rest) :
    let s := (first::rest).foldl DrawdownLoop.snapshot (m.enterLoop first.2)
    m.calculateMetrics.drawdownCurve = s.drawdownCurve ∧
      (m.calculateMetrics.maxDrawdown,m.calculateMetrics.maxDrawdownPct) = s.largest := by
  unfold calculateMetrics
  rw [hm]
  dsimp only
  split_ifs
  · exact ⟨rfl,rfl⟩
  · exact ⟨rfl,rfl⟩

theorem calculateMetrics_curve (m : MetricsCollector) :
    m.calculateMetrics.drawdownCurve =
      (m.equitySnaps.map Prod.fst).zip ((falls m.equities).map Prod.snd) := by
  cases hm : m.equitySnaps with
  | nil =>
    unfold calculateMetrics
    rw [hm]
    rfl
  | cons first rest =>
    rw [(calculateMetrics_loop m first rest hm).1, loop_curve, equities, hm]
    rfl

@[simp] theorem fallAt_self (eq : Decimal) : fallAt eq eq = (0,0) := by
  rw [fallAt, drawdownPct, sub_self, Decimal.toRat_zero, zero_div, zero_mul, ite_self]

/-- At the first snapshot nothing has been lost, so the kept fall is one of the falls. -/
theorem calculateMetrics_largest (m : MetricsCollector) (hne : m.equitySnaps ≠ []) :
    (falls m.equities).argmax Prod.fst =
      some (m.calculateMetrics.maxDrawdown,m.calculateMetrics.maxDrawdownPct) := by
  cases hm : m.equitySnaps with
  | nil => exact absurd hm hne
  | cons first rest =>
    have hfalls : falls m.equities = (0,0)::fallsFrom first.2 (rest.map Prod.snd) := by
      rw [equities, hm, List.map_cons, falls, fallsFrom_cons, max_self, fallAt_self]
    have hkeep : keep Prod.fst (0,0) ((0,0) : Decimal × ℚ) = (0,0) := ite_self _
    rw [hfalls, argmax_keep, (calculateMetrics_loop m first rest hm).2, loop_largest]
    show _ = some ((fallsFrom first.2 (first.2::rest.map Prod.snd)).foldl (keep Prod.fst) (0,0))
    rw [fallsFrom_cons, max_self, fallAt_self, List.foldl_cons, hkeep]

theorem falls_length (equities : List Decimal) : (falls equities).length = equities.length := by
  cases equities with
  | nil => rfl
  | cons first rest => exact length_fallsFrom first _

theorem falls_getElem? (equities : List Decimal) (j : ℕ) (peak eq : Decimal)
    (hpeak : IsGreatest (UpTo equities j) peak) (heq : equities[j]? = some eq) :
    (falls equities)[j]? = some (fallAt peak eq) := by
  cases equities with
  | nil => simp at heq
  | cons first rest =>
    have hj : j < (peaks first (first::rest)).length := by
      rw [length_peaks]
      exact (List.getElem?_eq_some_iff.mp heq).1
    have hp := List.getElem?_eq_getElem hj
    have hsame := (peaks_isGreatest first rest j _ hp).unique hpeak
    rw [falls, fallsFrom, List.getElem?_zipWith, hp, heq, hsame]

def NoOverflow (equities : List Decimal) : Prop :=
  ∀ d ∈ Falls (equities.map Decimal.raw), d < 2^63

theorem UpTo.le_of_isGreatest {equities : List Decimal} {j : ℕ} {peak eq : Decimal}
    (hpeak : IsGreatest (UpTo equities j) peak) (heq : equities[j]? = some eq) : eq ≤ peak :=
  hpeak.2 ⟨j,le_rfl,heq⟩

theorem fall_raw (equities : List Decimal) (h : NoOverflow equities) (j : ℕ) (peak eq : Decimal)
    (hpeak : IsGreatest (UpTo equities j) peak) (heq : equities[j]? = some eq) :
    (peak-eq).raw = peak.raw-eq.raw := by
  obtain ⟨i,hi,hpi⟩ := hpeak.1
  have hle : eq.raw ≤ peak.raw := UpTo.le_of_isGreatest hpeak heq
  have hlt : peak.raw-eq.raw < 2^63 :=
    h _ ⟨i,j,peak.raw,eq.raw,hi,by simp [hpi],by simp [heq],rfl⟩
  apply Decimal.sub_raw
  exact ⟨by omega,hlt⟩

theorem fall_toRat (equities : List Decimal) (h : NoOverflow equities) (j : ℕ) (peak eq : Decimal)
    (hpeak : IsGreatest (UpTo equities j) peak) (heq : equities[j]? = some eq) :
    (peak-eq).toRat = peak.toRat-eq.toRat := by
  rw [Decimal.toRat, fall_raw equities h j peak eq hpeak heq, Decimal.toRat, Decimal.toRat]
  push_cast
  ring

theorem peakFalls_toRat (first : Decimal) (rest : List Decimal)
    (h : NoOverflow (first::rest)) (d : ℚ) :
    d ∈ PeakFalls (peaks first.toRat ((first::rest).map Decimal.toRat))
        ((first::rest).map Decimal.toRat) ↔
      ∃ f ∈ falls (first::rest), d = f.1.toRat := by
  rw [← peaks_map Decimal.toRat Decimal.toRat_strictMono.monotone]
  constructor
  · rintro ⟨j,p,a,hp,ha,rfl⟩
    rw [List.getElem?_map, Option.map_eq_some_iff] at hp ha
    obtain ⟨peak,hpeak,rfl⟩ := hp
    obtain ⟨eq,heq,rfl⟩ := ha
    have hmax := peaks_isGreatest first rest j peak hpeak
    have hj := falls_getElem? (first::rest) j peak eq hmax heq
    exact ⟨_,List.mem_of_getElem? hj,(fall_toRat _ h j peak eq hmax heq).symm⟩
  · rintro ⟨f,hf,rfl⟩
    obtain ⟨j,hj⟩ := List.mem_iff_getElem?.mp hf
    obtain ⟨peak,eq,hpeak,heq,rfl⟩ := List.getElem?_zipWith_eq_some.mp hj
    have hmax := peaks_isGreatest first rest j peak hpeak
    refine ⟨j,peak.toRat,eq.toRat,?_,?_,fall_toRat _ h j peak eq hmax heq⟩
    · rw [List.getElem?_map, hpeak, Option.map_some]
    · rw [List.getElem?_map, heq, Option.map_some]

theorem maxDrawdown_isGreatest (m : MetricsCollector) (hne : m.equitySnaps ≠ [])
    (h : NoOverflow m.equities) :
    IsGreatest (Falls (m.equities.map Decimal.toRat)) m.calculateMetrics.maxDrawdown.toRat := by
  have hlargest := calculateMetrics_largest m hne
  cases he : m.equities with
  | nil => exact absurd (List.map_eq_nil_iff.mp he) hne
  | cons first rest =>
    rw [he] at hlargest h
    rw [List.map_cons]
    apply falls_isGreatest
    rw [← List.map_cons]
    constructor
    · exact (peakFalls_toRat first rest h _).mpr ⟨_,List.argmax_mem hlargest,rfl⟩
    · intro d hd
      obtain ⟨f,hf,rfl⟩ := (peakFalls_toRat first rest h d).mp hd
      exact Decimal.toRat_strictMono.monotone (List.le_of_mem_argmax hf hlargest)

theorem drawdownCurve_getElem? (m : MetricsCollector) (h : NoOverflow m.equities)
    (j ts : ℕ) (eq peak : Decimal) (hsnap : m.equitySnaps[j]? = some (ts,eq))
    (hpeak : IsGreatest (UpTo m.equities j) peak) :
    m.calculateMetrics.drawdownCurve[j]? =
      some (ts,if 0 < peak then 100*(peak.toRat-eq.toRat)/peak.toRat else 0) := by
  have hts : (m.equitySnaps.map Prod.fst)[j]? = some ts := by simp [hsnap]
  have heq : m.equities[j]? = some eq := by simp [equities, hsnap]
  have hfall : ((falls m.equities).map Prod.snd)[j]? = some (fallAt peak eq).2 := by
    rw [List.getElem?_map, falls_getElem? m.equities j peak eq hpeak heq, Option.map_some]
  have hpct : (fallAt peak eq).2 =
      if 0 < peak then 100*(peak.toRat-eq.toRat)/peak.toRat else 0 := by
    rw [fallAt, drawdownPct, fall_toRat m.equities h j peak eq hpeak heq]
    split_ifs
    · ring
    · rfl
  rw [← hpct, calculateMetrics_curve]
  exact List.getElem?_zip_eq_some.mpr ⟨hts,hfall⟩

theorem calculateMetrics_drawdown (m : MetricsCollector) (hne : m.equitySnaps ≠ [])
    (h : NoOverflow m.equities) :
    IsGreatest (Falls (m.equities.map Decimal.toRat)) m.calculateMetrics.maxDrawdown.toRat ∧
      0 ≤ m.calculateMetrics.maxDrawdown ∧
      m.calculateMetrics.drawdownCurve.length = m.equitySnaps.length ∧
      (∀ j ts eq peak, m.equitySnaps[j]? = some (ts,eq) → IsGreatest (UpTo m.equities j) peak →
        m.calculateMetrics.drawdownCurve[j]? =
          some (ts,if 0 < peak then 100*(peak.toRat-eq.toRat)/peak.toRat else 0)) ∧
      (m.calculateMetrics.maxDrawdown = 0 ↔ m.equities.Pairwise (· ≤ ·)) := by
  have hmax := maxDrawdown_isGreatest m hne h
  have hzero := falls_zero_iff _ _ hmax
  have hmono : m.equities.Pairwise (· ≤ ·) ↔
      (m.equities.map Decimal.toRat).Pairwise (· ≤ ·) := by
    rw [List.pairwise_map]
    simp only [Decimal.toRat_strictMono.le_iff_le]
  refine ⟨hmax,?_,?_,drawdownCurve_getElem? m h,?_⟩
  · obtain ⟨first,rest,he⟩ := List.exists_cons_of_ne_nil
      (show m.equities ≠ [] from fun hn => hne (List.map_eq_nil_iff.mp hn))
    have hlargest := calculateMetrics_largest m hne
    rw [he] at hlargest
    have hfirst : (0,0) ∈ falls (first::rest) := by
      rw [falls, fallsFrom_cons, max_self, fallAt_self]
      exact List.mem_cons_self
    exact List.le_of_mem_argmax hfirst hlargest
  · rw [calculateMetrics_curve, List.length_zip, List.length_map, List.length_map,
      falls_length, equities, List.length_map, min_self]
  · rw [hmono, ← hzero, ← Decimal.toRat_zero, Decimal.toRat_strictMono.injective.eq_iff]

def risen : MetricsCollector :=
  (((({} : MetricsCollector).recordEquity 0 (.ofInt 50)).recordEquity 1 (.ofInt 100)).recordEquity
    2 (.ofInt 75))

theorem risen_noOverflow : NoOverflow risen.equities := by
  have hraw : risen.equities.map Decimal.raw = [50*2^32,100*2^32,75*2^32] := by decide
  rintro d ⟨i,j,a,b,hij,ha,hb,rfl⟩
  have hbound (k : ℕ) (z : ℤ) (hz : (risen.equities.map Decimal.raw)[k]? = some z) :
      0 ≤ z ∧ z ≤ 100*2^32 := by
    rw [hraw] at hz
    have hmem := List.mem_of_getElem? hz
    simp only [List.mem_cons, List.not_mem_nil, or_false] at hmem
    omega
  have := hbound i a ha
  have := hbound j b hb
  omega

theorem calculateMetrics_drawdown_risen :
    IsGreatest (Falls (risen.equities.map Decimal.toRat))
        risen.calculateMetrics.maxDrawdown.toRat ∧
      risen.calculateMetrics.maxDrawdown = .ofInt 25 :=
  ⟨(calculateMetrics_drawdown risen (by decide) risen_noOverflow).1,by decide⟩

def curveMaximum (m : MetricsCollector) : ℚ := (m.drawdownCurve.map Prod.snd).max?.getD 0

/-- At the first of the largest falls in money the fall in percent is largest too. -/
def SteepestAtDeepest (equities : List Decimal) : Prop :=
  ∀ deepest ∈ (falls equities).argmax Prod.fst, ∀ fall ∈ falls equities, fall.2 ≤ deepest.2

theorem curve_percentages (m : MetricsCollector) :
    m.calculateMetrics.drawdownCurve.map Prod.snd = (falls m.equities).map Prod.snd := by
  rw [calculateMetrics_curve]
  apply List.map_snd_zip
  rw [List.length_map, List.length_map, falls_length, equities, List.length_map]

theorem maxDrawdownPct_iff (m : MetricsCollector) :
    m.calculateMetrics.maxDrawdownPct = m.calculateMetrics.curveMaximum ↔
      SteepestAtDeepest m.equities := by
  rw [curveMaximum, curve_percentages]
  by_cases hne : m.equitySnaps = []
  · have hnil : m.equities = [] := by rw [equities, hne, List.map_nil]
    have hpct : m.calculateMetrics.maxDrawdownPct = 0 := by
      unfold calculateMetrics
      rw [hne]
    rw [hnil, hpct, SteepestAtDeepest]
    simp [falls]
  · have hlargest := calculateMetrics_largest m hne
    have hmem := List.argmax_mem hlargest
    constructor
    · intro hmax deepest hd fall hf
      cases Option.mem_unique hlargest hd
      cases hx : ((falls m.equities).map Prod.snd).max? with
      | none =>
        rw [List.max?_eq_none_iff, List.map_eq_nil_iff] at hx
        exact absurd hmem (by simp [hx])
      | some x =>
        have hle := (List.max?_eq_some_iff.mp hx).2 fall.2 (List.mem_map_of_mem hf)
        rw [hx, Option.getD_some] at hmax
        exact hle.trans_eq hmax.symm
    · intro hsteep
      have hle := hsteep _ hlargest
      rw [List.max?_eq_some_iff.mpr ⟨List.mem_map_of_mem hmem,?_⟩, Option.getD_some]
      intro q hq
      obtain ⟨fall,hf,rfl⟩ := List.mem_map.mp hq
      exact hle fall hf

def grown : MetricsCollector :=
  ((((({} : MetricsCollector).recordEquity 0 (.ofInt 100)).recordEquity 1 (.ofInt 50)).recordEquity
    2 (.ofInt 1000)).recordEquity 3 (.ofInt 900))

theorem grown_pct :
    grown.calculateMetrics.maxDrawdownPct ≠ grown.calculateMetrics.curveMaximum ∧
      grown.calculateMetrics.maxDrawdownPct = 10 ∧ grown.calculateMetrics.curveMaximum = 50 := by
  decide +kernel

end MetricsCollector
end Chronos
