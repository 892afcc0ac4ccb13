import DotRunner.Disk
import Mathlib.Data.Rat.Floor
import Mathlib.Tactic.Linarith

/-!
# The freshness floor

Whether a file was written by the node execution that asks: its time stamp against the
clock reading at the start, in seconds, the floor lowered by the resolution that the
stamp evidences.
-/

namespace DotRunner

def seconds (ns : Int) : ℚ := (ns : ℚ) / (nsPerSecond : ℚ)

/-- `wrote_after_node_start`, on exact seconds. -/
def wroteAfterStart (mtimeNs : Int) (nodeStartWall : ℚ) : Bool :=
  if nodeStartWall < seconds mtimeNs then true
  else if seconds mtimeNs = nodeStartWall then false
  else decide (nodeStartWall - seconds (mtimeGranularityNs mtimeNs) < seconds mtimeNs)

/-- The stamp of a write on a file system that counts in units of this many nanoseconds. -/
def stampNs (granularityNs : Int) (writeTime : ℚ) : Int :=
  ⌊writeTime * nsPerSecond / granularityNs⌋ * granularityNs

theorem nsPerSecond_pos : (0 : ℚ) < (nsPerSecond : ℚ) := Int.cast_pos.mpr (by decide)

theorem seconds_lt {a b : Int} : seconds a < seconds b ↔ a < b := by
  rw [seconds, seconds, div_lt_div_iff_of_pos_right nsPerSecond_pos]
  exact Int.cast_lt

theorem seconds_inj {a b : Int} : seconds a = seconds b ↔ a = b := by
  constructor
  · intro h
    have hle := seconds_lt.not.mp (show ¬ seconds a < seconds b by rw [h]; exact lt_irrefl _)
    have hge := seconds_lt.not.mp (show ¬ seconds b < seconds a by rw [h]; exact lt_irrefl _)
    omega
  · intro h
    rw [h]

theorem seconds_sub (a b : Int) : seconds (a - b) = seconds a - seconds b := by
  rw [seconds, seconds, seconds, Int.cast_sub, sub_div]

theorem seconds_add (a b : Int) : seconds (a + b) = seconds a + seconds b := by
  rw [seconds, seconds, seconds, Int.cast_add, add_div]

/-- Where the clock reads whole nanoseconds, it is the check the engine makes. -/
theorem wroteAfterStart_seconds (mtimeNs nodeStartWall : Int) :
    wroteAfterStart mtimeNs (seconds nodeStartWall) =
      wroteAfterNodeStart mtimeNs nodeStartWall := by
  simp only [wroteAfterStart, wroteAfterNodeStart, ← seconds_sub, seconds_lt, seconds_inj]

/-- Of a falling list the first hit is the greatest. -/
theorem le_getD_find? {l : List Int} {p : Int → Bool} {d : Int} (hfalling : l.Pairwise (· ≥ ·))
    (hd : d ∈ l) (hp : p d = true) : d ≤ (l.find? p).getD 0 := by
  induction l with
  | nil => simp at hd
  | cons e l ih =>
    obtain ⟨hhead, htail⟩ := List.pairwise_cons.mp hfalling
    by_cases he : p e = true
    · rw [List.find?_cons_of_pos he]
      show d ≤ e
      cases List.mem_cons.mp hd with
      | inl heq => omega
      | inr hmem => exact hhead d hmem
    · rw [List.find?_cons_of_neg he]
      apply ih htail
      cases List.mem_cons.mp hd with
      | inl heq => exact absurd (heq ▸ hp) he
      | inr hmem => exact hmem

/-- A stamp evidences every unit it is a multiple of. -/
theorem le_mtimeGranularityNs {granularityNs mtimeNs : Int} (hpos : 0 < mtimeNs)
    (h : granularityNs ∈ granularityDivisorsNs) (hdvd : granularityNs ∣ mtimeNs) :
    granularityNs ≤ mtimeGranularityNs mtimeNs := by
  have hmod : mtimeNs % granularityNs = 0 := Int.emod_eq_zero_of_dvd hdvd
  rw [mtimeGranularityNs, if_neg (by omega)]
  apply le_getD_find? (by decide) h
  rw [hmod]
  rfl

/-- A write is less than one unit later than its stamp. -/
theorem lt_stampNs_add {granularityNs : Int} (hpos : 0 < granularityNs) (writeTime : ℚ) :
    writeTime < seconds (stampNs granularityNs writeTime + granularityNs) := by
  have hg : (0 : ℚ) < (granularityNs : ℚ) := Int.cast_pos.mpr hpos
  have hfloor := Int.lt_floor_add_one (writeTime * nsPerSecond / granularityNs)
  rw [div_lt_iff₀ hg] at hfloor
  rw [seconds, lt_div_iff₀ nsPerSecond_pos, stampNs]
  push_cast
  linarith

section Claim

variable {granularityNs : Int} {nodeStartWall writeTime : ℚ}

/-- A file written after the start is fresh, on every file system that the check knows, unless
its stamp is the start itself. -/
theorem wroteAfterStart_stamp (hg : granularityNs ∈ granularityDivisorsNs)
    (hlater : nodeStartWall < writeTime) (hpos : 0 < stampNs granularityNs writeTime)
    (hne : seconds (stampNs granularityNs writeTime) ≠ nodeStartWall) :
    wroteAfterStart (stampNs granularityNs writeTime) nodeStartWall = true := by
  have hunit : 0 < granularityNs := by
    have hall : ∀ d ∈ granularityDivisorsNs, 0 < d := by decide
    exact hall granularityNs hg
  have hlt := lt_stampNs_add hunit writeTime
  have hle := le_mtimeGranularityNs hpos hg (Int.dvd_mul_left _ granularityNs)
  have hsec : seconds granularityNs ≤
      seconds (mtimeGranularityNs (stampNs granularityNs writeTime)) :=
    not_lt.mp fun h => absurd (seconds_lt.mp h) (by omega)
  rw [seconds_add] at hlt
  rw [wroteAfterStart]
  by_cases hafter : nodeStartWall < seconds (stampNs granularityNs writeTime)
  · rw [if_pos hafter]
  · rw [if_neg hafter, if_neg hne, decide_eq_true_eq]
    linarith

/-- What is taken for fresh is less than one second older than the start. -/
theorem lt_of_wroteAfterStart {mtimeNs : Int} (h : wroteAfterStart mtimeNs nodeStartWall = true) :
    nodeStartWall - 1 < seconds mtimeNs := by
  have hone : seconds (mtimeGranularityNs mtimeNs) ≤ 1 := by
    have hle := mtimeGranularityNs_le mtimeNs
    have hsec : ¬ seconds nsPerSecond < seconds (mtimeGranularityNs mtimeNs) :=
      fun h => absurd (seconds_lt.mp h) (by omega)
    have hunit : seconds nsPerSecond = 1 := div_self nsPerSecond_pos.ne'
    rw [hunit] at hsec
    exact not_lt.mp hsec
  rw [wroteAfterStart] at h
  by_cases hafter : nodeStartWall < seconds mtimeNs
  · linarith
  · rw [if_neg hafter] at h
    by_cases heq : seconds mtimeNs = nodeStartWall
    · rw [if_pos heq] at h
      cases h
    · rw [if_neg heq, decide_eq_true_eq] at h
      linarith

end Claim

/-- The check errs on neither side, for stamps behind the epoch. -/
theorem freshness_twoSided :
    (∀ granularityNs ∈ granularityDivisorsNs, ∀ nodeStartWall writeTime : ℚ,
      nodeStartWall < writeTime → 0 < stampNs granularityNs writeTime →
      seconds (stampNs granularityNs writeTime) ≠ nodeStartWall →
      wroteAfterStart (stampNs granularityNs writeTime) nodeStartWall = true) ∧
    (∀ (mtimeNs : Int) (nodeStartWall : ℚ), wroteAfterStart mtimeNs nodeStartWall = true →
      nodeStartWall - 1 < seconds mtimeNs) ∧
    ∀ (mtimeNs : Int) (nodeStartWall lastWrite : ℚ), lastWrite < nodeStartWall - 1 →
      seconds mtimeNs ≤ lastWrite → wroteAfterStart mtimeNs nodeStartWall = false := by
  refine ⟨fun g hg start write hlater hpos hne => wroteAfterStart_stamp hg hlater hpos hne,
    fun m start h => lt_of_wroteAfterStart h, fun m start last hold hstamp => ?_⟩
  by_contra hfresh
  have hrecent := lt_of_wroteAfterStart (Bool.not_eq_false _ ▸ hfresh)
  linarith

/-- Written 0.2 s after a start at 1000.4 s and stamped in whole seconds; and last written at
999 s. -/
theorem freshness_twoSided_coarse :
    wroteAfterStart (stampNs 1000000000 (5003 / 5)) (5002 / 5) = true ∧
    (5002 / 5 : ℚ) - 1 < seconds (stampNs 1000000000 (5003 / 5)) ∧
    wroteAfterStart 999000000000 (5002 / 5) = false := by
  have hfresh := freshness_twoSided.1 1000000000 (by decide) (5002 / 5) (5003 / 5)
    (by decide +kernel) (by decide +kernel) (by decide +kernel)
  exact ⟨hfresh, freshness_twoSided.2.1 _ _ hfresh,
    freshness_twoSided.2.2 _ _ 999 (by decide +kernel) (by decide +kernel)⟩

/-- In the first second of the epoch the stamp is zero, which evidences no unit. -/
theorem epoch_write_stale :
    ¬ ∀ granularityNs ∈ granularityDivisorsNs, ∀ nodeStartWall writeTime : ℚ,
      nodeStartWall < writeTime → seconds (stampNs granularityNs writeTime) ≠ nodeStartWall →
      wroteAfterStart (stampNs granularityNs writeTime) nodeStartWall = true := by
  intro h
  have hfresh := h 1000000000 (by decide) (2 / 5) (3 / 5) (by decide +kernel) (by decide +kernel)
  revert hfresh
  decide +kernel

end DotRunner
