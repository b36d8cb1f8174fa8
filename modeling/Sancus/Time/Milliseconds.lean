import Sancus.Time.Compare

namespace Sancus.Time

open CModel

/-!
# Time — milliseconds of any timespec

`sancus_time_ts_to_ms` saturates on the seconds, and otherwise rounds the nanoseconds and adds
or subtracts them.  Rounding can carry a whole second, and the limits are such that the second
before them is still there to be carried to.

* `toMsExact` — the conversion over the integers, which the code agrees with on every canonical
  timespec (`sancusTimeTsToMs_canonical`);
* `toMsExact_mono` — it keeps the order of the values, within a second and from one to the next;
* `time_ts_to_ms_mono` — what follows for the code.
-/

/-- `NS_TO_MS_ROUNDED(ns)` without a bound on its `long`. -/
def roundedExact (ns : Int) : Int := (ns + 500000).tdiv 1000000

/-- `sancus_time_ts_to_ms` without a bound on its `long`s. -/
def toMsExact (ts : Timespec) : Int :=
  if ts.tv_sec ≤ -9223372036854775 then LONG_MIN
  else if 9223372036854775 ≤ ts.tv_sec then LONG_MAX
  else if ts.tv_sec < 0 then 1000 * ts.tv_sec - roundedExact ts.tv_nsec
  else 1000 * ts.tv_sec + roundedExact ts.tv_nsec

variable {a b ts : Timespec} {m n : Int}

/-! ### Rounding -/

theorem roundedExact_of_nonneg (hn : -500000 ≤ n) : roundedExact n = (n + 500000) / 1000000 :=
  Int.tdiv_eq_ediv_of_nonneg (by omega)

theorem roundedExact_of_neg (hn : n ≤ -500000) :
    roundedExact n = -((-n - 500000) / 1000000) := by
  have h := Int.tdiv_eq_ediv_of_nonneg (b := 1000000) (show 0 ≤ -(n + 500000) by omega)
  rw [Int.neg_tdiv] at h
  rw [roundedExact]
  omega

/-- The nanoseconds of a canonical timespec are rounded to a second at most. -/
theorem roundedExact_bounds (hlo : -NSEC < n) (hhi : n < NSEC) :
    -1000 < roundedExact n ∧ roundedExact n ≤ 1000 ∧ (0 ≤ n → 0 ≤ roundedExact n) := by
  rw [NSEC_eq] at hlo hhi
  rcases le_or_gt (-500000) n with hn | hn
  · rw [roundedExact_of_nonneg hn]
    omega
  · rw [roundedExact_of_neg hn.le]
    omega

theorem roundedExact_mono (h : m ≤ n) : roundedExact m ≤ roundedExact n := by
  rcases le_or_gt (-500000) m with hm | hm
  · rw [roundedExact_of_nonneg hm, roundedExact_of_nonneg (by omega)]
    omega
  · rw [roundedExact_of_neg hm.le]
    rcases le_or_gt (-500000) n with hn | hn
    · rw [roundedExact_of_nonneg hn]
      omega
    · rw [roundedExact_of_neg hn.le]
      omega

/-! ### The code -/

/-- On a canonical timespec no `long` overflows. -/
theorem sancusTimeTsToMs_canonical (hts : ts.Canonical) :
    sancusTimeTsToMs ts = some (toMsExact ts) := by
  have hmin : LONG_MIN.tdiv 1000 = -9223372036854775 := by decide
  have hmax : LONG_MAX.tdiv 1000 = 9223372036854775 := by decide
  have hb := hts.bounds
  have hr := roundedExact_bounds hb.1 hb.2
  rw [NSEC_eq] at hb
  have hround : nsToMsRounded ts.tv_nsec = some (roundedExact ts.tv_nsec) := by
    have hhalf : NS_PER_MS.tdiv 2 = 500000 := by decide
    have hms : NS_PER_MS = 1000000 := by decide
    unfold nsToMsRounded
    rw [hhalf, hms, long_bind _ (by omega) (by omega)]
    rfl
  unfold sancusTimeTsToMs toMsExact
  rw [hmin, hmax, hround]
  by_cases hlo : ts.tv_sec ≤ -9223372036854775
  · rw [if_pos hlo, if_pos hlo]
    rfl
  rw [if_neg hlo, if_neg hlo]
  by_cases hhi : ts.tv_sec ≥ 9223372036854775
  · rw [if_pos hhi, if_pos hhi]
    rfl
  rw [if_neg hhi, if_neg hhi]
  -- the second before a limit has room for the one that rounding carries
  by_cases hneg : ts.tv_sec < 0
  · rw [if_pos hneg, if_pos hneg, long_bind _ (by omega) (by omega)]
    exact long_eq_some (by omega) (by omega)
  · rw [if_neg hneg, if_neg hneg, long_bind _ (by omega) (by omega)]
    exact long_eq_some (by omega) (by omega)

/-! ### The order -/

/-- The milliseconds of a second lie between whole seconds, where they do not saturate. -/
theorem toMsExact_bounds (hts : ts.Canonical) (hlo : -9223372036854775 < ts.tv_sec)
    (hhi : ts.tv_sec < 9223372036854775) :
    (ts.tv_sec < 0 → 1000 * ts.tv_sec - 1000 ≤ toMsExact ts ∧ toMsExact ts ≤ 1000 * ts.tv_sec) ∧
      (ts.tv_sec = 0 → -1000 < toMsExact ts ∧ toMsExact ts ≤ 1000) ∧
      (0 < ts.tv_sec → 1000 * ts.tv_sec ≤ toMsExact ts ∧
        toMsExact ts ≤ 1000 * ts.tv_sec + 1000) := by
  have hb := hts.bounds
  have hn := hts.nonneg
  have hr := roundedExact_bounds hb.1 hb.2
  unfold toMsExact
  rw [if_neg (by omega), if_neg (by omega)]
  refine ⟨?_, ?_, ?_⟩
  · intro hs
    rw [if_pos hs]
    omega
  · intro hs
    rw [if_neg (by omega)]
    omega
  · intro hs
    rw [if_neg (by omega)]
    omega

theorem toMsExact_of_le (h : ts.tv_sec ≤ -9223372036854775) : toMsExact ts = LONG_MIN := if_pos h

theorem toMsExact_of_ge (h : 9223372036854775 ≤ ts.tv_sec) : toMsExact ts = LONG_MAX := by
  unfold toMsExact
  rw [if_neg (by omega), if_pos h]

/-- From one second to a later one. -/
theorem toMsExact_le_of_sec_lt (ha : a.Canonical) (hb : b.Canonical) (h : a.tv_sec < b.tv_sec) :
    toMsExact a ≤ toMsExact b := by
  rcases le_or_gt a.tv_sec (-9223372036854775) with halo | halo
  · rw [toMsExact_of_le halo, LONG_MIN]
    rcases le_or_gt 9223372036854775 b.tv_sec with hbhi | hbhi
    · rw [toMsExact_of_ge hbhi]
      decide
    · rcases le_or_gt b.tv_sec (-9223372036854775) with hblo | hblo
      · rw [toMsExact_of_le hblo, LONG_MIN]
      · have hbounds := toMsExact_bounds hb hblo hbhi
        omega
  · rcases le_or_gt 9223372036854775 b.tv_sec with hbhi | hbhi
    · rw [toMsExact_of_ge hbhi, LONG_MAX]
      rcases le_or_gt 9223372036854775 a.tv_sec with hahi | hahi
      · rw [toMsExact_of_ge hahi, LONG_MAX]
      · have habounds := toMsExact_bounds ha halo hahi
        omega
    · have habounds := toMsExact_bounds ha halo (by omega)
      have hbbounds := toMsExact_bounds hb (by omega) hbhi
      omega

/-- Within a second, where the nanoseconds count downwards below zero. -/
theorem toMsExact_le_of_sec_eq (h : a.tv_sec = b.tv_sec)
    (hneg : a.tv_sec < 0 → b.tv_nsec ≤ a.tv_nsec) (hpos : 0 ≤ a.tv_sec → a.tv_nsec ≤ b.tv_nsec) :
    toMsExact a ≤ toMsExact b := by
  unfold toMsExact
  rw [← h]
  split
  · exact Int.le_refl _
  split
  · exact Int.le_refl _
  split
  · next hs =>
    have hround := roundedExact_mono (hneg hs)
    omega
  · next hs =>
    have hround := roundedExact_mono (hpos (by omega))
    omega

theorem toMsExact_mono (ha : a.Canonical) (hb : b.Canonical) (h : a.value ≤ b.value) :
    toMsExact a ≤ toMsExact b := by
  rcases lt_trichotomy a.tv_sec b.tv_sec with hlt | hsec | hgt
  · exact toMsExact_le_of_sec_lt ha hb hlt
  · have hvalue := value_sub_of_sec_eq hsec
    apply toMsExact_le_of_sec_eq hsec
    · intro hs
      rw [if_pos hs] at hvalue
      omega
    · intro hs
      rw [if_neg (by omega)] at hvalue
      omega
  · have hvalue := value_lt_of_sec_lt hb ha hgt
    omega

/-- Below the limit, the nearest millisecond. -/
theorem toMsExact_nearest (hts : ts.Canonical) (hpos : 0 ≤ ts.value)
    (hmax : ts.tv_sec < LONG_MAX.tdiv 1000) : toMsExact ts = (ts.value + 500000) / 1000000 := by
  have hlimit : LONG_MAX.tdiv 1000 = 9223372036854775 := by decide
  rw [eq_ofNs hts hpos] at hmax ⊢
  rw [(ofNs_exact hpos).2]
  obtain ⟨hs, hn, hlt, hsum⟩ := ofNs_bounds hpos
  unfold toMsExact
  rw [if_neg (by omega), if_neg (by omega), if_neg (by omega), roundedExact_of_nonneg (by omega)]
  omega

/-- **Conversion to milliseconds is safe and monotone.**  On every canonical timespec no `long`
    overflows; the results are in the order of the values; and a time that is not negative and
    below the limit gives the nearest millisecond, halves rounded up. -/
theorem time_ts_to_ms_mono (a b : Timespec) (ha : a.Canonical) (hb : b.Canonical) :
    ∃ ms ms', sancusTimeTsToMs a = some ms ∧ sancusTimeTsToMs b = some ms' ∧
      (a.value ≤ b.value → ms ≤ ms') ∧
      (0 ≤ a.value → a.tv_sec < LONG_MAX.tdiv 1000 → ms = (a.value + 500000) / 1000000) :=
  ⟨_, _, sancusTimeTsToMs_canonical ha, sancusTimeTsToMs_canonical hb,
    toMsExact_mono ha hb, toMsExact_nearest ha⟩

/-- The second before the lower limit, rounded into it, and the limit. -/
theorem time_ts_to_ms_mono_limit :
    ∃ ms ms', sancusTimeTsToMs ⟨-9223372036854775, 0⟩ = some ms ∧
      sancusTimeTsToMs ⟨-9223372036854774, 999999999⟩ = some ms' ∧
      (Timespec.value ⟨-9223372036854775, 0⟩ ≤ Timespec.value ⟨-9223372036854774, 999999999⟩ →
        ms ≤ ms') ∧
      (0 ≤ Timespec.value ⟨-9223372036854775, 0⟩ → -9223372036854775 < LONG_MAX.tdiv 1000 →
        ms = (Timespec.value ⟨-9223372036854775, 0⟩ + 500000) / 1000000) :=
  time_ts_to_ms_mono ⟨-9223372036854775, 0⟩ ⟨-9223372036854774, 999999999⟩ (by decide)
    (by decide)

end Sancus.Time
