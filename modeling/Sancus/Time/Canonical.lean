import Sancus.Time.Deadline

namespace Sancus.Time

open CModel

/-!
# Time — the canonical form, and milliseconds in it

`sancus_time_fix` carries whole seconds from the nanoseconds to the seconds, and borrows
from them below zero.  The borrow is that of a number whose nanoseconds count upwards, where
the canonical form of a time below zero seconds counts them downwards.

* `Timespec.total` — the nanoseconds the two fields add up to;
* `CarriesOver` — the fields on which the borrow is right;
* `time_fix_exact_iff` — `sancus_time_fix` is exact on them and on no others;
* `ms_round_trip_iff` — the milliseconds that survive the way through a timespec.
-/

/-- The nanoseconds the fields add up to. -/
def Timespec.total (t : Timespec) : Int := t.tv_sec * NSEC + t.tv_nsec

/-- `sancus_time_fix` leaves the canonical timespec of the total, returns its sign, and changes
    nothing when it is called again. -/
def FixesExactly (ts : Timespec) : Prop :=
  ∃ t : Timespec, t.Exact ts.total ∧ sancusTimeFix ts = some (t, ts.total.sign) ∧
    sancusTimeFix t = some (t, ts.total.sign)

/-- No nanoseconds are borrowed: they are not below zero, or they are a negative fraction of a
    second and alone.  Or they are, not by whole seconds, and the total stays above zero. -/
def CarriesOver (ts : Timespec) : Prop :=
  0 ≤ ts.tv_nsec ∨ (ts.tv_sec = 0 ∧ -NSEC < ts.tv_nsec) ∨
    (ts.tv_nsec % NSEC ≠ 0 ∧ 0 < ts.total)

variable {t ts : Timespec} {n ms : Int}

/-! ### A second call -/

/-- A canonical timespec is left alone. -/
theorem sancusTimeFix_canonical (h : t.Canonical) : sancusTimeFix t = some (t, t.signum) := by
  have hb := h.bounds
  have hfix : fixAdjust t = some t := by
    unfold fixAdjust
    dsimp only
    rw [tdiv_NSEC_zero hb.1 hb.2, if_neg (lt_irrefl 0)]
    split
    · next hneg =>
      have hsec : t.tv_sec = 0 := by
        by_contra hs
        exact absurd (h.nonneg hs) (not_le.mpr hneg)
      rw [long_bind _ (by decide) (by decide), if_neg (by omega)]
      rfl
    · rfl
  rw [sancusTimeFix, hfix]
  rfl

/-- So all depends on what the first one leaves. -/
theorem fixesExactly_iff (hfix : (sancusTimeFix ts).isSome) :
    FixesExactly ts ↔ (fixExact ts).Exact ts.total := by
  obtain ⟨r, hr⟩ := Option.isSome_iff_exists.mp hfix
  have hexact := sancusTimeFix_exact hr
  rw [FixesExactly, hr, hexact]
  constructor
  · rintro ⟨t, ht, heq, _⟩
    obtain ⟨rfl, _⟩ := Prod.mk.inj (Option.some.inj heq)
    exact ht
  · intro h
    have hsign : (fixExact ts).signum = ts.total.sign := by rw [signum_of_canonical h.1, h.2]
    refine ⟨fixExact ts, h, by rw [hsign], ?_⟩
    rw [sancusTimeFix_canonical h.1, hsign]

/-! ### The exact condition -/

/-- The division truncates towards zero. -/
theorem tdiv_NSEC_of_neg (hn : n ≤ 0) : n.tdiv NSEC = -(-n / NSEC) := by
  have h := Int.tdiv_eq_ediv_of_nonneg (b := NSEC) (show 0 ≤ -n by omega)
  rw [Int.neg_tdiv] at h
  omega

/-- On seconds that are not below zero, what is left is exact under the condition only. -/
theorem fixExact_exact_iff (hs : 0 ≤ ts.tv_sec) :
    (fixExact ts).Exact ts.total ↔ CarriesOver ts := by
  obtain ⟨s, n⟩ := ts
  unfold CarriesOver Timespec.total fixExact
  simp only [NSEC_eq] at *
  rcases le_or_gt 0 n with hn | hn
  · -- whole seconds are carried over, if there are any
    rw [Int.tdiv_eq_ediv_of_nonneg hn]
    split
    · rw [exact_mk_iff, NSEC_eq]
      omega
    · rw [if_neg (by omega), exact_mk_iff, NSEC_eq]
      omega
  · have hdiv := tdiv_NSEC_of_neg hn.le
    rw [NSEC_eq] at hdiv
    rw [hdiv, if_neg (by omega)]
    split
    · -- seconds are borrowed, one more than there are whole ones
      rw [exact_mk_iff, NSEC_eq]
      omega
    · rw [exact_mk_iff, NSEC_eq]
      omega

/-- What `sancus_time_new_ms` gives, if it gives anything. -/
theorem sancusTimeNewMs_exact (h : sancusTimeNewMs ms = some t) :
    (sancusTimeFix ⟨0, ms * 1000000⟩).isSome ∧ t = fixExact ⟨0, ms * 1000000⟩ := by
  obtain ⟨ns, hns, hfix⟩ := Option.bind_eq_some_iff.mp h
  have hms : ns = ms * 1000000 := by
    unfold msToNs at hns
    have hus := bind_long hns
    have hexact := eq_of_long hus
    omega
  obtain ⟨r, hr, hret⟩ := Option.bind_eq_some_iff.mp hfix
  have hexact := sancusTimeFix_exact hr
  rw [hms] at hr hexact
  exact ⟨by rw [hr]; rfl, by rw [← Option.some.inj hret, hexact]⟩

/-- **When `sancus_time_fix` is exact.**  For every number of seconds that is not negative and
    every number of nanoseconds for which no `long` overflows: exactly when nothing is borrowed,
    or a total above zero is left that is not in whole seconds.  So `sancus_time_new_ms` is
    exact for the milliseconds above -1000. -/
theorem time_fix_exact_iff (ts : Timespec) (ms : Int) :
    (0 ≤ ts.tv_sec → (sancusTimeFix ts).isSome → (FixesExactly ts ↔ CarriesOver ts)) ∧
    ((sancusTimeNewMs ms).isSome →
      ((∃ t : Timespec, sancusTimeNewMs ms = some t ∧ t.Exact (ms * 1000000)) ↔ -1000 < ms)) := by
  refine ⟨?_, ?_⟩
  · intro hs hfix
    rw [fixesExactly_iff hfix, fixExact_exact_iff hs]
  · intro hms
    obtain ⟨t, ht⟩ := Option.isSome_iff_exists.mp hms
    obtain ⟨_, hexact⟩ := sancusTimeNewMs_exact ht
    have htotal : Timespec.total ⟨0, ms * 1000000⟩ = ms * 1000000 := by
      show 0 * NSEC + ms * 1000000 = _
      rw [Int.zero_mul, Int.zero_add]
    have hiff := @fixExact_exact_iff ⟨0, ms * 1000000⟩ (le_refl 0)
    rw [htotal, ← hexact] at hiff
    have hcond : CarriesOver ⟨0, ms * 1000000⟩ ↔ -1000 < ms := by
      rw [CarriesOver, htotal, NSEC_eq]
      dsimp only
      omega
    rw [← hcond, ← hiff, ht]
    constructor
    · rintro ⟨t', heq, h⟩
      obtain rfl := Option.some.inj heq
      exact h
    · exact fun h => ⟨t, rfl, h⟩

/-- The rule for 1.5 s before the second second, and for -200 ms. -/
theorem time_fix_exact_iff_borrow :
    (FixesExactly ⟨2, -1500000000⟩ ↔ CarriesOver ⟨2, -1500000000⟩) ∧
      ((∃ t : Timespec, sancusTimeNewMs (-200) = some t ∧ t.Exact (-200 * 1000000)) ↔
        (-1000 : Int) < -200) :=
  ⟨(time_fix_exact_iff ⟨2, -1500000000⟩ (-200)).1 (by decide) (by decide),
    (time_fix_exact_iff ⟨2, -1500000000⟩ (-200)).2 (by decide)⟩

/-- **A second too much is borrowed.**  Of 1.5 s below zero `sancus_time_fix` makes -2.5 s, and
    of 1000 ms below zero no canonical timespec at all. -/
theorem time_fix_borrows_too_much :
    sancusTimeFix ⟨0, -1500000000⟩ = some (⟨-2, 500000000⟩, -1) ∧
      ¬ FixesExactly ⟨0, -1500000000⟩ ∧
      sancusTimeNewMs (-1000) = some ⟨-2, 1000000000⟩ ∧
      ¬ Timespec.Canonical ⟨-2, 1000000000⟩ := by
  refine ⟨by decide, ?_, by decide, by decide⟩
  rw [fixesExactly_iff (by decide)]
  rintro ⟨_, hvalue⟩
  exact absurd hvalue (by decide)

/-! ### Milliseconds there and back -/

/-- Milliseconds are read back as they were put into a timespec. -/
def RoundTrips (ms : Int) : Prop :=
  ∃ t : Timespec, sancusTimeNewMs ms = some t ∧ sancusTimeTsToMs t = some ms

/-- What is made of whole milliseconds when the seconds are below zero. -/
theorem sancusTimeTsToMs_of_neg {s k r : Int} (hlo : -9223372036854775 < s) (hs : s < 0)
    (hk : 0 ≤ k) (h : sancusTimeTsToMs ⟨s, k * 1000000⟩ = some r) : r = 1000 * s - k := by
  have hmin : LONG_MIN.tdiv 1000 = -9223372036854775 := by decide
  have hmax : LONG_MAX.tdiv 1000 = 9223372036854775 := by decide
  have hhalf : NS_PER_MS.tdiv 2 = 500000 := by decide
  have hms : NS_PER_MS = 1000000 := by decide
  unfold sancusTimeTsToMs nsToMsRounded at h
  rw [hmin, hmax, if_neg (by dsimp only; omega), if_neg (by dsimp only; omega), if_pos hs] at h
  obtain ⟨w, hw, hr⟩ := Option.bind_eq_some_iff.mp (bind_long h)
  have hround := bind_long hw
  rw [hhalf, hms, Int.tdiv_eq_ediv_of_nonneg (by dsimp only; omega)] at hround
  have hwk := Option.some.inj hround
  have hexact := eq_of_long hr
  dsimp only at hwk hexact
  omega

/-- A fraction of a second below zero: the half that is added for rounding is added the wrong
    way, and the division truncates. -/
theorem sancusTimeTsToMs_of_fraction (hneg : ms < 0) (hlo : -1000 < ms) :
    sancusTimeTsToMs ⟨0, ms * 1000000⟩ = some (ms + 1) := by
  have hmin : LONG_MIN.tdiv 1000 = -9223372036854775 := by decide
  have hmax : LONG_MAX.tdiv 1000 = 9223372036854775 := by decide
  have hround : nsToMsRounded (ms * 1000000) = some (ms + 1) := by
    have hhalf : NS_PER_MS.tdiv 2 = 500000 := by decide
    have hms : NS_PER_MS = 1000000 := by decide
    have htrunc : (ms * 1000000 + 500000).tdiv 1000000 = ms + 1 := by
      have h := Int.tdiv_eq_ediv_of_nonneg (b := 1000000)
        (show 0 ≤ -(ms * 1000000 + 500000) by omega)
      rw [Int.neg_tdiv] at h
      omega
    unfold nsToMsRounded
    rw [hhalf, hms, long_bind _ (by omega) (by omega), htrunc]
    rfl
  unfold sancusTimeTsToMs
  dsimp only
  rw [hmin, hmax, if_neg (by decide), if_neg (by decide), if_neg (by decide),
    long_bind _ (by decide) (by decide), hround]
  show long (1000 * 0 + (ms + 1)) = _
  rw [Int.mul_zero, Int.zero_add]
  exact long_eq_some (by omega) (by omega)

/-- Whole seconds below zero are borrowed once too often, and so the milliseconds are not read
    back. -/
theorem not_roundTrips_of_le (hle : ms ≤ -1000) (hmin : LONG_MIN ≤ ms * 1000000) :
    ¬ RoundTrips ms := by
  rintro ⟨t, ht, hback⟩
  rw [LONG_MIN] at hmin
  obtain ⟨_, hexact⟩ := sancusTimeNewMs_exact ht
  have hdiv := tdiv_NSEC_of_neg (n := ms * 1000000) (by omega)
  rw [NSEC_eq] at hdiv
  -- the seconds borrowed, and the milliseconds they leave
  have hfix : t = ⟨-(-ms / 1000 + 1), (ms + 1000 * (-ms / 1000 + 1)) * 1000000⟩ := by
    rw [hexact]
    unfold fixExact
    simp only [NSEC_eq]
    rw [hdiv, if_neg (by omega), if_pos (by omega), Timespec.mk.injEq]
    omega
  rw [hfix] at hback
  have hms := sancusTimeTsToMs_of_neg (by omega) (by omega) (by omega) hback
  omega

/-- **When milliseconds survive.**  For all milliseconds whose nanoseconds fit a `long`, they are
    read back from the timespec made of them exactly when they are not negative. -/
theorem ms_round_trip_iff (ms : Int) (hmin : LONG_MIN ≤ ms * 1000000)
    (hmax : ms * 1000000 ≤ LONG_MAX) : RoundTrips ms ↔ 0 ≤ ms := by
  constructor
  · intro h
    by_contra hneg
    rcases le_or_gt ms (-1000) with hle | hlo
    · exact not_roundTrips_of_le hle hmin h
    · obtain ⟨t, ht, hback⟩ := h
      have hfraction := sancusTimeTsToMs_of_fraction (not_le.mp hneg) hlo
      obtain ⟨_, hexact⟩ := sancusTimeNewMs_exact ht
      have hfix : fixExact ⟨0, ms * 1000000⟩ = ⟨0, ms * 1000000⟩ := by
        unfold fixExact
        dsimp only
        rw [tdiv_NSEC_zero (by rw [NSEC_eq]; omega) (by rw [NSEC_eq]; omega), if_neg (by decide),
          if_neg (by omega)]
      rw [hexact, hfix, hfraction] at hback
      have hms := Option.some.inj hback
      omega
  · intro hms
    exact ⟨_, sancusTimeNewMs_eq hms hmax, sancusTimeTsToMs_ofNs hms hmax⟩

/-- The rule for a quarter of a second below zero. -/
theorem ms_round_trip_iff_quarter : RoundTrips (-250) ↔ (0 : Int) ≤ -250 :=
  ms_round_trip_iff (-250) (by decide) (by decide)

/-- **A millisecond is lost, or a second is gained.**  -1 ms is read back as 0, and -1500 ms as
    -2500. -/
theorem ms_round_trip_fails :
    ¬ RoundTrips (-1) ∧ (∃ t : Timespec, sancusTimeNewMs (-1500) = some t ∧
      sancusTimeTsToMs t = some (-2500)) := by
  refine ⟨?_, ⟨⟨-2, 500000000⟩, by decide, by decide⟩⟩
  rintro ⟨t, ht, hback⟩
  have hnew : sancusTimeNewMs (-1) = some ⟨0, -1000000⟩ := by decide
  obtain rfl := Option.some.inj (hnew.symm.trans ht)
  exact absurd hback (by decide)

end Sancus.Time
