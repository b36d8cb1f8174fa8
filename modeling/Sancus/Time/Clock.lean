import Sancus.Time.Canonical
import Sancus.Time.Compare

namespace Sancus.Time

open CModel

/-!
# Time — the readings of a clock

A clock counts from a time of its own on, so that none of its readings is below zero.  It may be
set back, and so the difference of two readings may be; `sancus_time_sub` then gives a timespec
that is canonical, though it need not be the right one.

* `Reading` — what a clock gives;
* `sancusTimeSub_reading` — no `long` overflows, what is left is canonical, and below zero its
  seconds are `secondsBetween`.
-/

/-- What a clock gives: seconds that are not negative, and less than a second of nanoseconds. -/
structure Reading (t : Timespec) : Prop where
  sec_nonneg : 0 ≤ t.tv_sec
  sec_le : t.tv_sec ≤ LONG_MAX
  nsec_nonneg : 0 ≤ t.tv_nsec
  nsec_lt : t.tv_nsec < NSEC

/-- A canonical timespec that the `long`s of its fields can hold. -/
structure Storable (t : Timespec) : Prop where
  canonical : t.Canonical
  sec_ge : LONG_MIN ≤ t.tv_sec
  sec_le : t.tv_sec ≤ LONG_MAX

/-- The seconds from `b` to `a`, the last of which is given up where nanoseconds have to be
    borrowed. -/
def secondsBetween (a b : Timespec) : Int :=
  a.tv_sec - b.tv_sec + if a.tv_nsec < b.tv_nsec then 1 else 0

variable {a b t : Timespec} {s n : Int}

theorem Reading.storable (h : Reading t) : Storable t :=
  ⟨.inl ⟨h.nsec_nonneg, h.nsec_lt⟩, Int.le_trans (by decide) h.sec_nonneg, h.sec_le⟩

theorem Reading.zero : Reading ⟨0, 0⟩ := ⟨by decide, by decide, by decide, by decide⟩

/-- The same as arithmetic on the fields. -/
theorem storable_mk (hn : (0 ≤ n ∧ n < 1000000000) ∨ (s = 0 ∧ -1000000000 < n ∧ n < 1000000000))
    (hmin : -2 ^ 63 ≤ s) (hmax : s < 2 ^ 63) : Storable ⟨s, n⟩ :=
  ⟨by simpa [Timespec.Canonical] using hn, hmin, Int.le_sub_one_of_lt hmax⟩

/-- `sancus_time_fix` leaves such a one as it is. -/
theorem Storable.fix (h : Storable t) : ∃ ret, sancusTimeFix t = some (t, ret) :=
  ⟨_, sancusTimeFix_canonical h.canonical⟩

/-- It borrows a second from seconds above zero, and leaves a fraction of a second below zero. -/
theorem sancusTimeFix_storable (hlo : -NSEC < n) (hhi : n < NSEC) (hs : 0 ≤ s)
    (hmax : s ≤ LONG_MAX) :
    ∃ r, sancusTimeFix ⟨s, n⟩ = some r ∧ Storable r.1 ∧ 0 ≤ r.1.tv_sec := by
  have hlo' := hlo
  have hhi' := hhi
  have hmax' := hmax
  rw [NSEC_eq] at hlo' hhi'
  rw [LONG_MAX] at hmax'
  by_cases hzero : s = 0
  · have hstorable : Storable ⟨s, n⟩ := storable_mk (by omega) (by omega) (by omega)
    obtain ⟨ret, hret⟩ := hstorable.fix
    exact ⟨_, hret, hstorable, hs⟩
  · have hpos : 0 ≤ s * NSEC + n := by
      rw [NSEC_eq]
      omega
    refine ⟨_, sancusTimeFix_borrow hlo hhi hs hmax hpos, ?_⟩
    simp only [ofNs, NSEC_eq] at hpos ⊢
    exact ⟨storable_mk (by omega) (by omega) (by omega), by omega⟩

/-- The borrow of `time_add` leaves a canonical timespec, in either direction, and seconds below
    zero are a second nearer to it. -/
theorem timeBorrow_storable (hlo : -NSEC < n) (hhi : n < NSEC) (hmin : -LONG_MAX ≤ s)
    (hmax : s ≤ LONG_MAX) :
    ∃ t, timeBorrow ⟨s, n⟩ = some t ∧ Storable t ∧
      ∀ z < 0, (t.tv_sec ≤ z ↔ s + (if n < 0 then 1 else 0) ≤ z) := by
  rw [NSEC_eq] at hlo hhi
  rw [LONG_MAX] at hmin hmax
  unfold timeBorrow
  dsimp only
  by_cases hneg : n < 0
  · rw [if_pos hneg, tdiv_NSEC_zero (by rw [NSEC_eq]; omega) (by rw [NSEC_eq]; omega),
      long_bind _ (by decide) (by decide), secToNs_bind _ (by decide) (by decide),
      long_bind _ (by rw [NSEC_eq]; omega) (by rw [NSEC_eq]; omega), NSEC_eq]
    -- the three relations between the seconds and the borrow
    by_cases hused : s = -(1 - 0)
    · rw [if_pos hused, long_bind _ (by omega) (by omega)]
      refine ⟨_, rfl, storable_mk (by omega) (by omega) (by omega), fun z hz => ?_⟩
      dsimp only
      omega
    rw [if_neg hused]
    split
    · rw [long_bind _ (by omega) (by omega)]
      refine ⟨_, rfl, storable_mk (by omega) (by omega) (by omega), fun z hz => ?_⟩
      dsimp only
      omega
    · rw [long_bind _ (by omega) (by omega)]
      refine ⟨_, rfl, storable_mk (by omega) (by omega) (by omega), fun z hz => ?_⟩
      dsimp only
      omega
  · rw [if_neg hneg]
    refine ⟨_, rfl, storable_mk (by omega) (by omega) (by omega), fun z hz => ?_⟩
    dsimp only
    omega

/-- **The difference of two readings** is defined, and canonical. -/
theorem sancusTimeSub_reading (ha : Reading a) (hb : Reading b) :
    ∃ r, sancusTimeSub a b = some r ∧ Storable r.1 ∧
      ∀ z < 0, (r.1.tv_sec ≤ z ↔ secondsBetween a b ≤ z) := by
  obtain ⟨has, hamax, han, hanlt⟩ := ha
  obtain ⟨hbs, hbmax, hbn, hbnlt⟩ := hb
  have hlo : -NSEC < a.tv_nsec - b.tv_nsec := by omega
  have hhi : a.tv_nsec - b.tv_nsec < NSEC := by omega
  rw [secondsBetween]
  by_cases h0 : b.tv_sec = 0
  · have hneg : sancusTimeNeg b = some ⟨0, -b.tv_nsec⟩ := by
      rw [NSEC_eq] at hbnlt
      rw [sancusTimeNeg, if_pos h0, long_bind _ (by omega) (by omega), h0]
      rfl
    obtain ⟨r, hr, hstorable, hsec⟩ := sancusTimeFix_storable hlo hhi has hamax
    refine ⟨r, ?_, hstorable, fun z hz => by omega⟩
    rw [(sancusTimeSub_of_neg hneg).1, timeAdd_sub_nsec has hamax hlo hhi]
    exact hr
  · have hneg : sancusTimeNeg b = some ⟨-b.tv_sec, b.tv_nsec⟩ := by
      rw [LONG_MAX] at hbmax
      rw [sancusTimeNeg, if_neg h0, long_bind _ (by omega) (by omega)]
      rfl
    obtain ⟨t, ht, hstorable, hsec⟩ :=
      timeBorrow_storable hlo hhi (show -LONG_MAX ≤ a.tv_sec - b.tv_sec by omega) (by omega)
    obtain ⟨ret, hret⟩ := hstorable.fix
    refine ⟨(t, ret), ?_, hstorable, fun z hz => (hsec z hz).trans (by omega)⟩
    rw [(sancusTimeSub_of_neg hneg).1, timeAdd_sub_sec has (by omega) hbmax hamax hlo hhi, ht]
    exact hret

end Sancus.Time
