import Sancus.Time.Canonical
import Sancus.Time.Compare

namespace Sancus.Time

open CModel

/-!
# Time — the sign predicates

The sign of a timespec is read off its fields in several places.  Below zero one of the fields
is negative, and `sancus_time_is_lt_zero` takes either; above zero one of them is positive, and
`sancus_time_is_gt_zero` takes both.

* `sancusTimeIsZero`, `sancusTimeIsLtZero`, `sancusTimeIsGtZero` — the code;
* `SignsAgree` — the predicates, the comparisons with zero, the value of `sancus_time_fix` and
  the negation say the same;
* `signsAgree_iff` — the timespecs on which they do.
-/

/-! ### The code -/

/-- `sancus_time_is_zero`. -/
def sancusTimeIsZero (a : Timespec) : Bool := a.tv_sec == 0 && a.tv_nsec == 0

/-- `sancus_time_is_lt_zero`. -/
def sancusTimeIsLtZero (a : Timespec) : Bool := decide (a.tv_sec < 0) || decide (a.tv_nsec < 0)

/-- `sancus_time_is_gt_zero`, where a timespec above zero need have one of them only. -/
def sancusTimeIsGtZero (a : Timespec) : Bool := decide (0 < a.tv_sec) && decide (0 < a.tv_nsec)

/-! ### What it is to agree -/

/-- One of three holds, and neither of the others. -/
def ExactlyOne (p q r : Bool) : Prop :=
  (p ∧ ¬ q ∧ ¬ r) ∨ (¬ p ∧ q ∧ ¬ r) ∨ (¬ p ∧ ¬ q ∧ r)

instance (p q r : Bool) : Decidable (ExactlyOne p q r) := inferInstanceAs (Decidable (_ ∨ _))

def ZERO : Timespec := ⟨0, 0⟩

/-- The sign predicates agree on `t`. -/
structure SignsAgree (t : Timespec) : Prop where
  one : ExactlyOne (sancusTimeIsLtZero t) (sancusTimeIsZero t) (sancusTimeIsGtZero t)
  /-- For seconds that fit in an `int` they are the comparisons with zero. -/
  compared : INT_MIN ≤ t.tv_sec → t.tv_sec ≤ INT_MAX →
    sancusTimeIsLt t ZERO = some (sancusTimeIsLtZero t) ∧
      sancusTimeIsEq t ZERO = sancusTimeIsZero t ∧
      sancusTimeIsGt t ZERO = some (sancusTimeIsGtZero t)
  /-- They name what `sancus_time_fix` returns. -/
  fixed : ∃ t' ret, sancusTimeFix t = some (t', ret) ∧
    (ret = -1 ↔ sancusTimeIsLtZero t) ∧ (ret = 0 ↔ sancusTimeIsZero t) ∧
      (ret = 1 ↔ sancusTimeIsGtZero t)
  /-- Negation exchanges below and above zero. -/
  negated : ∃ t', sancusTimeNeg t = some t' ∧
    sancusTimeIsLtZero t' = sancusTimeIsGtZero t ∧ sancusTimeIsGtZero t' = sancusTimeIsLtZero t

variable {t : Timespec}

/-! ### The predicates on canonical timespecs -/

theorem isZero_iff : sancusTimeIsZero t ↔ t.tv_sec = 0 ∧ t.tv_nsec = 0 := by
  simp [sancusTimeIsZero]

theorem isLtZero_iff : sancusTimeIsLtZero t ↔ t.tv_sec < 0 ∨ t.tv_nsec < 0 := by
  simp [sancusTimeIsLtZero]

theorem isGtZero_iff : sancusTimeIsGtZero t ↔ 0 < t.tv_sec ∧ 0 < t.tv_nsec := by
  simp [sancusTimeIsGtZero]

/-- The sign of the value, in the fields. -/
theorem Timespec.Canonical.value_sign (ht : t.Canonical) :
    (t.value < 0 ↔ t.tv_sec < 0 ∨ t.tv_nsec < 0) ∧
      (t.value = 0 ↔ t.tv_sec = 0 ∧ t.tv_nsec = 0) := by
  have hb := ht.value_bounds
  have hn := ht.nonneg
  rw [NSEC_eq] at hb
  rcases lt_trichotomy t.tv_sec 0 with hs | hs | hs
  · omega
  · rw [Timespec.value_of_nonneg (by omega), hs]
    omega
  · omega

/-- Below zero one of the fields is negative. -/
theorem isLtZero_iff_value (ht : t.Canonical) : sancusTimeIsLtZero t ↔ t.value < 0 := by
  rw [isLtZero_iff, ht.value_sign.1]

/-- At zero both are. -/
theorem isZero_iff_value (ht : t.Canonical) : sancusTimeIsZero t ↔ t.value = 0 := by
  rw [isZero_iff, ht.value_sign.2]

/-- Above zero the predicate holds if none of them is zero. -/
theorem isGtZero_iff_value (ht : t.Canonical) :
    (sancusTimeIsGtZero t ↔ 0 < t.value) ↔ t.value ≤ 0 ∨ (t.tv_sec ≠ 0 ∧ t.tv_nsec ≠ 0) := by
  have hsign := ht.value_sign
  have hn := ht.nonneg
  rw [isGtZero_iff]
  omega

/-- It is right on a timespec. -/
def GtZeroRight (t : Timespec) : Prop := sancusTimeIsGtZero t ↔ 0 < t.value

/-! ### What the others say -/

/-- A timespec is negated unless its seconds are the one number that has no opposite. -/
theorem sancusTimeNeg_eq_some (ht : t.Canonical) (hmin : LONG_MIN ≤ t.tv_sec)
    (hmax : t.tv_sec ≤ LONG_MAX) (hsec : t.tv_sec ≠ LONG_MIN) :
    sancusTimeNeg t = some (negExact t) := by
  have hb := ht.bounds
  rw [NSEC_eq] at hb
  rw [LONG_MIN] at hmin hsec
  rw [LONG_MAX] at hmax
  unfold sancusTimeNeg negExact
  split
  · rw [long_bind _ (by omega) (by omega)]
    rfl
  · rw [long_bind _ (by omega) (by omega)]
    rfl

theorem sancusTimeNeg_eq_none (hsec : t.tv_sec = LONG_MIN) : sancusTimeNeg t = none := by
  have hover : long (-LONG_MIN) = none := by decide
  unfold sancusTimeNeg
  rw [hsec, hover, if_neg (by decide)]
  rfl

/-- The fields that are zero stay so. -/
theorem negExact_ne_zero :
    ((negExact t).tv_sec ≠ 0 ∧ (negExact t).tv_nsec ≠ 0) ↔ t.tv_sec ≠ 0 ∧ t.tv_nsec ≠ 0 := by
  unfold negExact
  split <;> simp_all

/-- The comparisons with zero are those of the value. -/
theorem orders_zero (ht : t.Canonical) (hmin : INT_MIN ≤ t.tv_sec) (hmax : t.tv_sec ≤ INT_MAX) :
    Orders t ZERO := by
  rw [INT_MIN] at hmin
  rw [INT_MAX] at hmax
  have hlong : long (t.tv_sec - 0) = some t.tv_sec := by
    rw [Int.sub_zero]
    exact long_eq_some (by omega) (by omega)
  apply (orders_iff ht (by decide) (Option.isSome_of_eq_some hlong)).mpr
  show KeepsSign (t.tv_sec - 0)
  rw [Int.sub_zero, KeepsSign]
  omega

/-- Where the predicate is right, exactly one of the three holds. -/
theorem GtZeroRight.exactlyOne (ht : t.Canonical) (h : GtZeroRight t) :
    ExactlyOne (sancusTimeIsLtZero t) (sancusTimeIsZero t) (sancusTimeIsGtZero t) := by
  rw [GtZeroRight] at h
  rw [ExactlyOne, isLtZero_iff_value ht, isZero_iff_value ht, h]
  omega

/-- And it is what a comparison with zero gives. -/
theorem GtZeroRight.compared (ht : t.Canonical) (h : GtZeroRight t) (hmin : INT_MIN ≤ t.tv_sec)
    (hmax : t.tv_sec ≤ INT_MAX) :
    sancusTimeIsLt t ZERO = some (sancusTimeIsLtZero t) ∧
      sancusTimeIsEq t ZERO = sancusTimeIsZero t ∧
      sancusTimeIsGt t ZERO = some (sancusTimeIsGtZero t) := by
  have horders := orders_zero ht hmin hmax
  have hzero : ZERO.value = 0 := by decide
  rw [GtZeroRight] at h
  rw [horders.lt, horders.gt, horders.eq, hzero]
  refine ⟨?_, ?_, ?_⟩
  · rw [Option.some.injEq, Bool.eq_iff_iff, decide_eq_true_iff, isLtZero_iff_value ht]
  · rw [Bool.eq_iff_iff, decide_eq_true_iff, isZero_iff_value ht]
  · rw [Option.some.injEq, Bool.eq_iff_iff, decide_eq_true_iff, h]

/-- And what `sancus_time_fix` returns. -/
theorem GtZeroRight.fixed (ht : t.Canonical) (h : GtZeroRight t) :
    ∃ t' ret, sancusTimeFix t = some (t', ret) ∧ (ret = -1 ↔ sancusTimeIsLtZero t) ∧
      (ret = 0 ↔ sancusTimeIsZero t) ∧ (ret = 1 ↔ sancusTimeIsGtZero t) := by
  refine ⟨_, _, sancusTimeFix_canonical ht, ?_⟩
  rw [GtZeroRight] at h
  rw [signum_of_canonical ht, isLtZero_iff_value ht, isZero_iff_value ht, h]
  exact ⟨Int.sign_eq_neg_one_iff_neg, Int.sign_eq_zero_iff_zero, Int.sign_eq_one_iff_pos⟩

/-- Negation exchanges the two predicates where the one is right on both sides. -/
theorem negated_iff (ht : t.Canonical) :
    (sancusTimeIsLtZero (negExact t) = sancusTimeIsGtZero t ∧
      sancusTimeIsGtZero (negExact t) = sancusTimeIsLtZero t) ↔
      GtZeroRight t ∧ GtZeroRight (negExact t) := by
  obtain ⟨hneg, hvalue⟩ := negExact_exact ht
  have hlt : -t.value < 0 ↔ 0 < t.value := by omega
  have hgt : 0 < -t.value ↔ t.value < 0 := by omega
  rw [Bool.eq_iff_iff, Bool.eq_iff_iff (b := sancusTimeIsLtZero t), isLtZero_iff_value ht,
    isLtZero_iff_value hneg, GtZeroRight, GtZeroRight, hvalue, hlt, hgt]
  exact and_congr_left' Iff.comm

/-! ### When they agree -/

/-- **When the sign predicates agree.**  For every canonical timespec: exactly if it is zero, or
    if neither of its fields is, and its seconds can be negated. -/
theorem signsAgree_iff (t : Timespec) (ht : t.Canonical) (hmin : LONG_MIN ≤ t.tv_sec)
    (hmax : t.tv_sec ≤ LONG_MAX) :
    SignsAgree t ↔
      t = ⟨0, 0⟩ ∨ (t.tv_sec ≠ 0 ∧ t.tv_nsec ≠ 0 ∧ t.tv_sec ≠ LONG_MIN) := by
  obtain ⟨hneg, hvalue⟩ := negExact_exact ht
  -- the predicate has to be right on the timespec and on its opposite
  have hright : GtZeroRight t ∧ GtZeroRight (negExact t) ↔
      t.value = 0 ∨ (t.tv_sec ≠ 0 ∧ t.tv_nsec ≠ 0) := by
    rw [GtZeroRight, GtZeroRight, isGtZero_iff_value ht, isGtZero_iff_value hneg, negExact_ne_zero,
      hvalue]
    omega
  have hzero : t.value = 0 ↔ t = ⟨0, 0⟩ := by
    rw [← isZero_iff_value ht, isZero_iff, Timespec.mk.injEq]
  by_cases hsec : t.tv_sec = LONG_MIN
  · have hnot : t ≠ ⟨0, 0⟩ := by
      rintro rfl
      exact absurd hsec (by decide)
    constructor
    · rintro ⟨_, _, _, t', ht', _⟩
      rw [sancusTimeNeg_eq_none hsec] at ht'
      cases ht'
    · rintro (h | ⟨_, _, h⟩)
      · exact absurd h hnot
      · exact absurd hsec h
  · have hnegate := sancusTimeNeg_eq_some ht hmin hmax hsec
    have hcond : (t = ⟨0, 0⟩ ∨ (t.tv_sec ≠ 0 ∧ t.tv_nsec ≠ 0 ∧ t.tv_sec ≠ LONG_MIN)) ↔
        GtZeroRight t ∧ GtZeroRight (negExact t) := by
      rw [hright, hzero]
      simp [hsec]
    rw [hcond, ← negated_iff ht]
    constructor
    · rintro ⟨_, _, _, t', ht', hexchanged⟩
      rw [hnegate] at ht'
      rwa [Option.some.inj ht']
    · intro hexchanged
      have hgt := ((negated_iff ht).mp hexchanged).1
      exact ⟨hgt.exactlyOne ht, hgt.compared ht, hgt.fixed ht, ⟨_, hnegate, hexchanged⟩⟩

/-- The rule at half a second below the first second below zero. -/
theorem signsAgree_iff_below :
    SignsAgree ⟨-1, 500000000⟩ ↔
      (⟨-1, 500000000⟩ : Timespec) = ⟨0, 0⟩ ∨
        ((-1 : Int) ≠ 0 ∧ (500000000 : Int) ≠ 0 ∧ (-1 : Int) ≠ LONG_MIN) :=
  signsAgree_iff ⟨-1, 500000000⟩ (by decide) (by decide) (by decide)

/-- **A second has no sign.**  A whole second above zero is none of the three, and neither is half
    a second. -/
theorem second_has_no_sign :
    ¬ SignsAgree ⟨1, 0⟩ ∧
      ¬ ExactlyOne (sancusTimeIsLtZero ⟨0, 500000000⟩) (sancusTimeIsZero ⟨0, 500000000⟩)
        (sancusTimeIsGtZero ⟨0, 500000000⟩) := by
  refine ⟨?_, by decide⟩
  intro h
  exact absurd h.one (by decide)

end Sancus.Time
