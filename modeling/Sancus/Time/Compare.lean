import Sancus.Time.Deadline
import Mathlib.Data.Set.Basic

namespace Sancus.Time

open CModel

/-!
# Time — the order of times, and what lies between two of them

`sancus_time_cmp` takes the seconds as `long`s, subtracts them and casts the difference to the
`int` it returns.  Where the cast keeps the sign, the comparisons are those of the values, and
what has elapsed or is left is exact.

* `sancusTimeIsEq`, `sancusTimeIsLt` — the code, next to `sancusTimeCmp` and `sancusTimeIsGt`;
* `KeepsSign` — the differences of seconds that have the same sign as an `int`;
* `time_order_iff` — the times that are ordered rightly are those;
* `time_between_exact` — the time elapsed and the time left.
-/

/-! ### The code -/

/-- `sancus_time_is_eq`. -/
def sancusTimeIsEq (a b : Timespec) : Bool := a.tv_sec == b.tv_sec && a.tv_nsec == b.tv_nsec

/-- `sancus_time_is_lt`. -/
def sancusTimeIsLt (a b : Timespec) : Option Bool := do
  let ret ← sancusTimeCmp a b
  pure (decide (ret < 0))

/-! ### What an order is -/

/-- The comparisons of two timespecs are those of their values. -/
structure Orders (a b : Timespec) : Prop where
  cmp : ∃ ret, sancusTimeCmp a b = some ret ∧ ret.sign = (a.value - b.value).sign
  lt : sancusTimeIsLt a b = some (decide (a.value < b.value))
  gt : sancusTimeIsGt a b = some (decide (b.value < a.value))
  eq : sancusTimeIsEq a b = decide (a.value = b.value)

/-- On these timespecs the comparisons are a strict total order. -/
structure StrictTotalOn (S : Set Timespec) : Prop where
  irrefl : ∀ a ∈ S, sancusTimeIsLt a a = some false ∧ sancusTimeIsGt a a = some false
  lt_trans : ∀ a ∈ S, ∀ b ∈ S, ∀ c ∈ S, sancusTimeIsLt a b = some true →
    sancusTimeIsLt b c = some true → sancusTimeIsLt a c = some true
  gt_trans : ∀ a ∈ S, ∀ b ∈ S, ∀ c ∈ S, sancusTimeIsGt a b = some true →
    sancusTimeIsGt b c = some true → sancusTimeIsGt a c = some true
  /-- Exactly one of the three holds. -/
  total : ∀ a ∈ S, ∀ b ∈ S, ∃ lt gt, sancusTimeIsLt a b = some lt ∧ sancusTimeIsGt a b = some gt ∧
    ((lt = true ∧ sancusTimeIsEq a b = false ∧ gt = false) ∨
      (lt = false ∧ sancusTimeIsEq a b = true ∧ gt = false) ∨
      (lt = false ∧ sancusTimeIsEq a b = false ∧ gt = true))

/-- The low 32 bits of `d`, as an `int`, have the sign of `d`. -/
def KeepsSign (d : Int) : Prop :=
  d = 0 ∨ (0 < d ∧ 0 < d % 2 ^ 32 ∧ d % 2 ^ 32 < 2 ^ 31) ∨ (d < 0 ∧ 2 ^ 31 ≤ d % 2 ^ 32)

instance (d : Int) : Decidable (KeepsSign d) := inferInstanceAs (Decidable (_ ∨ _))

variable {a b : Timespec}

/-! ### The comparison -/

/-- The cast to `int` keeps a sign under the condition only. -/
theorem sign_intToInt32_iff {d : Int} : (intToInt32 d).sign = d.sign ↔ KeepsSign d := by
  have hcast : intToInt32 d = if d % 2 ^ 32 < 2 ^ 31 then d % 2 ^ 32 else d % 2 ^ 32 - 2 ^ 32 := by
    rw [intToInt32, intToUnsigned, toInt32]
    split <;> split <;> omega
  rw [hcast, KeepsSign]
  rcases lt_trichotomy d 0 with hd | rfl | hd
  · rw [Int.sign_eq_neg_one_of_neg hd, Int.sign_eq_neg_one_iff_neg]
    split <;> omega
  · simp
  · rw [Int.sign_eq_one_of_pos hd, Int.sign_eq_one_iff_pos]
    split <;> omega

/-- Times in the same second are told apart by the nanoseconds between them. -/
theorem value_sub_of_sec_eq (hsec : a.tv_sec = b.tv_sec) :
    a.value - b.value =
      if a.tv_sec < 0 then b.tv_nsec - a.tv_nsec else a.tv_nsec - b.tv_nsec := by
  split
  · next hneg =>
    rw [Timespec.value_of_neg hneg, Timespec.value_of_neg (by omega), hsec]
    omega
  · next hpos =>
    rw [Timespec.value_of_nonneg (by omega), Timespec.value_of_nonneg (by omega), hsec]
    omega

/-- The nanoseconds a canonical timespec is away from its whole seconds. -/
theorem Timespec.Canonical.value_bounds (h : a.Canonical) :
    (a.tv_sec < 0 → a.tv_sec * NSEC - NSEC < a.value ∧ a.value ≤ a.tv_sec * NSEC) ∧
      (a.tv_sec = 0 → -NSEC < a.value ∧ a.value < NSEC) ∧
      (0 < a.tv_sec → a.tv_sec * NSEC ≤ a.value ∧ a.value < a.tv_sec * NSEC + NSEC) := by
  have hb := h.bounds
  have hn := h.nonneg
  rw [NSEC_eq] at *
  refine ⟨?_, ?_, ?_⟩
  · intro hs
    rw [Timespec.value_of_neg hs, NSEC_eq]
    omega
  · intro hs
    rw [Timespec.value_of_nonneg (by omega), NSEC_eq]
    omega
  · intro hs
    rw [Timespec.value_of_nonneg (by omega), NSEC_eq]
    omega

/-- Times in different seconds are told apart by these. -/
theorem value_lt_of_sec_lt (ha : a.Canonical) (hb : b.Canonical) (h : a.tv_sec < b.tv_sec) :
    a.value < b.value := by
  have ha := ha.value_bounds
  have hb := hb.value_bounds
  rw [NSEC_eq] at *
  omega

/-- What is returned: the nanoseconds between the times if they are in the same second, and else
    the seconds, cast to `int`. -/
theorem sancusTimeCmp_eq (ha : a.Canonical) (hb : b.Canonical)
    (hlong : (long (a.tv_sec - b.tv_sec)).isSome) :
    sancusTimeCmp a b = some (if a.tv_sec = b.tv_sec then a.value - b.value
      else intToInt32 (a.tv_sec - b.tv_sec)) := by
  obtain ⟨d, hd⟩ := Option.isSome_iff_exists.mp hlong
  have hexact := eq_of_long hd
  have hna := ha.bounds
  have hnb := hb.bounds
  rw [NSEC_eq] at hna hnb
  unfold sancusTimeCmp
  rw [hd]
  show (if d = 0 then _ else _) = _
  by_cases hsec : a.tv_sec = b.tv_sec
  · rw [if_pos hsec, if_pos (by omega), value_sub_of_sec_eq hsec]
    by_cases hneg : a.tv_sec < 0
    · rw [if_pos hneg, if_pos hneg, long_bind _ (by omega) (by omega),
        intToInt32_of_le (by omega) (by omega)]
      rfl
    · rw [if_neg hneg, if_neg hneg, long_bind _ (by omega) (by omega),
        intToInt32_of_le (by omega) (by omega)]
      rfl
  · rw [if_neg hsec, if_neg (by omega), hexact]
    rfl

/-- Its sign is right under the condition only. -/
theorem sign_cmp_iff (ha : a.Canonical) (hb : b.Canonical)
    (hlong : (long (a.tv_sec - b.tv_sec)).isSome) :
    (∃ ret, sancusTimeCmp a b = some ret ∧ ret.sign = (a.value - b.value).sign) ↔
      KeepsSign (a.tv_sec - b.tv_sec) := by
  have hcmp := sancusTimeCmp_eq ha hb hlong
  by_cases hsec : a.tv_sec = b.tv_sec
  · rw [if_pos hsec] at hcmp
    exact ⟨fun _ => .inl (by omega), fun _ => ⟨_, hcmp, rfl⟩⟩
  · rw [if_neg hsec] at hcmp
    have hsign : (a.value - b.value).sign = (a.tv_sec - b.tv_sec).sign := by
      rcases lt_or_gt_of_ne hsec with hlt | hgt
      · have hvalue := value_lt_of_sec_lt ha hb hlt
        rw [Int.sign_eq_neg_one_of_neg (by omega), Int.sign_eq_neg_one_of_neg (by omega)]
      · have hvalue := value_lt_of_sec_lt hb ha hgt
        rw [Int.sign_eq_one_of_pos (by omega), Int.sign_eq_one_of_pos (by omega)]
    rw [hsign, ← sign_intToInt32_iff]
    constructor
    · rintro ⟨ret, hret, h⟩
      rwa [← Option.some.inj (hcmp.symm.trans hret)] at h
    · exact fun h => ⟨_, hcmp, h⟩

/-- Canonical timespecs of the same value are the same. -/
theorem sancusTimeIsEq_eq (ha : a.Canonical) (hb : b.Canonical) :
    sancusTimeIsEq a b = decide (a.value = b.value) := by
  rw [sancusTimeIsEq, Bool.eq_iff_iff, Bool.and_eq_true, beq_iff_eq, beq_iff_eq, decide_eq_true_iff]
  rcases lt_trichotomy a.tv_sec b.tv_sec with hlt | hsec | hgt
  · have hvalue := value_lt_of_sec_lt ha hb hlt
    omega
  · have hvalue := value_sub_of_sec_eq hsec
    split at hvalue <;> omega
  · have hvalue := value_lt_of_sec_lt hb ha hgt
    omega

/-- The other comparisons read the sign. -/
theorem orders_of_cmp (ha : a.Canonical) (hb : b.Canonical)
    (h : ∃ ret, sancusTimeCmp a b = some ret ∧ ret.sign = (a.value - b.value).sign) :
    Orders a b := by
  obtain ⟨ret, hret, hsign⟩ := h
  refine ⟨⟨ret, hret, hsign⟩, ?_, ?_, sancusTimeIsEq_eq ha hb⟩
  · have hlt : ret < 0 ↔ a.value < b.value := by
      rw [← Int.sign_eq_neg_one_iff_neg, hsign, Int.sign_eq_neg_one_iff_neg, sub_neg]
    unfold sancusTimeIsLt
    rw [hret, ← decide_eq_decide.mpr hlt]
    rfl
  · have hgt : 0 < ret ↔ b.value < a.value := by
      rw [← Int.sign_eq_one_iff_pos, hsign, Int.sign_eq_one_iff_pos, Int.sub_pos]
    unfold sancusTimeIsGt
    rw [hret, ← decide_eq_decide.mpr hgt]
    rfl

theorem orders_iff (ha : a.Canonical) (hb : b.Canonical)
    (hlong : (long (a.tv_sec - b.tv_sec)).isSome) :
    Orders a b ↔ KeepsSign (a.tv_sec - b.tv_sec) := by
  rw [← sign_cmp_iff ha hb hlong]
  exact ⟨Orders.cmp, orders_of_cmp ha hb⟩

/-- Where the comparisons are those of the values, they are a strict total order. -/
theorem strictTotalOn_of_orders {S : Set Timespec} (h : ∀ a ∈ S, ∀ b ∈ S, Orders a b) :
    StrictTotalOn S where
  irrefl a ha := by
    rw [(h a ha a ha).lt, (h a ha a ha).gt]
    simp
  lt_trans a ha b hb c hc := by
    rw [(h a ha b hb).lt, (h b hb c hc).lt, (h a ha c hc).lt]
    simp only [Option.some.injEq, decide_eq_true_eq]
    exact lt_trans
  gt_trans a ha b hb c hc := by
    rw [(h a ha b hb).gt, (h b hb c hc).gt, (h a ha c hc).gt]
    simp only [Option.some.injEq, decide_eq_true_eq]
    exact gt_trans
  total a ha b hb := by
    refine ⟨_, _, (h a ha b hb).lt, (h a ha b hb).gt, ?_⟩
    rw [(h a ha b hb).eq]
    simp only [decide_eq_true_eq, decide_eq_false_iff_not]
    omega

/-- **When times are ordered.**  For all canonical timespecs whose seconds differ by what a
    `long` can hold, the comparisons are those of their values exactly when the difference has the
    same sign as an `int`; and they are a strict total order on every set of timespecs that all
    differ by such. -/
theorem time_order_iff (a b : Timespec) (S : Set Timespec) :
    (a.Canonical → b.Canonical → (long (a.tv_sec - b.tv_sec)).isSome →
      (Orders a b ↔ KeepsSign (a.tv_sec - b.tv_sec))) ∧
    ((∀ a ∈ S, a.Canonical) →
      (∀ a ∈ S, ∀ b ∈ S, (long (a.tv_sec - b.tv_sec)).isSome ∧ KeepsSign (a.tv_sec - b.tv_sec)) →
      StrictTotalOn S) := by
  refine ⟨orders_iff, ?_⟩
  intro hcan hdiff
  apply strictTotalOn_of_orders
  intro a ha b hb
  exact (orders_iff (hcan a ha) (hcan b hb) (hdiff a ha b hb).1).mpr (hdiff a ha b hb).2

/-- The rule for times 2^31 seconds apart, and for four times on both sides of zero. -/
theorem time_order_iff_examples :
    (Orders ⟨2147483648, 0⟩ ⟨0, 5⟩ ↔ KeepsSign 2147483648) ∧
      StrictTotalOn {⟨-1, 500000000⟩, ⟨0, 0⟩, ⟨0, 5⟩, ⟨2147483646, 999999999⟩} := by
  have hrule := time_order_iff ⟨2147483648, 0⟩ ⟨0, 5⟩
    {⟨-1, 500000000⟩, ⟨0, 0⟩, ⟨0, 5⟩, ⟨2147483646, 999999999⟩}
  refine ⟨hrule.1 (by decide) (by decide) (by decide), hrule.2 ?_ ?_⟩
  · rintro a (rfl | rfl | rfl | rfl) <;> decide
  · rintro a (rfl | rfl | rfl | rfl) b (rfl | rfl | rfl | rfl) <;> decide

/-- **The cast loses the order.**  Times 2^32 seconds apart compare as equal, and the earlier of
    two times 2^31 seconds apart as the later one. -/
theorem time_cmp_wraps :
    sancusTimeCmp ⟨4294967296, 0⟩ ⟨0, 0⟩ = some 0 ∧ ¬ Orders ⟨4294967296, 0⟩ ⟨0, 0⟩ ∧
      sancusTimeIsLt ⟨2147483648, 0⟩ ⟨0, 0⟩ = some true := by
  refine ⟨by decide, ?_, by decide⟩
  intro h
  exact absurd h.gt (by decide)

/-! ### What lies between two times -/

/-- `sancus_time_left` gives the nanoseconds up to a time that is to come, and none else. -/
theorem sancusTimeLeft_exact (ha : a.Canonical) (hb : b.Canonical) (hapos : 0 ≤ a.value)
    (hbpos : 0 ≤ b.value) (hmax : b.tv_sec ≤ LONG_MAX)
    (hlo : -(INT_MAX + 1) ≤ b.tv_sec - a.tv_sec) (hhi : b.tv_sec - a.tv_sec ≤ INT_MAX) :
    ∃ t : Timespec, sancusTimeLeft a b = some t ∧ t.Exact (max 0 (b.value - a.value)) := by
  -- everything is arithmetic on the nanoseconds
  have hau := eq_ofNs ha hapos
  have hbv := eq_ofNs hb hbpos
  generalize a.value = u at *
  generalize b.value = v at *
  subst hau hbv
  rcases le_or_gt u v with hle | hgt
  · rw [max_eq_right (by omega)]
    exact ⟨_, sancusTimeLeft_ofNs hapos hle hmax hhi, ofNs_exact (by omega)⟩
  · have hisgt := sancusTimeIsGt_ofNs hbpos hapos hlo hhi
    rw [max_eq_left (by omega)]
    refine ⟨⟨0, 0⟩, ?_, by decide, rfl⟩
    unfold sancusTimeLeft
    rw [hisgt, decide_eq_false (by omega)]
    rfl

/-- **Elapsed and remaining time are exact.**  For all canonical times that are not negative:
    what has elapsed is the canonical timespec of the nanoseconds between them, and of none where
    there are none; and so is what is left.  For each the seconds need only differ by what the
    `int` of its comparison can hold. -/
theorem time_between_exact (now other : Timespec) (hnow : now.Canonical) (hother : other.Canonical)
    (hnowpos : 0 ≤ now.value) (hotherpos : 0 ≤ other.value) (hnowmax : now.tv_sec ≤ LONG_MAX)
    (hothermax : other.tv_sec ≤ LONG_MAX) :
    (-(INT_MAX + 1) ≤ now.tv_sec - other.tv_sec → now.tv_sec - other.tv_sec ≤ INT_MAX →
      ∃ t : Timespec, sancusTimeElapsed now other = some t ∧
        t.Exact (max 0 (now.value - other.value))) ∧
    (-(INT_MAX + 1) ≤ other.tv_sec - now.tv_sec → other.tv_sec - now.tv_sec ≤ INT_MAX →
      ∃ t : Timespec, sancusTimeLeft now other = some t ∧
        t.Exact (max 0 (other.value - now.value))) := by
  refine ⟨?_, ?_⟩
  · -- the same function with its arguments the other way round
    exact sancusTimeLeft_exact hother hnow hotherpos hnowpos hnowmax
  · exact sancusTimeLeft_exact hnow hother hnowpos hotherpos hothermax

/-- Half a second after the first, 2^31 - 1 seconds apart. -/
theorem time_between_exact_far :
    (-(INT_MAX + 1) ≤ 2147483647 - 0 → 2147483647 - 0 ≤ INT_MAX →
      ∃ t : Timespec, sancusTimeElapsed ⟨2147483647, 500000000⟩ ⟨0, 900000000⟩ = some t ∧
        t.Exact (max 0 (Timespec.value ⟨2147483647, 500000000⟩ -
          Timespec.value ⟨0, 900000000⟩))) ∧
    (-(INT_MAX + 1) ≤ 0 - 2147483647 → 0 - 2147483647 ≤ INT_MAX →
      ∃ t : Timespec, sancusTimeLeft ⟨2147483647, 500000000⟩ ⟨0, 900000000⟩ = some t ∧
        t.Exact (max 0 (Timespec.value ⟨0, 900000000⟩ -
          Timespec.value ⟨2147483647, 500000000⟩))) :=
  time_between_exact ⟨2147483647, 500000000⟩ ⟨0, 900000000⟩ (by decide) (by decide) (by decide)
    (by decide) (by decide) (by decide)

end Sancus.Time
