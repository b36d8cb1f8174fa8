import Sancus.Time.Timespec

namespace Sancus.Time

open CModel

/-!
# Time — when addition and subtraction are exact

A canonical timespec stands for a signed number of nanoseconds, below zero seconds in
sign-magnitude form.  `time_add` adds the fields and repairs the result by a borrow and
by `sancus_time_fix`; it leaves the canonical timespec of the sum only where the repair
carries in the right direction.

* `fixExact_of_lt` / `borrowExact_of_lt` — the repairs in closed form, on the nanosecond
  fields two canonical operands can give;
* `CarriesRight` — the relation between the operands under which they are right;
* `addExact_exact_iff` — the sum is exact under it and under no other condition.
-/

/-! ### The meaning of a timespec -/

/-- The canonical form. -/
def Timespec.Canonical (t : Timespec) : Prop :=
  (0 ≤ t.tv_nsec ∧ t.tv_nsec < NSEC) ∨ (t.tv_sec = 0 ∧ -NSEC < t.tv_nsec ∧ t.tv_nsec < NSEC)

instance (t : Timespec) : Decidable t.Canonical := inferInstanceAs (Decidable (_ ∨ _))

/-- The nanoseconds a timespec stands for: below zero seconds they count downwards. -/
def Timespec.value (t : Timespec) : Int :=
  if 0 ≤ t.tv_sec then t.tv_sec * NSEC + t.tv_nsec else t.tv_sec * NSEC - t.tv_nsec

/-- `t` is the canonical timespec of `v` nanoseconds. -/
def Timespec.Exact (t : Timespec) (v : Int) : Prop := t.Canonical ∧ t.value = v

@[simp] theorem NSEC_eq : NSEC = 1000000000 := by decide

variable {a b t : Timespec} {s n v : Int}

theorem Timespec.value_of_nonneg (h : 0 ≤ t.tv_sec) : t.value = t.tv_sec * NSEC + t.tv_nsec :=
  if_pos h

theorem Timespec.value_of_neg (h : t.tv_sec < 0) : t.value = t.tv_sec * NSEC - t.tv_nsec :=
  if_neg (by omega)

theorem Timespec.Canonical.bounds (h : t.Canonical) : -NSEC < t.tv_nsec ∧ t.tv_nsec < NSEC := by
  rw [Timespec.Canonical] at h
  simp only [NSEC_eq] at h ⊢
  omega

theorem Timespec.Canonical.nonneg (h : t.Canonical) (hs : t.tv_sec ≠ 0) : 0 ≤ t.tv_nsec := by
  rw [Timespec.Canonical] at h
  omega

/-- When `⟨s, n⟩` is the canonical timespec of `v`, as a statement of arithmetic. -/
theorem exact_mk_iff :
    (Timespec.mk s n).Exact v ↔
      ((0 ≤ n ∧ n < NSEC) ∨ (s = 0 ∧ -NSEC < n ∧ n < NSEC)) ∧
        ((0 ≤ s ∧ s * NSEC + n = v) ∨ (s < 0 ∧ s * NSEC - n = v)) := by
  rw [Timespec.Exact, Timespec.Canonical]
  rcases lt_or_ge s 0 with hs | hs
  · rw [Timespec.value_of_neg (t := ⟨s, n⟩) hs]
    dsimp only
    omega
  · rw [Timespec.value_of_nonneg (t := ⟨s, n⟩) hs]
    dsimp only
    omega

/-- On a canonical timespec the returned sign is that of its value. -/
theorem signum_of_canonical (h : t.Canonical) : t.signum = t.value.sign := by
  have hb := h.bounds
  simp only [NSEC_eq] at hb
  unfold Timespec.signum
  rcases lt_trichotomy t.tv_sec 0 with hs | hs | hs
  · have hn := h.nonneg (by omega)
    rw [if_pos (.inl hs), Timespec.value_of_neg hs, NSEC_eq, Int.sign_eq_neg_one_of_neg (by omega)]
  · rw [Timespec.value_of_nonneg (by omega), hs, Int.zero_mul, Int.zero_add]
    rcases lt_trichotomy t.tv_nsec 0 with hn | hn | hn
    · rw [if_pos (.inr hn), Int.sign_eq_neg_one_of_neg hn]
    · rw [if_neg (by omega), if_pos ⟨rfl, hn⟩, hn, Int.sign_zero]
    · rw [if_neg (by omega), if_neg (by omega), Int.sign_eq_one_of_pos hn]
  · have hn := h.nonneg (by omega)
    rw [if_neg (by omega), if_neg (by omega), Timespec.value_of_nonneg (by omega), NSEC_eq,
      Int.sign_eq_one_of_pos (by omega)]

/-! ### The repairs in closed form -/

/-- Less than a second's worth of nanoseconds carries nothing. -/
theorem tdiv_NSEC_zero (hlo : -NSEC < n) (hhi : n < NSEC) : n.tdiv NSEC = 0 := by
  rcases Int.le_total 0 n with hn | hn
  · exact Int.tdiv_eq_zero_of_lt hn hhi
  · have h := Int.tdiv_eq_zero_of_lt (by omega : 0 ≤ -n) (by omega : -n < NSEC)
    rw [Int.neg_tdiv] at h
    omega

/-- One second's worth. -/
theorem tdiv_NSEC_one (hlo : NSEC ≤ n) (hhi : n < 2 * NSEC) : n.tdiv NSEC = 1 := by
  rw [NSEC_eq] at *
  rw [Int.tdiv_eq_ediv_of_nonneg (by omega)]
  omega

/-- One second's worth below zero: the division truncates towards zero. -/
theorem tdiv_NSEC_neg_one (hlo : -(2 * NSEC) < n) (hhi : n ≤ -NSEC) : n.tdiv NSEC = -1 := by
  have h := tdiv_NSEC_one (n := -n) (by omega) (by omega)
  rw [Int.neg_tdiv] at h
  omega

/-- `sancus_time_fix` on less than two seconds' worth of nanoseconds. -/
theorem fixExact_of_lt (hlo : -(2 * NSEC) < n) (hhi : n < 2 * NSEC) :
    fixExact ⟨s, n⟩ =
      if NSEC ≤ n then ⟨s + 1, n - NSEC⟩
      else if 0 ≤ n then ⟨s, n⟩
      else if -NSEC < n then (if s = 0 then ⟨s, n⟩ else ⟨s - 1, n + NSEC⟩)
      else ⟨s - 2, n + 2 * NSEC⟩ := by
  have hpos : 0 < NSEC := by decide
  unfold fixExact
  dsimp only
  by_cases h1 : NSEC ≤ n
  · rw [if_pos h1, tdiv_NSEC_one h1 hhi, if_pos (by decide), Int.mul_one]
  rw [if_neg h1]
  by_cases h2 : 0 ≤ n
  · rw [if_pos h2, tdiv_NSEC_zero (by omega) (by omega), if_neg (by decide), if_neg (by omega)]
  rw [if_neg h2]
  by_cases h3 : -NSEC < n
  · rw [if_pos h3, tdiv_NSEC_zero h3 (by omega), if_neg (by decide)]
    by_cases hs : s = 0
    · rw [if_pos hs, if_neg (by omega)]
    · rw [if_neg hs, if_pos ⟨by omega, .inr hs⟩]
      rfl
  · rw [if_neg h3, tdiv_NSEC_neg_one hlo (by omega), if_neg (by decide),
      if_pos ⟨by omega, .inl (by decide)⟩]
    rfl

/-- The borrow of `time_add` on less than two seconds' worth of nanoseconds, `d` being the
    seconds it borrows. -/
theorem borrowExact_of_lt (hlo : -(2 * NSEC) < n) :
    borrowExact ⟨s, n⟩ =
      if 0 ≤ n then ⟨s, n⟩
      else
        let d := if -NSEC < n then 1 else 2
        if s = -d then ⟨0, -(n + NSEC * d)⟩
        else if d ≤ s then ⟨s - d, n + NSEC * d⟩
        else ⟨s + d, n + NSEC * d⟩ := by
  unfold borrowExact
  dsimp only
  by_cases h2 : 0 ≤ n
  · rw [if_pos h2, if_neg (by omega)]
  rw [if_neg h2, if_pos (by omega)]
  by_cases h3 : -NSEC < n
  · rw [if_pos h3, tdiv_NSEC_zero h3 (by omega)]
    rfl
  · rw [if_neg h3, tdiv_NSEC_neg_one hlo (by omega)]
    rfl

/-- Both repairs of a mixed sum whose nanoseconds differ by less than a second. -/
theorem repairExact_of_lt (hlo : -NSEC < n) (hhi : n < NSEC) :
    fixExact (borrowExact ⟨s, n⟩) =
      if 0 ≤ n then ⟨s, n⟩
      else if s = -1 then ⟨0, -(n + NSEC)⟩
      else if 1 ≤ s then ⟨s - 1, n + NSEC⟩
      else ⟨s + 1, n + NSEC⟩ := by
  have hpos : 0 < NSEC := by decide
  rw [borrowExact_of_lt (by omega)]
  by_cases h2 : 0 ≤ n
  · rw [if_pos h2, if_pos h2, fixExact_of_lt (by omega) (by omega), if_neg (by omega), if_pos h2]
  rw [if_neg h2, if_neg h2]
  dsimp only
  rw [if_pos hlo, Int.mul_one]
  by_cases hs : s = -1
  · rw [if_pos hs, fixExact_of_lt (by omega) (by omega), if_neg (by omega), if_neg (by omega),
      if_pos (by omega), if_pos rfl]
  rw [if_neg hs]
  by_cases h1 : 1 ≤ s
  · rw [if_pos h1, fixExact_of_lt (by omega) (by omega), if_neg (by omega), if_pos (by omega)]
  · rw [if_neg h1, fixExact_of_lt (by omega) (by omega), if_neg (by omega), if_pos (by omega)]

/-! ### The four sign classes -/

theorem addExact_nonneg_nonneg (ha : a.Canonical) (hb : b.Canonical) (hs : 0 ≤ a.tv_sec)
    (ht : 0 ≤ b.tv_sec) :
    (addExact a b).Exact (a.value + b.value) ↔
      ¬ (a.tv_sec = 0 ∧ b.tv_sec = 0 ∧ a.tv_nsec + b.tv_nsec ≤ -NSEC) := by
  have hab := ha.bounds
  have hbb := hb.bounds
  have han := ha.nonneg
  have hbn := hb.nonneg
  have hsame : ¬ xor (decide (a.tv_sec < 0)) (decide (b.tv_sec < 0)) = true := by
    simp [not_lt.mpr hs, not_lt.mpr ht]
  unfold addExact
  rw [if_neg hsame, fixExact_of_lt (by omega) (by omega), Timespec.value_of_nonneg hs,
    Timespec.value_of_nonneg ht]
  simp only [NSEC_eq] at *
  split
  · rw [exact_mk_iff, NSEC_eq]
    omega
  split
  · rw [exact_mk_iff, NSEC_eq]
    omega
  split
  · split
    · rw [exact_mk_iff, NSEC_eq]
      omega
    · rw [exact_mk_iff, NSEC_eq]
      omega
  · -- two sub-second negatives a second or more below zero
    rw [exact_mk_iff, NSEC_eq]
    omega

theorem addExact_neg_neg (ha : a.Canonical) (hb : b.Canonical) (hs : a.tv_sec < 0)
    (ht : b.tv_sec < 0) :
    (addExact a b).Exact (a.value + b.value) ↔ a.tv_nsec + b.tv_nsec < NSEC := by
  have hab := ha.bounds
  have hbb := hb.bounds
  have han := ha.nonneg (by omega)
  have hbn := hb.nonneg (by omega)
  have hsame : ¬ xor (decide (a.tv_sec < 0)) (decide (b.tv_sec < 0)) = true := by
    simp [hs, ht]
  unfold addExact
  rw [if_neg hsame, fixExact_of_lt (by omega) (by omega), Timespec.value_of_neg hs,
    Timespec.value_of_neg ht]
  simp only [NSEC_eq] at *
  split
  · -- the carry goes up where the magnitude needs it to go down
    rw [exact_mk_iff, NSEC_eq]
    omega
  · rw [if_pos (by omega), exact_mk_iff, NSEC_eq]
    omega

theorem addExact_neg_nonneg (ha : a.Canonical) (hb : b.Canonical) (hs : a.tv_sec < 0)
    (ht : 0 ≤ b.tv_sec) :
    (addExact a b).Exact (a.value + b.value) ↔
      a.tv_nsec = b.tv_nsec ∨ (a.tv_sec + b.tv_sec < 0 ∧ a.tv_nsec - b.tv_nsec < NSEC) := by
  have hab := ha.bounds
  have hbb := hb.bounds
  have han := ha.nonneg (by omega)
  have hbn := hb.nonneg
  have hmixed : xor (decide (a.tv_sec < 0)) (decide (b.tv_sec < 0)) = true := by
    simp [hs, not_lt.mpr ht]
  unfold addExact
  rw [if_pos hmixed, Timespec.value_of_neg hs, Timespec.value_of_nonneg ht]
  by_cases hD : a.tv_nsec - b.tv_nsec < NSEC
  · rw [repairExact_of_lt (by omega) hD]
    simp only [NSEC_eq] at *
    split
    · rw [exact_mk_iff, NSEC_eq]
      omega
    split
    · rw [exact_mk_iff, NSEC_eq]
      omega
    split
    · rw [exact_mk_iff, NSEC_eq]
      omega
    · rw [exact_mk_iff, NSEC_eq]
      omega
  · -- a sub-second negative subtracted: the carry goes up where it should go down
    rw [borrowExact_of_lt (by omega), if_pos (by simp only [NSEC_eq] at *; omega),
      fixExact_of_lt (by simp only [NSEC_eq] at *; omega) (by omega), if_pos (by omega)]
    simp only [NSEC_eq] at *
    rw [exact_mk_iff, NSEC_eq]
    omega

/-- A sub-second negative that takes more than a second off: two seconds are borrowed, and neither
    of the repairs gives them back. -/
theorem not_exact_of_two_seconds {m : Int} (hm : -NSEC < m) (hn : n < NSEC)
    (hlow : m - n ≤ -NSEC) (hs : s < 0) :
    ¬ (fixExact (borrowExact ⟨s, m - n⟩)).Exact (m + (s * NSEC - n)) := by
  rw [borrowExact_of_lt (by omega), if_neg (by simp only [NSEC_eq] at *; omega)]
  dsimp only
  rw [if_neg (not_lt.mpr hlow)]
  simp only [NSEC_eq] at *
  split
  · rw [fixExact_of_lt (by rw [NSEC_eq]; omega) (by rw [NSEC_eq]; omega)]
    simp only [NSEC_eq]
    split_ifs <;> rw [exact_mk_iff, NSEC_eq] <;> omega
  split
  · omega
  · rw [fixExact_of_lt (by rw [NSEC_eq]; omega) (by rw [NSEC_eq]; omega)]
    simp only [NSEC_eq]
    split_ifs <;> rw [exact_mk_iff, NSEC_eq] <;> omega

theorem addExact_nonneg_neg (ha : a.Canonical) (hb : b.Canonical) (hs : 0 ≤ a.tv_sec)
    (ht : b.tv_sec < 0) :
    (addExact a b).Exact (a.value + b.value) ↔
      a.tv_nsec = b.tv_nsec ∨ 1 ≤ a.tv_sec + b.tv_sec ∨
        (a.tv_sec + b.tv_sec = 0 ∧ b.tv_nsec ≤ a.tv_nsec) := by
  have hab := ha.bounds
  have hbb := hb.bounds
  have han := ha.nonneg
  have hbn := hb.nonneg (by omega)
  have hmixed : xor (decide (a.tv_sec < 0)) (decide (b.tv_sec < 0)) = true := by
    simp [ht, not_lt.mpr hs]
  unfold addExact
  rw [if_pos hmixed, Timespec.value_of_nonneg hs, Timespec.value_of_neg ht]
  by_cases hD : -NSEC < a.tv_nsec - b.tv_nsec
  · rw [repairExact_of_lt hD (by omega)]
    simp only [NSEC_eq] at *
    split
    · rw [exact_mk_iff, NSEC_eq]
      omega
    split
    · rw [exact_mk_iff, NSEC_eq]
      omega
    split
    · rw [exact_mk_iff, NSEC_eq]
      omega
    · rw [exact_mk_iff, NSEC_eq]
      omega
  · -- a sub-second negative takes more than a second off: two seconds are borrowed
    have hs0 : a.tv_sec = 0 := by
      by_contra h
      have := han h
      omega
    have hno : ¬ (a.tv_nsec = b.tv_nsec ∨ 1 ≤ a.tv_sec + b.tv_sec ∨
        (a.tv_sec + b.tv_sec = 0 ∧ b.tv_nsec ≤ a.tv_nsec)) := by
      simp only [NSEC_eq] at *
      omega
    rw [hs0, Int.zero_mul, Int.zero_add, Int.zero_add]
    exact iff_of_false (not_exact_of_two_seconds hab.1 hbb.2 (not_lt.mp hD) ht) (by omega)

/-! ### The exact condition -/

/-- **Where the carries of `time_add` go in the right direction.**  Operands below zero
    seconds are in sign-magnitude form, and `time_add` gets their carry right only
    between the bounds given here. -/
def CarriesRight (a b : Timespec) : Prop :=
  if 0 ≤ a.tv_sec then
    if 0 ≤ b.tv_sec then
      ¬ (a.tv_sec = 0 ∧ b.tv_sec = 0 ∧ a.tv_nsec + b.tv_nsec ≤ -NSEC)
    else
      a.tv_nsec = b.tv_nsec ∨ 1 ≤ a.tv_sec + b.tv_sec ∨
        (a.tv_sec + b.tv_sec = 0 ∧ b.tv_nsec ≤ a.tv_nsec)
  else
    if 0 ≤ b.tv_sec then
      a.tv_nsec = b.tv_nsec ∨ (a.tv_sec + b.tv_sec < 0 ∧ a.tv_nsec - b.tv_nsec < NSEC)
    else a.tv_nsec + b.tv_nsec < NSEC

/-- The sum of two canonical timespecs is exact precisely when its carries go right. -/
theorem addExact_exact_iff (ha : a.Canonical) (hb : b.Canonical) :
    (addExact a b).Exact (a.value + b.value) ↔ CarriesRight a b := by
  unfold CarriesRight
  rcases lt_or_ge a.tv_sec 0 with hs | hs
  · rw [if_neg (by omega)]
    rcases lt_or_ge b.tv_sec 0 with ht | ht
    · rw [if_neg (by omega), addExact_neg_neg ha hb hs ht]
    · rw [if_pos ht, addExact_neg_nonneg ha hb hs ht]
  · rw [if_pos hs]
    rcases lt_or_ge b.tv_sec 0 with ht | ht
    · rw [if_neg (by omega), addExact_nonneg_neg ha hb hs ht]
    · rw [if_pos ht, addExact_nonneg_nonneg ha hb hs ht]

/-- Negation is exact on every canonical timespec. -/
theorem negExact_exact (hb : b.Canonical) : (negExact b).Exact (-b.value) := by
  have hbb := hb.bounds
  have hbn := hb.nonneg
  unfold negExact
  split
  · next h0 =>
    rw [Timespec.value_of_nonneg (by omega), h0, exact_mk_iff]
    omega
  · next h0 =>
    rcases lt_or_ge b.tv_sec 0 with hs | hs
    · rw [Timespec.value_of_neg hs, exact_mk_iff, NSEC_eq]
      rw [NSEC_eq] at hbb
      omega
    · rw [Timespec.value_of_nonneg hs, exact_mk_iff, NSEC_eq]
      rw [NSEC_eq] at hbb
      omega

/-! ### The exported functions -/

/-- `sancus_time_add(&a, &b)` leaves in `a` the canonical timespec of the sum and returns
    its sign, and `sancus_time_add2` returns the same timespec. -/
def AddsExactly (a b : Timespec) : Prop :=
  ∃ t, t.Exact (a.value + b.value) ∧ sancusTimeAdd a b = some (t, (a.value + b.value).sign) ∧
    sancusTimeAdd2 a b = some t

/-- The same for `sancus_time_sub` and `sancus_time_sub2`. -/
def SubsExactly (a b : Timespec) : Prop :=
  ∃ t, t.Exact (a.value - b.value) ∧ sancusTimeSub a b = some (t, (a.value - b.value).sign) ∧
    sancusTimeSub2 a b = some t

/-- What `time_add` leaves is exact, with the right sign, when its carries go right. -/
theorem timeAdd_exact_iff {v : Int} (ha : a.Canonical) (hb : b.Canonical)
    (hadd : (timeAdd a b).isSome) (hv : a.value + b.value = v) :
    (∃ t : Timespec, t.Exact v ∧ timeAdd a b = some (t, v.sign)) ↔ CarriesRight a b := by
  obtain ⟨r, hr⟩ := Option.isSome_iff_exists.mp hadd
  rw [hr, timeAdd_exact hr, ← addExact_exact_iff ha hb, hv]
  constructor
  · rintro ⟨t, ht, heq⟩
    obtain ⟨rfl, _⟩ := Prod.mk.inj (Option.some.inj heq)
    exact ht
  · intro h
    refine ⟨addExact a b, h, ?_⟩
    rw [signum_of_canonical h.1, h.2]

/-- `sancus_time_sub` is `time_add` of the negated operand. -/
theorem sancusTimeSub_of_neg {nb : Timespec} (h : sancusTimeNeg b = some nb) :
    sancusTimeSub a b = timeAdd a nb ∧ sancusTimeSub2 a b = (timeAdd a nb).map Prod.fst := by
  constructor
  · simp [sancusTimeSub, h]
  · simp [sancusTimeSub2, h, Option.map_eq_bind]

theorem addsExactly_iff (ha : a.Canonical) (hb : b.Canonical)
    (hadd : (sancusTimeAdd a b).isSome) : AddsExactly a b ↔ CarriesRight a b := by
  rw [← timeAdd_exact_iff ha hb hadd rfl]
  apply exists_congr
  intro t
  apply and_congr_right
  intro _
  -- `sancus_time_add2` returns what `sancus_time_add` leaves.
  apply and_iff_left_of_imp
  intro h
  have hadd2 : timeAdd a b = some (t, (a.value + b.value).sign) := h
  simp [sancusTimeAdd2, hadd2]

theorem subsExactly_iff (ha : a.Canonical) (hb : b.Canonical)
    (hsub : (sancusTimeSub a b).isSome) : SubsExactly a b ↔ CarriesRight a (negExact b) := by
  have hneg : sancusTimeNeg b = some (negExact b) := by
    cases hn : sancusTimeNeg b with
    | none => simp [sancusTimeSub, hn] at hsub
    | some nb => rw [sancusTimeNeg_exact hn]
  obtain ⟨h1, h2⟩ := sancusTimeSub_of_neg (a := a) hneg
  obtain ⟨hnb, hval⟩ := negExact_exact hb
  rw [h1] at hsub
  rw [← timeAdd_exact_iff ha hnb hsub (by rw [hval, Int.add_neg_eq_sub]), SubsExactly, h1, h2]
  apply exists_congr
  intro t
  apply and_congr_right
  intro _
  apply and_iff_left_of_imp
  intro h
  rw [h]
  rfl

/-- **When addition and subtraction are exact.**  For all canonical operands on which no
    `long` overflows, the four functions leave the canonical timespec of the exact sum and
    difference and return its sign if and only if the carries go right, for the operands
    as they are and for the second one negated. -/
theorem time_add_sub_exact_iff (a b : Timespec) (ha : a.Canonical) (hb : b.Canonical)
    (hadd : (sancusTimeAdd a b).isSome) (hsub : (sancusTimeSub a b).isSome) :
    AddsExactly a b ∧ SubsExactly a b ↔ CarriesRight a b ∧ CarriesRight a (negExact b) :=
  and_congr (addsExactly_iff ha hb hadd) (subsExactly_iff ha hb hsub)

/-- The rule at `0.002 s` and `1.997 s`. -/
theorem time_add_sub_exact_iff_millis :
    AddsExactly ⟨0, 2000000⟩ ⟨1, 997000000⟩ ∧ SubsExactly ⟨0, 2000000⟩ ⟨1, 997000000⟩ ↔
      CarriesRight ⟨0, 2000000⟩ ⟨1, 997000000⟩ ∧
        CarriesRight ⟨0, 2000000⟩ (negExact ⟨1, 997000000⟩) :=
  time_add_sub_exact_iff _ _ (by decide) (by decide) (by decide) (by decide)

/-- **A sum with the wrong sign.**  The sum of `-1.5 s` and `1.2 s` is `-0.3 s`, and
    `sancus_time_add` leaves `0.3 s` and returns 1. -/
theorem time_add_wrong_sign :
    Timespec.Canonical ⟨-1, 500000000⟩ ∧ Timespec.Canonical ⟨1, 200000000⟩ ∧
      sancusTimeAdd ⟨-1, 500000000⟩ ⟨1, 200000000⟩ = some (⟨0, 300000000⟩, 1) ∧
        (sancusTimeSub ⟨-1, 500000000⟩ ⟨1, 200000000⟩).isSome ∧
          ¬ AddsExactly ⟨-1, 500000000⟩ ⟨1, 200000000⟩ := by
  have hrun : sancusTimeAdd ⟨-1, 500000000⟩ ⟨1, 200000000⟩ = some (⟨0, 300000000⟩, 1) := by
    decide
  refine ⟨by decide, by decide, hrun, by decide, ?_⟩
  rintro ⟨t, _, h, _⟩
  rw [hrun] at h
  -- The second component alone is already wrong: 1 against the sign of `-0.3 s`.
  have hsign : (1 : Int) = Int.sign _ := (Prod.mk.inj (Option.some.inj h)).2
  exact absurd hsign (by decide)

end Sancus.Time
