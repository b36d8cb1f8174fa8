import Sancus.Time.Add

namespace Sancus.Time

open CModel

/-!
# Time — deadlines in milliseconds

A deadline is a time with a number of milliseconds added, and what is left of it and what
has elapsed are differences.  None of these is ever below zero, so that the carries of
`time_add` go right, and no `long` overflows that does not have to.

* `sancusTimeNewMs`, `sancusTimeCmp`, `sancusTimeLeft`, `sancusTimeTsToMs`, … — the code;
* `ofNs` — the canonical timespec of a number of nanoseconds that is not negative;
* `timeAdd_ofNs`, `sancusTimeSub2_ofNs`, … — what each function does to such timespecs, as
  arithmetic on the nanoseconds;
* `deadline_exact` — the time left and the time elapsed account for the whole timeout.
-/

/-! ### The code -/

/-- `MS_TO_NS(ms)`. -/
def msToNs (ms : Int) : Option Int := do
  let us ← long (1000 * ms)
  long (1000 * us)

/-- `sancus_time_new_ms`. -/
def sancusTimeNewMs (ms : Int) : Option Timespec := do
  let ns ← msToNs ms
  let r ← sancusTimeFix ⟨0, ns⟩
  pure r.1

/-- `sancus_time_add_ms`. -/
def sancusTimeAddMs (a : Timespec) (ms : Int) : Option (Timespec × Int) := do
  let b ← sancusTimeNewMs ms
  sancusTimeAdd a b

/-- `sancus_time_cmp`, whose `long` is cast to the `int` it returns. -/
def sancusTimeCmp (a b : Timespec) : Option Int := do
  let ret ← long (a.tv_sec - b.tv_sec)
  if ret = 0 then
    if a.tv_sec < 0 then do
      let ret ← long (b.tv_nsec - a.tv_nsec)
      pure (intToInt32 ret)
    else do
      let ret ← long (a.tv_nsec - b.tv_nsec)
      pure (intToInt32 ret)
  else pure (intToInt32 ret)

/-- `sancus_time_is_gt`. -/
def sancusTimeIsGt (a b : Timespec) : Option Bool := do
  let ret ← sancusTimeCmp a b
  pure (decide (0 < ret))

/-- `sancus_time_elapsed`. -/
def sancusTimeElapsed (now since : Timespec) : Option Timespec := do
  if ← sancusTimeIsGt now since then sancusTimeSub2 now since
  else pure ⟨0, 0⟩

/-- `sancus_time_left`. -/
def sancusTimeLeft (now until_ : Timespec) : Option Timespec := do
  if ← sancusTimeIsGt until_ now then sancusTimeSub2 until_ now
  else pure ⟨0, 0⟩

/-- `MS_TO_NS(1)`. -/
def NS_PER_MS : Int := 1000 * (1000 * 1)

/-- `NS_TO_MS_ROUNDED(ns)`; both divisions truncate. -/
def nsToMsRounded (ns : Int) : Option Int := do
  let n ← long (ns + NS_PER_MS.tdiv 2)
  pure (n.tdiv NS_PER_MS)

/-- `sancus_time_ts_to_ms`. -/
def sancusTimeTsToMs (ts : Timespec) : Option Int :=
  if ts.tv_sec ≤ LONG_MIN.tdiv 1000 then pure LONG_MIN
  else if ts.tv_sec ≥ LONG_MAX.tdiv 1000 then pure LONG_MAX
  else if ts.tv_sec < 0 then do
    let sec ← long (1000 * ts.tv_sec)
    let ms ← nsToMsRounded ts.tv_nsec
    long (sec - ms)
  else do
    let sec ← long (1000 * ts.tv_sec)
    let ms ← nsToMsRounded ts.tv_nsec
    long (sec + ms)

/-! ### Times that are not negative -/

/-- The canonical timespec of `v` nanoseconds, when `v` is not negative. -/
def ofNs (v : Int) : Timespec := ⟨v / NSEC, v % NSEC⟩

variable {t : Timespec} {s n u v : Int}

theorem ofNs_bounds (hv : 0 ≤ v) : 0 ≤ (ofNs v).tv_sec ∧ 0 ≤ (ofNs v).tv_nsec ∧
    (ofNs v).tv_nsec < 1000000000 ∧ v = (ofNs v).tv_sec * 1000000000 + (ofNs v).tv_nsec := by
  simp only [ofNs, NSEC_eq]
  omega

theorem ofNs_of_fields (hn : 0 ≤ n) (hlt : n < NSEC) : ofNs (s * NSEC + n) = ⟨s, n⟩ := by
  simp only [NSEC_eq] at hlt
  simp only [ofNs, NSEC_eq]
  congr 1 <;> omega

theorem ofNs_exact (hv : 0 ≤ v) : (ofNs v).Exact v := by
  obtain ⟨hs, hn, hlt, hsum⟩ := ofNs_bounds hv
  refine ⟨.inl ⟨hn, by rw [NSEC_eq]; exact hlt⟩, ?_⟩
  rw [Timespec.value_of_nonneg hs, NSEC_eq]
  exact hsum.symm

/-- A canonical time that is not negative is that of its value. -/
theorem eq_ofNs (ht : t.Canonical) (hv : 0 ≤ t.value) : t = ofNs t.value := by
  have hb := ht.bounds
  have hn := ht.nonneg
  rcases lt_or_ge t.tv_sec 0 with hs | hs
  · rw [Timespec.value_of_neg hs, NSEC_eq] at hv
    omega
  · rw [Timespec.value_of_nonneg hs] at hv ⊢
    simp only [NSEC_eq] at hb hv
    rw [ofNs_of_fields (by omega) (by rw [NSEC_eq]; omega)]

/-! ### What the functions do to them -/

/-- A conversion to nanoseconds that fits. -/
theorem secToNs_bind {β : Type} (f : Int → Option β) (hs : 0 ≤ s) (hmax : NSEC * s ≤ LONG_MAX) :
    (secToNs s >>= f) = f (NSEC * s) := by
  rw [NSEC_eq, LONG_MAX] at hmax
  unfold secToNs
  rw [long_bind _ (by omega) (by omega),
    long_bind _ (by omega) (by omega),
    long_bind _ (by omega) (by omega), NSEC_eq]
  congr 1
  omega

/-- `sancus_time_fix` on fields that are not negative carries the seconds over. -/
theorem sancusTimeFix_ofNs (hs : 0 ≤ s) (hn : 0 ≤ n) (hmax : n ≤ LONG_MAX)
    (hsum : s + n / NSEC ≤ LONG_MAX) :
    sancusTimeFix ⟨s, n⟩ = some (ofNs (s * NSEC + n), (s * NSEC + n).sign) := by
  have hfix : fixAdjust ⟨s, n⟩ = some (ofNs (s * NSEC + n)) := by
    unfold fixAdjust
    dsimp only
    rw [Int.tdiv_eq_ediv_of_nonneg hn]
    rw [NSEC_eq] at hsum
    rw [LONG_MAX] at hmax hsum
    by_cases hd : 0 < n / NSEC
    · rw [if_pos hd]
      rw [NSEC_eq] at hd
      rw [long_bind _ (by rw [NSEC_eq]; omega) (by rw [NSEC_eq]; omega),
        secToNs_bind _ (by rw [NSEC_eq]; omega) (by rw [LONG_MAX, NSEC_eq]; omega),
        long_bind _ (by rw [NSEC_eq]; omega) (by rw [NSEC_eq]; omega)]
      simp only [ofNs, NSEC_eq, Option.pure_def, Option.some.injEq, Timespec.mk.injEq]
      omega
    · rw [if_neg hd, if_neg (by omega)]
      rw [NSEC_eq] at hd
      rw [ofNs_of_fields hn (by rw [NSEC_eq]; omega)]
      rfl
  have hpos : 0 ≤ s * NSEC + n := by
    rw [NSEC_eq]
    omega
  obtain ⟨hcan, hval⟩ := ofNs_exact hpos
  unfold sancusTimeFix
  rw [hfix]
  show some (_, _) = _
  rw [signum_of_canonical hcan, hval]

/-- A second is borrowed where the nanoseconds are below zero, and the time is not. -/
theorem ofNs_borrow (hlo : -NSEC < n) (hneg : n < 0) :
    ofNs (s * NSEC + n) = ⟨s - 1, n + NSEC⟩ := by
  rw [← ofNs_of_fields (s := s - 1) (by omega) (by omega), NSEC_eq]
  congr 1
  omega

/-- `sancus_time_fix` borrows it. -/
theorem sancusTimeFix_borrow (hlo : -NSEC < n) (hhi : n < NSEC) (hs : 0 ≤ s) (hmax : s ≤ LONG_MAX)
    (hpos : 0 ≤ s * NSEC + n) :
    sancusTimeFix ⟨s, n⟩ = some (ofNs (s * NSEC + n), (s * NSEC + n).sign) := by
  rw [NSEC_eq] at hlo hhi hpos
  rw [LONG_MAX] at hmax
  rcases lt_or_ge n 0 with hneg | hnonneg
  · have hfix : fixAdjust ⟨s, n⟩ = some (ofNs (s * NSEC + n)) := by
      unfold fixAdjust
      dsimp only
      rw [tdiv_NSEC_zero (by rw [NSEC_eq]; omega) (by rw [NSEC_eq]; omega), if_neg (by decide),
        if_pos hneg, long_bind _ (by omega) (by omega),
        if_pos (.inr (by omega)), long_bind _ (by omega) (by omega),
        secToNs_bind _ (by decide) (by decide),
        long_bind _ (by rw [NSEC_eq]; omega) (by rw [NSEC_eq]; omega),
        ofNs_borrow (by rw [NSEC_eq]; omega) hneg]
      rfl
    obtain ⟨hcan, hval⟩ := ofNs_exact (v := s * NSEC + n) (by rw [NSEC_eq]; omega)
    unfold sancusTimeFix
    rw [hfix]
    show some (_, _) = _
    rw [signum_of_canonical hcan, hval]
  · exact sancusTimeFix_ofNs hs hnonneg (by rw [LONG_MAX]; omega)
      (by rw [LONG_MAX, NSEC_eq]; omega)

/-- And so does the borrow of `time_add`. -/
theorem timeBorrow_borrow (hlo : -NSEC < n) (hhi : n < NSEC) (hs : 0 ≤ s) (hmax : s ≤ LONG_MAX)
    (hpos : 0 ≤ s * NSEC + n) : timeBorrow ⟨s, n⟩ = some (ofNs (s * NSEC + n)) := by
  rw [NSEC_eq] at hlo hhi hpos
  rw [LONG_MAX] at hmax
  unfold timeBorrow
  dsimp only
  rcases lt_or_ge n 0 with hneg | hnonneg
  · rw [if_pos hneg, tdiv_NSEC_zero (by rw [NSEC_eq]; omega) (by rw [NSEC_eq]; omega),
      long_bind _ (by decide) (by decide), secToNs_bind _ (by decide) (by decide),
      long_bind _ (by rw [NSEC_eq]; omega) (by rw [NSEC_eq]; omega),
      if_neg (by omega), if_pos (by omega),
      long_bind _ (by omega) (by omega),
      ofNs_borrow (by rw [NSEC_eq]; omega) hneg]
    rfl
  · rw [if_neg (by omega), ofNs_of_fields hnonneg (by rw [NSEC_eq]; omega)]
    rfl

/-- Addition adds the nanoseconds, as long as the seconds of the sum fit. -/
theorem timeAdd_ofNs (hu : 0 ≤ u) (hv : 0 ≤ v) (hmax : (u + v) / NSEC ≤ LONG_MAX) :
    timeAdd (ofNs u) (ofNs v) = some (ofNs (u + v), (u + v).sign) := by
  obtain ⟨hus, hun, hult, husum⟩ := ofNs_bounds hu
  obtain ⟨hvs, hvn, hvlt, hvsum⟩ := ofNs_bounds hv
  generalize ofNs u = a at *
  generalize ofNs v = b at *
  rw [NSEC_eq, LONG_MAX] at hmax
  have hsame : ¬ xor (decide (a.tv_sec < 0)) (decide (b.tv_sec < 0)) = true := by
    simp [not_lt.mpr hus, not_lt.mpr hvs]
  unfold timeAdd
  rw [long_bind _ (by omega) (by omega), if_neg hsame,
    long_bind _ (by omega) (by omega),
    sancusTimeFix_ofNs (by omega) (by omega) (by rw [LONG_MAX]; omega)
      (by rw [LONG_MAX, NSEC_eq]; omega)]
  have hval : (a.tv_sec + b.tv_sec) * NSEC + (a.tv_nsec + b.tv_nsec) = u + v := by
    rw [NSEC_eq]
    omega
  rw [hval]

/-- Nanoseconds below zero: the operands have the same sign, and it is `sancus_time_fix` that
    borrows. -/
theorem timeAdd_sub_nsec {a : Timespec} (hs : 0 ≤ a.tv_sec) (hmax : a.tv_sec ≤ LONG_MAX)
    (hlo : -NSEC < a.tv_nsec - n) (hhi : a.tv_nsec - n < NSEC) :
    timeAdd a ⟨0, -n⟩ = sancusTimeFix ⟨a.tv_sec, a.tv_nsec - n⟩ := by
  have hsame : ¬ xor (decide (a.tv_sec < 0)) (decide ((0 : Int) < 0)) = true := by
    simp [not_lt.mpr hs]
  rw [LONG_MAX] at hmax
  rw [NSEC_eq] at hlo hhi
  unfold timeAdd
  rw [long_bind _ (by dsimp only; omega) (by dsimp only; omega), if_neg hsame,
    long_bind _ (by dsimp only; omega) (by dsimp only; omega)]
  dsimp only
  rw [Int.add_zero, Int.add_neg_eq_sub]

/-- Seconds below zero: the signs are mixed, and it is `time_add` that borrows. -/
theorem timeAdd_sub_sec {a : Timespec} (has : 0 ≤ a.tv_sec) (hs : 0 < s) (hsmax : s ≤ LONG_MAX)
    (hmax : a.tv_sec ≤ LONG_MAX) (hlo : -NSEC < a.tv_nsec - n) (hhi : a.tv_nsec - n < NSEC) :
    timeAdd a ⟨-s, n⟩ = timeBorrow ⟨a.tv_sec - s, a.tv_nsec - n⟩ >>= sancusTimeFix := by
  have hmixed : xor (decide (a.tv_sec < 0)) (decide (-s < 0)) = true := by
    simp [not_lt.mpr has, hs]
  rw [LONG_MAX] at hmax hsmax
  rw [NSEC_eq] at hlo hhi
  unfold timeAdd
  rw [long_bind _ (by dsimp only; omega) (by dsimp only; omega), if_pos hmixed,
    long_bind _ (by dsimp only; omega) (by dsimp only; omega)]
  dsimp only
  rw [Int.add_neg_eq_sub]

/-- So nanoseconds are taken off. -/
theorem timeAdd_neg_nsec {a : Timespec} (hs : 0 ≤ a.tv_sec) (hmax : a.tv_sec ≤ LONG_MAX)
    (hlo : -NSEC < a.tv_nsec - n) (hhi : a.tv_nsec - n < NSEC)
    (hpos : 0 ≤ a.tv_sec * NSEC + (a.tv_nsec - n)) :
    timeAdd a ⟨0, -n⟩ = some (ofNs (a.tv_sec * NSEC + (a.tv_nsec - n)),
      (a.tv_sec * NSEC + (a.tv_nsec - n)).sign) := by
  rw [timeAdd_sub_nsec hs hmax hlo hhi]
  exact sancusTimeFix_borrow hlo hhi hs hmax hpos

/-- So are seconds. -/
theorem timeAdd_neg_sec {a : Timespec} (has : 0 ≤ a.tv_sec) (hs : 0 < s) (hle : s ≤ a.tv_sec)
    (hmax : a.tv_sec ≤ LONG_MAX) (hlo : -NSEC < a.tv_nsec - n) (hhi : a.tv_nsec - n < NSEC)
    (hpos : 0 ≤ (a.tv_sec - s) * NSEC + (a.tv_nsec - n)) :
    timeAdd a ⟨-s, n⟩ = some (ofNs ((a.tv_sec - s) * NSEC + (a.tv_nsec - n)),
      ((a.tv_sec - s) * NSEC + (a.tv_nsec - n)).sign) := by
  have hborrow := timeBorrow_borrow hlo hhi (show 0 ≤ a.tv_sec - s by omega) (by omega) hpos
  rw [timeAdd_sub_sec has hs (by omega) hmax hlo hhi, hborrow]
  rw [LONG_MAX] at hmax
  rw [NSEC_eq] at hlo hhi
  -- what has been borrowed is canonical, and `sancus_time_fix` leaves it
  generalize hv : (a.tv_sec - s) * NSEC + (a.tv_nsec - n) = v at *
  rw [NSEC_eq] at hv
  obtain ⟨hvs, hvn, hvlt, hvsum⟩ := ofNs_bounds hpos
  have hback : (ofNs v).tv_sec * NSEC + (ofNs v).tv_nsec = v := by
    rw [NSEC_eq]
    exact hvsum.symm
  show sancusTimeFix ⟨(ofNs v).tv_sec, (ofNs v).tv_nsec⟩ = _
  rw [sancusTimeFix_ofNs hvs hvn (by rw [LONG_MAX]; omega) (by rw [LONG_MAX, NSEC_eq]; omega),
    hback]

/-- Subtraction of a time that is not later takes the nanoseconds off. -/
theorem sancusTimeSub2_ofNs (hv : 0 ≤ v) (hle : v ≤ u) (hmax : u / NSEC ≤ LONG_MAX) :
    sancusTimeSub2 (ofNs u) (ofNs v) = some (ofNs (u - v)) := by
  obtain ⟨hus, hun, hult, husum⟩ := ofNs_bounds (show 0 ≤ u by omega)
  obtain ⟨hvs, hvn, hvlt, hvsum⟩ := ofNs_bounds hv
  have hamax : (ofNs u).tv_sec ≤ LONG_MAX := hmax
  generalize ofNs u = a at *
  generalize ofNs v = b at *
  have hval : (a.tv_sec - b.tv_sec) * NSEC + (a.tv_nsec - b.tv_nsec) = u - v := by
    rw [NSEC_eq]
    omega
  have hpos : 0 ≤ (a.tv_sec - b.tv_sec) * NSEC + (a.tv_nsec - b.tv_nsec) := by
    rw [hval]
    omega
  have hlo : -NSEC < a.tv_nsec - b.tv_nsec := by
    rw [NSEC_eq]
    omega
  have hhi : a.tv_nsec - b.tv_nsec < NSEC := by
    rw [NSEC_eq]
    omega
  have hamax' := hamax
  rw [LONG_MAX] at hamax'
  unfold sancusTimeSub2 sancusTimeNeg
  by_cases h0 : b.tv_sec = 0
  · rw [h0, Int.sub_zero] at hval hpos
    have hadd := timeAdd_neg_nsec hus hamax hlo hhi hpos
    rw [hval] at hadd
    rw [if_pos h0, long_bind _ (by omega) (by omega)]
    show (timeAdd a ⟨b.tv_sec, -b.tv_nsec⟩ >>= fun r => pure r.1) = _
    rw [h0, hadd]
    rfl
  · have hadd := timeAdd_neg_sec hus (by omega) (by omega) hamax hlo hhi hpos
    rw [hval] at hadd
    rw [if_neg h0, long_bind _ (by omega) (by omega)]
    show (timeAdd a ⟨-b.tv_sec, b.tv_nsec⟩ >>= fun r => pure r.1) = _
    rw [hadd]
    rfl

/-- Times whose seconds differ by what an `int` can hold are compared by their nanoseconds. -/
theorem sancusTimeIsGt_ofNs (hu : 0 ≤ u) (hv : 0 ≤ v)
    (hlo : -(INT_MAX + 1) ≤ u / NSEC - v / NSEC) (hhi : u / NSEC - v / NSEC ≤ INT_MAX) :
    sancusTimeIsGt (ofNs u) (ofNs v) = some (decide (v < u)) := by
  obtain ⟨hus, hun, hult, husum⟩ := ofNs_bounds hu
  obtain ⟨hvs, hvn, hvlt, hvsum⟩ := ofNs_bounds hv
  have hlo' : -(INT_MAX + 1) ≤ (ofNs u).tv_sec - (ofNs v).tv_sec := hlo
  have hhi' : (ofNs u).tv_sec - (ofNs v).tv_sec ≤ INT_MAX := hhi
  generalize ofNs u = a at *
  generalize ofNs v = b at *
  rw [INT_MAX] at hlo' hhi'
  unfold sancusTimeIsGt sancusTimeCmp
  rw [long_bind _ (by omega) (by omega)]
  by_cases h0 : a.tv_sec - b.tv_sec = 0
  · rw [if_pos h0, if_neg (by omega),
      long_bind _ (by omega) (by omega),
      intToInt32_of_le (by omega) (by omega)]
    show some (decide _) = _
    congr 2
    exact propext ⟨fun h => by omega, fun h => by omega⟩
  · rw [if_neg h0, intToInt32_of_le (by omega) (by omega)]
    show some (decide _) = _
    congr 2
    exact propext ⟨fun h => by omega, fun h => by omega⟩

/-- What is left until a time that has not passed. -/
theorem sancusTimeLeft_ofNs (hu : 0 ≤ u) (hle : u ≤ v) (hmax : v / NSEC ≤ LONG_MAX)
    (hint : v / NSEC - u / NSEC ≤ INT_MAX) :
    sancusTimeLeft (ofNs u) (ofNs v) = some (ofNs (v - u)) := by
  have hgt := sancusTimeIsGt_ofNs (show 0 ≤ v by omega) hu
    (by rw [INT_MAX, NSEC_eq]; omega) hint
  unfold sancusTimeLeft
  rw [hgt]
  show (if decide (u < v) = true then _ else _) = _
  by_cases hlt : u < v
  · rw [if_pos (decide_eq_true hlt)]
    exact sancusTimeSub2_ofNs hu hle hmax
  · have heq : v - u = 0 := by omega
    rw [if_neg (by simpa using hlt), heq]
    rfl

/-- What has elapsed since a time that is not to come. -/
theorem sancusTimeElapsed_ofNs (hv : 0 ≤ v) (hle : v ≤ u) (hmax : u / NSEC ≤ LONG_MAX)
    (hint : u / NSEC - v / NSEC ≤ INT_MAX) :
    sancusTimeElapsed (ofNs u) (ofNs v) = some (ofNs (u - v)) :=
  -- the same function with its arguments the other way round
  sancusTimeLeft_ofNs hv hle hmax hint

/-- Whole milliseconds are converted back exactly. -/
theorem sancusTimeTsToMs_ofNs {ms : Int} (hms : 0 ≤ ms) (hns : ms * 1000000 ≤ LONG_MAX) :
    sancusTimeTsToMs (ofNs (ms * 1000000)) = some ms := by
  rw [LONG_MAX] at hns
  have hsec : (ofNs (ms * 1000000)).tv_sec = ms / 1000 := by
    simp only [ofNs, NSEC_eq]
    omega
  have hnsec : (ofNs (ms * 1000000)).tv_nsec = ms % 1000 * 1000000 := by
    simp only [ofNs, NSEC_eq]
    omega
  have hround : nsToMsRounded (ms % 1000 * 1000000) = some (ms % 1000) := by
    have hhalf : NS_PER_MS.tdiv 2 = 500000 := by decide
    have hms' : NS_PER_MS = 1000000 := by decide
    unfold nsToMsRounded
    rw [hhalf, hms', long_bind _ (by omega) (by omega),
      Int.tdiv_eq_ediv_of_nonneg (by omega)]
    show some _ = _
    congr 1
    omega
  have hmin : LONG_MIN.tdiv 1000 = -9223372036854775 := by decide
  have hmax : LONG_MAX.tdiv 1000 = 9223372036854775 := by decide
  unfold sancusTimeTsToMs
  rw [hsec, hnsec, hround, hmin, hmax, if_neg (by omega), if_neg (by omega), if_neg (by omega),
    long_bind _ (by omega) (by omega)]
  show long (1000 * (ms / 1000) + ms % 1000) = _
  rw [long_eq_some (by omega) (by omega)]
  congr 1
  omega

/-- Milliseconds whose nanoseconds fit are converted exactly. -/
theorem sancusTimeNewMs_eq {ms : Int} (hms : 0 ≤ ms) (hmax : ms * 1000000 ≤ LONG_MAX) :
    sancusTimeNewMs ms = some (ofNs (ms * 1000000)) := by
  have hns : msToNs ms = some (ms * 1000000) := by
    rw [LONG_MAX] at hmax
    unfold msToNs
    rw [long_bind _ (by omega) (by omega),
      long_eq_some (by omega) (by omega)]
    congr 1
    omega
  have hfix := sancusTimeFix_ofNs (s := 0) (n := ms * 1000000) (by decide) (by omega) hmax
    (by rw [LONG_MAX] at *; rw [NSEC_eq]; omega)
  rw [Int.zero_mul, Int.zero_add] at hfix
  unfold sancusTimeNewMs
  rw [hns]
  show (sancusTimeFix ⟨0, ms * 1000000⟩ >>= fun r => pure r.1) = _
  rw [hfix]
  rfl

/-! ### Deadlines -/

/-- **Deadline arithmetic is exact.**  A timeout added to a time gives the canonical time of the
    sum; what is left of it is the timeout; and at every time on the way, what is left and
    what has elapsed add up to it. -/
theorem deadline_exact (now : Timespec) (ms : Int) (hnow : now.Canonical) (hpos : 0 ≤ now.value)
    (hms : 0 ≤ ms) (hns : ms * 1000000 ≤ LONG_MAX) (hint : ms / 1000 < INT_MAX)
    (hsec : (now.value + ms * 1000000) / NSEC ≤ LONG_MAX) :
    ∃ d sign, sancusTimeAddMs now ms = some (d, sign) ∧ d.Exact (now.value + ms * 1000000) ∧
      (∃ left, sancusTimeLeft now d = some left ∧ sancusTimeTsToMs left = some ms) ∧
      ∀ t : Timespec, t.Canonical → now.value ≤ t.value → t.value ≤ d.value →
        ∃ left elapsed sum, sancusTimeLeft t d = some left ∧
          sancusTimeElapsed t now = some elapsed ∧ sancusTimeAdd2 left elapsed = some sum ∧
          sancusTimeTsToMs sum = some ms := by
  -- everything is arithmetic on the nanoseconds of `now`
  obtain ⟨u, hu⟩ : ∃ u, now.value = u := ⟨_, rfl⟩
  rw [hu] at hpos hsec ⊢
  have hnow' : now = ofNs u := by
    rw [← hu]
    exact eq_ofNs hnow (hu ▸ hpos)
  have hns' := hns
  have hsec' := hsec
  rw [LONG_MAX] at hns'
  rw [LONG_MAX, NSEC_eq] at hsec'
  rw [INT_MAX] at hint
  have hadd : sancusTimeAddMs now ms =
      some (ofNs (u + ms * 1000000), (u + ms * 1000000).sign) := by
    unfold sancusTimeAddMs
    rw [sancusTimeNewMs_eq hms hns, hnow']
    exact timeAdd_ofNs hpos (by omega) hsec
  have hd := ofNs_exact (v := u + ms * 1000000) (by omega)
  have hback : sancusTimeTsToMs (ofNs (ms * 1000000)) = some ms :=
    sancusTimeTsToMs_ofNs hms hns
  refine ⟨_, _, hadd, hd, ⟨ofNs (ms * 1000000), ?_, hback⟩, ?_⟩
  · have hleft := sancusTimeLeft_ofNs (v := u + ms * 1000000) hpos (by omega) hsec
      (by rw [NSEC_eq, INT_MAX]; omega)
    rw [hnow', hleft, add_sub_cancel_left]
  · intro t ht hlo hhi
    rw [hd.2] at hhi
    have ht' : t = ofNs t.value := eq_ofNs ht (by omega)
    generalize t.value = w at *
    have hleft := sancusTimeLeft_ofNs (u := w) (v := u + ms * 1000000) (by omega) hhi hsec
      (by rw [NSEC_eq, INT_MAX]; omega)
    have helapsed := sancusTimeElapsed_ofNs (u := w) hpos hlo
      (by rw [NSEC_eq, LONG_MAX]; omega) (by rw [NSEC_eq, INT_MAX]; omega)
    have hsum : sancusTimeAdd2 (ofNs (u + ms * 1000000 - w)) (ofNs (w - u)) =
        some (ofNs (ms * 1000000)) := by
      have htotal : u + ms * 1000000 - w + (w - u) = ms * 1000000 := by omega
      unfold sancusTimeAdd2
      rw [timeAdd_ofNs (by omega) (by omega) (by rw [NSEC_eq, LONG_MAX]; omega), htotal]
      rfl
    exact ⟨_, _, _, ht' ▸ hleft, by rw [ht', hnow']; exact helapsed, hsum, hback⟩

/-- A timeout of 1.5 s from 0.8 s on. -/
theorem deadline_exact_example :
    ∃ d sign, sancusTimeAddMs ⟨0, 800000000⟩ 1500 = some (d, sign) ∧
      d.Exact (Timespec.value ⟨0, 800000000⟩ + 1500 * 1000000) ∧
      (∃ left, sancusTimeLeft ⟨0, 800000000⟩ d = some left ∧ sancusTimeTsToMs left = some 1500) ∧
      ∀ t : Timespec, t.Canonical → Timespec.value ⟨0, 800000000⟩ ≤ t.value → t.value ≤ d.value →
        ∃ left elapsed sum, sancusTimeLeft t d = some left ∧
          sancusTimeElapsed t ⟨0, 800000000⟩ = some elapsed ∧
          sancusTimeAdd2 left elapsed = some sum ∧ sancusTimeTsToMs sum = some 1500 :=
  deadline_exact ⟨0, 800000000⟩ 1500 (by decide) (by decide) (by decide) (by decide) (by decide)
    (by decide)

end Sancus.Time
