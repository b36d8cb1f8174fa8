import Sancus.CModel.Integer
import Mathlib.Tactic.Ring

namespace Sancus.Time

open CModel

/-!
# Time — timespecs and their canonical form

The arithmetic of `time.c`, every intermediate `long` checked, and the meaning of a
timespec as a signed number of nanoseconds.

* `sancusTimeFix` / `timeAdd` / `sancusTimeNeg` and their exported wrappers — the code;
* `fixExact` / `addExact` — the same computations over the integers, which the code agrees
  with whenever no `long` overflows (`sancusTimeFix_exact`, `timeAdd_exact`);
* `Timespec.Canonical` / `Timespec.value` — the canonical form and the sign-magnitude
  reading: below zero seconds the nanoseconds count downwards.
-/

structure Timespec where
  tv_sec : Int
  tv_nsec : Int
  deriving DecidableEq

/-- `SEC_TO_NS(1)`. -/
def NSEC : Int := 1000 * (1000 * (1000 * 1))

/-- `SEC_TO_NS(s)`. -/
def secToNs (s : Int) : Option Int := do
  let ms ← long (1000 * s)
  let us ← long (1000 * ms)
  long (1000 * us)

/-! ### The code -/

/-- What `sancus_time_fix` returns for the timespec it leaves. -/
def Timespec.signum (ts : Timespec) : Int :=
  if ts.tv_sec < 0 ∨ ts.tv_nsec < 0 then -1
  else if ts.tv_sec = 0 ∧ ts.tv_nsec = 0 then 0
  else 1

/-- The adjustment of `sancus_time_fix`; the division truncates. -/
def fixAdjust (ts : Timespec) : Option Timespec :=
  let d := ts.tv_nsec.tdiv NSEC
  if 0 < d then do
    let sec ← long (ts.tv_sec + d)
    let ns ← secToNs d
    let nsec ← long (ts.tv_nsec - ns)
    pure ⟨sec, nsec⟩
  else if ts.tv_nsec < 0 then do
    let d ← long (-d + 1)
    -- A sub-second negative is canonical as it is.
    if d ≠ 1 ∨ ts.tv_sec ≠ 0 then do
      let sec ← long (ts.tv_sec - d)
      let ns ← secToNs d
      let nsec ← long (ts.tv_nsec + ns)
      pure ⟨sec, nsec⟩
    else pure ts
  else pure ts

/-- `sancus_time_fix`: the timespec it leaves and the value it returns. -/
def sancusTimeFix (ts : Timespec) : Option (Timespec × Int) := do
  let ts ← fixAdjust ts
  pure (ts, ts.signum)

/-- The borrow of `time_add`, on operands whose seconds have different signs. -/
def timeBorrow (a : Timespec) : Option Timespec :=
  if a.tv_nsec < 0 then do
    let d ← long (1 - a.tv_nsec.tdiv NSEC)
    let ns ← secToNs d
    let nsec ← long (a.tv_nsec + ns)
    if a.tv_sec = -d then do
      -- The seconds are used up, and the rest becomes a sub-second negative.
      let nsec ← long (nsec * -1)
      pure ⟨0, nsec⟩
    else if a.tv_sec ≥ d then do
      let sec ← long (a.tv_sec - d)
      pure ⟨sec, nsec⟩
    else do
      -- Taken for a negative sum in sign-magnitude form, though its seconds may be 0 or 1.
      let sec ← long (a.tv_sec + d)
      pure ⟨sec, nsec⟩
  else pure a

/-- `time_add`. -/
def timeAdd (a b : Timespec) : Option (Timespec × Int) := do
  let sec ← long (a.tv_sec + b.tv_sec)
  if xor (decide (a.tv_sec < 0)) (decide (b.tv_sec < 0)) then do
    let nsec ← long (a.tv_nsec - b.tv_nsec)
    let a ← timeBorrow ⟨sec, nsec⟩
    sancusTimeFix a
  else do
    let nsec ← long (a.tv_nsec + b.tv_nsec)
    sancusTimeFix ⟨sec, nsec⟩

/-- `sancus_time_neg`. -/
def sancusTimeNeg (a : Timespec) : Option Timespec :=
  if a.tv_sec = 0 then do
    let nsec ← long (-a.tv_nsec)
    pure { a with tv_nsec := nsec }
  else do
    let sec ← long (-a.tv_sec)
    pure { a with tv_sec := sec }

/-- `sancus_time_add`. -/
def sancusTimeAdd (a b : Timespec) : Option (Timespec × Int) := timeAdd a b

/-- `sancus_time_sub`. -/
def sancusTimeSub (a b : Timespec) : Option (Timespec × Int) := do
  let nb ← sancusTimeNeg b
  timeAdd a nb

/-- `sancus_time_add2`. -/
def sancusTimeAdd2 (a b : Timespec) : Option Timespec := do
  let r ← timeAdd a b
  pure r.1

/-- `sancus_time_sub2`. -/
def sancusTimeSub2 (a b : Timespec) : Option Timespec := do
  let nb ← sancusTimeNeg b
  let r ← timeAdd a nb
  pure r.1

/-! ### The code over the integers -/

/-- `sancus_time_fix` without a bound on its `long`s. -/
def fixExact (ts : Timespec) : Timespec :=
  if 0 < ts.tv_nsec.tdiv NSEC then
    ⟨ts.tv_sec + ts.tv_nsec.tdiv NSEC, ts.tv_nsec - NSEC * ts.tv_nsec.tdiv NSEC⟩
  else if ts.tv_nsec < 0 ∧ (-ts.tv_nsec.tdiv NSEC + 1 ≠ 1 ∨ ts.tv_sec ≠ 0) then
    ⟨ts.tv_sec - (-ts.tv_nsec.tdiv NSEC + 1), ts.tv_nsec + NSEC * (-ts.tv_nsec.tdiv NSEC + 1)⟩
  else ts

/-- The borrow of `time_add` without a bound on its `long`s. -/
def borrowExact (a : Timespec) : Timespec :=
  if a.tv_nsec < 0 then
    let d := 1 - a.tv_nsec.tdiv NSEC
    if a.tv_sec = -d then ⟨0, -(a.tv_nsec + NSEC * d)⟩
    else if a.tv_sec ≥ d then ⟨a.tv_sec - d, a.tv_nsec + NSEC * d⟩
    else ⟨a.tv_sec + d, a.tv_nsec + NSEC * d⟩
  else a

/-- `time_add` without a bound on its `long`s. -/
def addExact (a b : Timespec) : Timespec :=
  if xor (decide (a.tv_sec < 0)) (decide (b.tv_sec < 0)) then
    fixExact (borrowExact ⟨a.tv_sec + b.tv_sec, a.tv_nsec - b.tv_nsec⟩)
  else fixExact ⟨a.tv_sec + b.tv_sec, a.tv_nsec + b.tv_nsec⟩

/-- `sancus_time_neg` without a bound on its `long`s. -/
def negExact (a : Timespec) : Timespec :=
  if a.tv_sec = 0 then ⟨a.tv_sec, -a.tv_nsec⟩ else ⟨-a.tv_sec, a.tv_nsec⟩

variable {a b ts t : Timespec}

/-- A conversion to nanoseconds that does not overflow is exact. -/
theorem bind_secToNs {β : Type} {s : Int} {f : Int → Option β} {r : β}
    (h : (secToNs s >>= f) = some r) : f (NSEC * s) = some r := by
  obtain ⟨n, hn, hf⟩ := Option.bind_eq_some_iff.mp h
  have hus := bind_long hn
  have hns := bind_long hus
  have hexact : n = 1000 * (1000 * (1000 * s)) := eq_of_long hns
  have hmul : NSEC * s = 1000 * (1000 * (1000 * s)) := by
    rw [NSEC]
    ring
  rwa [hmul, ← hexact]

theorem fixAdjust_exact (h : fixAdjust ts = some t) : t = fixExact ts := by
  unfold fixAdjust at h
  unfold fixExact
  dsimp only at h
  by_cases hd : 0 < ts.tv_nsec.tdiv NSEC
  · -- the excess seconds are carried over
    rw [if_pos hd] at h ⊢
    have hr := bind_long (bind_secToNs (bind_long h))
    exact (Option.some.inj hr).symm
  rw [if_neg hd] at h ⊢
  by_cases hneg : ts.tv_nsec < 0
  · rw [if_pos hneg] at h
    replace h := bind_long h
    by_cases hadj : -ts.tv_nsec.tdiv NSEC + 1 ≠ 1 ∨ ts.tv_sec ≠ 0
    · rw [if_pos hadj] at h
      rw [if_pos ⟨hneg, hadj⟩]
      have hr := bind_long (bind_secToNs (bind_long h))
      exact (Option.some.inj hr).symm
    · rw [if_neg hadj] at h
      rw [if_neg (fun hc => hadj hc.2)]
      exact (Option.some.inj h).symm
  · rw [if_neg hneg] at h
    rw [if_neg (fun hc => hneg hc.1)]
    exact (Option.some.inj h).symm

/-- **`sancus_time_fix` is exact** as long as no `long` overflows. -/
theorem sancusTimeFix_exact {r : Timespec × Int} (h : sancusTimeFix ts = some r) :
    r = (fixExact ts, (fixExact ts).signum) := by
  obtain ⟨t, ht, hr⟩ := Option.bind_eq_some_iff.mp h
  rw [fixAdjust_exact ht] at hr
  exact (Option.some.inj hr).symm

theorem timeBorrow_exact (h : timeBorrow a = some t) : t = borrowExact a := by
  unfold timeBorrow at h
  unfold borrowExact
  by_cases hneg : a.tv_nsec < 0
  · rw [if_pos hneg] at h ⊢
    replace h := bind_long (bind_secToNs (bind_long h))
    dsimp only
    -- the three relations between the seconds and the borrow
    by_cases hused : a.tv_sec = -(1 - a.tv_nsec.tdiv NSEC)
    · rw [if_pos hused] at h ⊢
      rw [← Int.mul_neg_one]
      have hr := bind_long h
      exact (Option.some.inj hr).symm
    rw [if_neg hused] at h ⊢
    by_cases hge : a.tv_sec ≥ 1 - a.tv_nsec.tdiv NSEC
    · rw [if_pos hge] at h ⊢
      have hr := bind_long h
      exact (Option.some.inj hr).symm
    · rw [if_neg hge] at h ⊢
      have hr := bind_long h
      exact (Option.some.inj hr).symm
  · rw [if_neg hneg] at h ⊢
    exact (Option.some.inj h).symm

/-- **`time_add` is exact** as long as no `long` overflows: it leaves what the same
    computation over the integers leaves, and returns the sign read off that. -/
theorem timeAdd_exact {r : Timespec × Int} (h : timeAdd a b = some r) :
    r = (addExact a b, (addExact a b).signum) := by
  replace h := bind_long h
  unfold addExact
  by_cases hmixed : xor (decide (a.tv_sec < 0)) (decide (b.tv_sec < 0)) = true
  · rw [if_pos hmixed] at h ⊢
    obtain ⟨t, ht, hfix⟩ := Option.bind_eq_some_iff.mp (bind_long h)
    rw [timeBorrow_exact ht] at hfix
    exact sancusTimeFix_exact hfix
  · rw [if_neg hmixed] at h ⊢
    exact sancusTimeFix_exact (bind_long h)

theorem sancusTimeNeg_exact (h : sancusTimeNeg a = some t) : t = negExact a := by
  unfold sancusTimeNeg at h
  unfold negExact
  by_cases h0 : a.tv_sec = 0
  · rw [if_pos h0] at h ⊢
    have hr := bind_long h
    exact (Option.some.inj hr).symm
  · rw [if_neg h0] at h ⊢
    have hr := bind_long h
    exact (Option.some.inj hr).symm

end Sancus.Time
