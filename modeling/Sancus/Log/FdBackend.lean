import Sancus.Log.Model
import Sancus.Time.Clock
import Sancus.Time.Sign

namespace Sancus.Log

open CModel Sancus.Buffer Time

/-!
# Loggers — the backend that writes to a file descriptor

A line is a prelude, the parts of the record that are not empty, and a line feed, written in one
call.  The prelude says when the line was written and for which level, by a letter for the levels
of `enum sancus_log_level`.  The table of the letters is as long as its string, which ends with a
NUL.

* `fdPrelude`, `fdSegments`, `fdLoggerWrite` — the code;
* `FdReached` — what calls leave in its static variables, which are readings of the clock;
* `stampText`, `levelTag`, `joinParts` — the texts a line is made of;
* `OneLine` — the line is made of them;
* `fd_line_iff` — the records for which it is.
-/

/-! ### The code -/

def LOG_PRELUDE_SIZE : Nat := 64

/-- `struct sancus_logger_fd_backend_data` without its mutex. -/
structure FdBackendData where
  fd : Int
  timestamp : Bool

/-- The static variables `first` and `prev` of `fd_logger_write`. -/
structure FdClock where
  first : Timespec
  prev : Timespec
  deriving DecidableEq

/-- `"%s%ld.%03ld"` of `TIMESPEC_SPLIT_MS`. -/
def timespecFmtMs (t : Timespec) : List UInt8 :=
  (if t.tv_nsec < 0 then [45] else []) ++ signedDecimal t.tv_sec ++ [46] ++
    decimalPadded 3 (t.tv_nsec.natAbs / 1000000)

/-- `"[%s%ld.%03ld +%s%ld.%03ld] "`. -/
def stampText (dt0 dt1 : Timespec) : List UInt8 :=
  [91] ++ timespecFmtMs dt0 ++ [32, 43] ++ timespecFmtMs dt1 ++ [93, 32]

/-- There is no line yet, or the time is before the first one. -/
def fdWarped (clock : FdClock) (ts : Timespec) : Option Bool :=
  if sancusTimeIsZero clock.prev then some true else sancusTimeIsLt ts clock.first

/-- The times since the first line and the one before, and the statics afterwards. -/
def fdElapsed (clock : FdClock) (ts : Timespec) : Option (Timespec × Timespec × FdClock) := do
  let warped ← fdWarped clock ts
  if warped then
    -- first or time warped
    pure (⟨0, 0⟩, ⟨0, 0⟩, ⟨ts, ts⟩)
  else do
    let dt0 ← sancusTimeSub ts clock.first
    let dt1 ← sancusTimeSub ts clock.prev
    pure (dt0.1, dt1.1, ⟨clock.first, ts⟩)

/-- The text of the time, if the backend has one, and the statics afterwards. -/
def fdStamp (ctx : FdBackendData) (clock : FdClock) (now : Timespec) :
    Option (Option (List UInt8) × FdClock) :=
  if ctx.timestamp then do
    let (dt0, dt1, clock) ← fdElapsed clock now
    pure (some (stampText dt0 dt1), clock)
  else some (none, clock)

/-- The string `levels`, and its size, which is that of an array. -/
def levels : List UInt8 := [69, 87, 73, 84, 68, 0]

/-- What is appended to the prelude for the level, with `"%c/"` or with `"%u/"`. -/
def levelText (level : UInt32) : List UInt8 :=
  if level.toNat < levels.length then [levels.getD level.toNat 0, 47]
  else decimal level.toNat ++ [47]

/-- The prelude, with the text of the time if there is one. -/
def fdPrelude (stamp : Option (List UInt8)) (level : UInt32) : SancusBuffer :=
  let buf := lbuffer LOG_PRELUDE_SIZE
  let buf :=
    match stamp with
    | some text => (sancusBufferAppendf buf false (.text text)).2
    | none      => buf
  (sancusBufferAppendf buf false (.text (levelText level))).2

/-- The segments of `iov`, up to `iovcnt`. -/
def fdSegments (first prefix_ msg data : List UInt8) : List (List UInt8) :=
  let iov := [first]
  let iov :=
    if prefix_ ≠ [] then
      let iov := iov ++ [prefix_]
      if msg ≠ [] ∨ data ≠ [] then iov ++ [[58, 32]] else iov
    else iov
  let iov :=
    if msg ≠ [] then
      let iov := iov ++ [msg]
      if data ≠ [] then iov ++ [[58, 32]] else iov
    else iov
  let iov := if data ≠ [] then iov ++ [data] else iov
  iov ++ [[10]]

/-- What a call leaves: the value returned, the segments given to `sancus_writev`, and the
    statics. -/
structure FdOutcome where
  ret : Int
  iov : Option (List (List UInt8))
  clock : FdClock
  deriving DecidableEq

/-- `fd_logger_write`, with what `sancus_writev` returns for a descriptor and some segments; `now`
    is what the clock gives. -/
def fdLoggerWrite (writev : Int → List (List UInt8) → Int) (ctx : Option FdBackendData)
    (clock : FdClock) (now : Timespec) (level : UInt32) (prefix_ msg data : List UInt8) :
    Option FdOutcome :=
  match ctx with
  | none     => some ⟨-EINVAL, none, clock⟩
  | some ctx => do
    let (stamp, clock) ← fdStamp ctx clock now
    let iov := fdSegments (fdPrelude stamp level).contents prefix_ msg data
    pure ⟨intToInt32 (writev ctx.fd iov), some iov, clock⟩

/-- The statics as earlier calls have left them, none of whose clocks counts from below zero. -/
inductive FdReached : FdClock → Prop
  | init : FdReached ⟨⟨0, 0⟩, ⟨0, 0⟩⟩
  | call {writev : Int → List (List UInt8) → Int} {ctx : Option FdBackendData} {clock : FdClock}
      {now : Timespec} {level : UInt32} {prefix_ msg data : List UInt8} {out : FdOutcome}
      (hclock : FdReached clock) (hnow : Reading now)
      (hout : fdLoggerWrite writev ctx clock now level prefix_ msg data = some out) :
      FdReached out.clock

/-! ### What a line is -/

/-- The letters of the levels, and the numbers of the others. -/
def levelTag (level : UInt32) : List UInt8 :=
  match level.toNat with
  | 0 => [69]
  | 1 => [87]
  | 2 => [73]
  | 3 => [84]
  | 4 => [68]
  | n => decimal n

/-- The parts that are not empty, with `": "` between them. -/
def joinParts (parts : List (List UInt8)) : List UInt8 :=
  [58, 32].intercalate (parts.filter (· ≠ []))

/-- At most seven segments, none of them empty, that make up one line. -/
structure OneLine (stamp : List UInt8) (level : UInt32) (prefix_ msg data : List UInt8)
    (iov : List (List UInt8)) : Prop where
  count : iov.length ≤ 7
  nonempty : ∀ s ∈ iov, s ≠ []
  text : iov.flatten =
    stamp ++ levelTag level ++ [47] ++ joinParts [prefix_, msg, data] ++ [10]
  noNul : ∀ s ∈ iov.head?, 0 ∉ s

variable {prefix_ msg data stamp first : List UInt8} {level : UInt32} {now dt0 dt1 : Timespec}
  {clock : FdClock} {t : Timespec}

/-! ### The segments -/

theorem length_intersperse_le {α : Type} (sep : α) (xs : List α) :
    (xs.intersperse sep).length ≤ 2 * xs.length - 1 := by
  induction xs with
  | nil => simp
  | cons x xs ih =>
    cases xs with
    | nil => simp
    | cons y zs =>
      simp at ih ⊢
      omega

theorem mem_intersperse {α : Type} {sep x : α} {xs : List α} (h : x ∈ xs.intersperse sep) :
    x = sep ∨ x ∈ xs := by
  induction xs with
  | nil => simp at h
  | cons y xs ih =>
    cases xs with
    | nil => exact .inr h
    | cons z zs =>
      rw [List.intersperse_cons_cons] at h
      rcases List.mem_cons.mp h with rfl | h
      · exact .inr List.mem_cons_self
      · rcases List.mem_cons.mp h with h | h
        · exact .inl h
        · exact (ih h).imp_right (List.mem_cons_of_mem _)

/-- Between the first segment and the last, the parts with what separates them. -/
theorem fdSegments_eq (first prefix_ msg data : List UInt8) :
    fdSegments first prefix_ msg data =
      first :: ([prefix_, msg, data].filter (· ≠ [])).intersperse [58, 32] ++ [[10]] := by
  unfold fdSegments
  by_cases hp : prefix_ = [] <;> by_cases hm : msg = [] <;> by_cases hd : data = [] <;>
    simp [hp, hm, hd]

theorem fdSegments_length_le (first prefix_ msg data : List UInt8) :
    (fdSegments first prefix_ msg data).length ≤ 7 := by
  have hparts := length_intersperse_le [58, 32] ([prefix_, msg, data].filter (· ≠ []))
  have hfilter := List.length_filter_le (· ≠ []) [prefix_, msg, data]
  rw [fdSegments_eq]
  simp at hparts hfilter ⊢
  omega

/-- Only the first segment could be empty. -/
theorem fdSegments_ne_nil (hfirst : first ≠ []) :
    ∀ s ∈ fdSegments first prefix_ msg data, s ≠ [] := by
  intro s hs
  rw [fdSegments_eq] at hs
  rcases List.mem_append.mp hs with hs | hs
  · rcases List.mem_cons.mp hs with rfl | hs
    · exact hfirst
    · rcases mem_intersperse hs with rfl | hs
      · simp
      · simpa using (List.mem_filter.mp hs).2
  · rw [List.mem_singleton.mp hs]
    simp

theorem fdSegments_flatten (first prefix_ msg data : List UInt8) :
    (fdSegments first prefix_ msg data).flatten =
      first ++ joinParts [prefix_, msg, data] ++ [10] := by
  rw [fdSegments_eq]
  simp [joinParts, List.intercalate]

/-! ### The prelude -/

/-- The texts of the prelude are appended if they have room. -/
theorem fdPrelude_contents (stamp : Option (List UInt8)) (level : UInt32) :
    (fdPrelude stamp level).contents = put 63 (put 63 [] (stamp.getD [])) (levelText level) := by
  have hbuf : Holds (lbuffer LOG_PRELUDE_SIZE) LOG_PRELUDE_SIZE [] :=
    holds_lbuffer (by decide) (by decide)
  cases stamp with
  | none => exact (hbuf.appendf_put (levelText level)).contents_eq
  | some text => exact ((hbuf.appendf_put text).appendf_put (levelText level)).contents_eq

/-- The level tag, with a slash. -/
theorem levelText_eq (hlevel : level ≠ 5) : levelText level = levelTag level ++ [47] := by
  have hne : level.toNat ≠ 5 := fun h => hlevel (UInt32.toNat_inj.mp h)
  unfold levelText levelTag
  split
  · next hlt =>
    have hcases : level.toNat = 0 ∨ level.toNat = 1 ∨ level.toNat = 2 ∨ level.toNat = 3 ∨
        level.toNat = 4 := by
      simp [levels] at hlt
      omega
    rcases hcases with h | h | h | h | h <;> rw [h] <;> rfl
  · next hge =>
    congr 1
    split <;> simp_all [levels]

/-- It is of 11 characters at most. -/
theorem levelText_length (level : UInt32) :
    2 ≤ (levelText level).length ∧ (levelText level).length ≤ 11 ∧
      (10 < (levelText level).length ↔ 10 ^ 9 ≤ level.toNat) := by
  have hlt := level.toNat_lt
  have hten : (decimal level.toNat).length ≤ 10 ↔ level.toNat < 10 ^ 10 :=
    decimal_length_le_iff (by decide)
  have hnine : (decimal level.toNat).length ≤ 9 ↔ level.toNat < 10 ^ 9 :=
    decimal_length_le_iff (by decide)
  unfold levelText
  split
  · next hletter =>
    simp [levels] at hletter ⊢
    omega
  · have hpos : 0 < (decimal level.toNat).length := by
      rw [decimal, digits, List.length_map]
      exact Nat.length_toDigits_pos
    rw [List.length_append, List.length_singleton]
    omega

theorem zero_not_mem_levelTag : 0 ∉ levelTag level := by
  unfold levelTag
  split <;> first | decide | exact zero_not_mem_decimal

/-- The line is right if the tag is, and has room behind the time. -/
theorem oneLine_iff (hstamp : stamp.length ≤ 53) (hnul : 0 ∉ stamp) :
    OneLine stamp level prefix_ msg data
      (fdSegments (put 63 (put 63 [] stamp) (levelText level)) prefix_ msg data) ↔
      level ≠ 5 ∧ stamp.length + (levelText level).length ≤ 63 := by
  have htext := levelText_length level
  have hput : put 63 [] stamp = stamp := by
    rw [put_fits (by rw [List.length_nil]; omega), List.nil_append]
  rw [hput]
  constructor
  · intro h
    have hflatten := h.text
    rw [fdSegments_flatten, List.append_left_inj, List.append_left_inj] at hflatten
    by_cases hfits : stamp.length + (levelText level).length ≤ 63
    · refine ⟨?_, hfits⟩
      rintro rfl
      rw [put_fits hfits, List.append_assoc, List.append_right_inj] at hflatten
      exact absurd hflatten (by decide)
    · rw [put_full (by omega), List.append_assoc] at hflatten
      have hlength := congrArg List.length hflatten
      simp at hlength
  · rintro ⟨hlevel, hfits⟩
    have htag := levelText_eq hlevel
    rw [put_fits hfits]
    refine ⟨fdSegments_length_le _ _ _ _, fdSegments_ne_nil (by simp [htag]), ?_, ?_⟩
    · rw [fdSegments_flatten, htag]
      simp
    · rw [fdSegments_eq, htag]
      simp [hnul, zero_not_mem_levelTag]

/-! ### The time -/

theorem timespecFmtMs_length (h : Storable t) :
    (timespecFmtMs t).length ≤ 24 ∧ (23 < (timespecFmtMs t).length ↔ t.tv_sec ≤ -10 ^ 18) := by
  obtain ⟨hcan, hmin, hmax⟩ := h
  have hb := hcan.bounds
  have hn := hcan.nonneg
  rw [NSEC_eq] at hb
  rw [LONG_MIN] at hmin
  rw [LONG_MAX] at hmax
  have hms : (decimalPadded 3 (t.tv_nsec.natAbs / 1000000)).length = 3 :=
    decimalPadded_length (by decide) (by omega)
  have hsec : (signedDecimal t.tv_sec).length ≤ 19 ↔ _ := signedDecimal_length_le_iff (by decide)
  have hsec' : (signedDecimal t.tv_sec).length ≤ 20 ↔ _ := signedDecimal_length_le_iff (by decide)
  rw [timespecFmtMs, List.length_append, List.length_append, List.length_append, hms,
    List.length_singleton]
  split
  · -- a sign of its own goes with no seconds
    next hneg =>
    have hzero : t.tv_sec = 0 := by
      by_contra hs
      exact absurd (hn hs) (not_le.mpr hneg)
    have hone : (signedDecimal t.tv_sec).length = 1 := by
      rw [hzero]
      decide
    rw [List.length_singleton]
    omega
  · rw [List.length_nil]
    omega

theorem zero_not_mem_timespecFmtMs : 0 ∉ timespecFmtMs t := by
  unfold timespecFmtMs
  split <;> simp [zero_not_mem_signedDecimal, zero_not_mem_decimalPadded]

theorem zero_not_mem_stampText : 0 ∉ stampText dt0 dt1 := by
  simp [stampText, zero_not_mem_timespecFmtMs]

theorem stampText_length (dt0 dt1 : Timespec) : (stampText dt0 dt1).length =
    5 + (timespecFmtMs dt0).length + (timespecFmtMs dt1).length := by
  simp [stampText]
  omega

/-- The statics hold readings of the clock, as what they are initialised with also is. -/
structure FdClock.Valid (clock : FdClock) : Prop where
  first : Reading clock.first
  prev : Reading clock.prev

theorem sancusTimeIsLt_reading {a b : Timespec} (ha : Reading a) (hb : Reading b) :
    ∃ lt, sancusTimeIsLt a b = some lt := by
  have hamax := ha.sec_le
  have hbmax := hb.sec_le
  have hasec := ha.sec_nonneg
  have hbsec := hb.sec_nonneg
  rw [LONG_MAX] at hamax hbmax
  have hlong : (long (a.tv_sec - b.tv_sec)).isSome :=
    Option.isSome_of_eq_some (long_eq_some (by omega) (by omega))
  rw [sancusTimeIsLt, sancusTimeCmp_eq ha.storable.canonical hb.storable.canonical hlong]
  exact ⟨_, rfl⟩

/-- The clock is far behind one of its readings: by 10^18 seconds. -/
def FarBehind (now t : Timespec) : Prop := secondsBetween now t ≤ -10 ^ 18

/-- It has been set back that far from the first line and the one before, and `int` does not show
    it. -/
def FarBack (clock : FdClock) (now : Timespec) : Prop :=
  sancusTimeIsLt now clock.first = some false ∧ FarBehind now clock.first ∧
    FarBehind now clock.prev

instance (now t : Timespec) : Decidable (FarBehind now t) := inferInstanceAs (Decidable (_ ≤ _))

instance (clock : FdClock) (now : Timespec) : Decidable (FarBack clock now) :=
  inferInstanceAs (Decidable (_ ∧ _))

theorem fdWarped_reading (hclock : clock.Valid) (hnow : Reading now) :
    ∃ warped, fdWarped clock now = some warped := by
  unfold fdWarped
  split
  · exact ⟨true, rfl⟩
  · exact sancusTimeIsLt_reading hnow hclock.first

/-- No clock is behind a time of zero. -/
theorem not_farBehind_of_isZero (hnow : Reading now) (hzero : sancusTimeIsZero t) :
    ¬ FarBehind now t := by
  have hsec := (isZero_iff.mp hzero).1
  have hnonneg := hnow.sec_nonneg
  rw [FarBehind, secondsBetween, hsec]
  omega

/-- **The time of a line.**  Of readings, the times are canonical, and both are of 20 digits if the
    clock was set back far; the statics are readings again. -/
theorem fdElapsed_reading (hclock : clock.Valid) (hnow : Reading now) :
    ∃ dt0 dt1 clock', fdElapsed clock now = some (dt0, dt1, clock') ∧ Storable dt0 ∧ Storable dt1 ∧
      (dt0.tv_sec ≤ -10 ^ 18 ∧ dt1.tv_sec ≤ -10 ^ 18 ↔ FarBack clock now) ∧ clock'.Valid := by
  obtain ⟨warped, hwarped⟩ := fdWarped_reading hclock hnow
  unfold fdElapsed
  rw [hwarped]
  cases warped with
  | true =>
    refine ⟨⟨0, 0⟩, ⟨0, 0⟩, ⟨now, now⟩, rfl, Reading.zero.storable, Reading.zero.storable, ?_,
      ⟨hnow, hnow⟩⟩
    refine iff_of_false (by decide) ?_
    rintro ⟨hlt, -, hprev⟩
    unfold fdWarped at hwarped
    split at hwarped
    · next hzero => exact not_farBehind_of_isZero hnow hzero hprev
    · simp [hlt] at hwarped
  | false =>
    have hlt : sancusTimeIsLt now clock.first = some false := by
      unfold fdWarped at hwarped
      split at hwarped
      · cases hwarped
      · exact hwarped
    obtain ⟨r0, hr0, hdt0, hsec0⟩ := sancusTimeSub_reading hnow hclock.first
    obtain ⟨r1, hr1, hdt1, hsec1⟩ := sancusTimeSub_reading hnow hclock.prev
    refine ⟨r0.1, r1.1, ⟨clock.first, now⟩, by simp [hr0, hr1], hdt0, hdt1, ?_,
      ⟨hclock.first, hnow⟩⟩
    rw [hsec0 _ (by decide), hsec1 _ (by decide), FarBack]
    simp [hlt, FarBehind]

/-! ### Lines -/

/-- The text of the time, where it is asked for. -/
def stampOf (ctx : FdBackendData) (clock : FdClock) (now : Timespec) : Option (List UInt8) :=
  if ctx.timestamp then (fdElapsed clock now).map fun e => stampText e.1 e.2.1 else some []

/-- The call writes one line. -/
def WritesLine (writev : Int → List (List UInt8) → Int) (ctx : FdBackendData) (clock : FdClock)
    (now : Timespec) (level : UInt32) (prefix_ msg data : List UInt8) : Prop :=
  ∃ out iov stamp, fdLoggerWrite writev (some ctx) clock now level prefix_ msg data = some out ∧
    out.iov = some iov ∧ stampOf ctx clock now = some stamp ∧
    OneLine stamp level prefix_ msg data iov

/-- What is left of the prelude is room for the level, unless both times take 24 characters. -/
theorem stampOf_reading (ctx : FdBackendData) (hclock : clock.Valid) (hnow : Reading now) :
    ∃ stamp clock', fdStamp ctx clock now = some (stamp, clock') ∧
      stampOf ctx clock now = some (stamp.getD []) ∧ 0 ∉ stamp.getD [] ∧
      (stamp.getD []).length ≤ 53 ∧
      (52 < (stamp.getD []).length ↔ ctx.timestamp = true ∧ FarBack clock now) ∧
      clock'.Valid := by
  unfold fdStamp stampOf
  cases ctx.timestamp with
  | false => exact ⟨none, clock, rfl, rfl, by simp, by simp, by simp, hclock⟩
  | true =>
    obtain ⟨dt0, dt1, clock', helapsed, hdt0, hdt1, hfar, hvalid⟩ := fdElapsed_reading hclock hnow
    have hlength0 := timespecFmtMs_length hdt0
    have hlength1 := timespecFmtMs_length hdt1
    refine ⟨some (stampText dt0 dt1), clock', by simp [helapsed], by simp [helapsed],
      zero_not_mem_stampText, ?_, ?_, hvalid⟩
    · rw [Option.getD_some, stampText_length]
      omega
    · rw [Option.getD_some, stampText_length, ← hfar, eq_self_iff_true, true_and]
      omega

/-- What a call leaves in the statics are readings. -/
theorem fdLoggerWrite_valid {writev : Int → List (List UInt8) → Int} {ctx : Option FdBackendData}
    {out : FdOutcome} (hclock : clock.Valid) (hnow : Reading now)
    (hout : fdLoggerWrite writev ctx clock now level prefix_ msg data = some out) :
    out.clock.Valid := by
  cases ctx with
  | none =>
    obtain rfl := Option.some.inj hout
    exact hclock
  | some ctx =>
    obtain ⟨stamp, clock', hstamp, -, -, -, -, hvalid⟩ := stampOf_reading ctx hclock hnow
    have hleft : out.clock = clock' := by
      simp only [fdLoggerWrite, hstamp] at hout
      exact congrArg FdOutcome.clock (Option.some.inj hout).symm
    rwa [hleft]

/-- So they are after any number of calls. -/
theorem FdReached.valid (h : FdReached clock) : clock.Valid := by
  induction h with
  | init => exact ⟨Reading.zero, Reading.zero⟩
  | call _ hnow hout ih => exact fdLoggerWrite_valid ih hnow hout

/-- **When a line is written.**  For every level and all texts, after any calls and with a clock
    that does not count from below zero: exactly if the level is not 5, and there is room for its
    number behind the time, which there is unless the number has ten digits and the clock was set
    back very far. -/
theorem fd_line_iff (writev : Int → List (List UInt8) → Int) (ctx : FdBackendData)
    (clock : FdClock) (now : Timespec) (hclock : FdReached clock) (hnow : Reading now)
    (level : UInt32) (prefix_ msg data : List UInt8) :
    WritesLine writev ctx clock now level prefix_ msg data ↔
      level ≠ 5 ∧ ¬ (ctx.timestamp = true ∧ 10 ^ 9 ≤ level.toNat ∧ FarBack clock now) := by
  obtain ⟨stamp, clock', hstamp, hstampOf, hnul, hlength, hlong, -⟩ :=
    stampOf_reading ctx hclock.valid hnow
  have hlevel := levelText_length level
  have hcalled : WritesLine writev ctx clock now level prefix_ msg data ↔
      OneLine (stamp.getD []) level prefix_ msg data
        (fdSegments (fdPrelude stamp level).contents prefix_ msg data) := by
    simp [WritesLine, fdLoggerWrite, hstamp, hstampOf]
  have hroom : (stamp.getD []).length + (levelText level).length ≤ 63 ↔
      ¬ (ctx.timestamp = true ∧ 10 ^ 9 ≤ level.toNat ∧ FarBack clock now) := by
    rw [and_left_comm, ← hlong]
    omega
  rw [hcalled, fdPrelude_contents, oneLine_iff hlength hnul, hroom]

/-- The rule on the first line, at the level 7. -/
theorem fd_line_iff_first :
    WritesLine (fun _ iov => iov.flatten.length) ⟨2, true⟩ ⟨⟨0, 0⟩, ⟨0, 0⟩⟩ ⟨2, 0⟩ 7 [] [104, 105]
        [] ↔
      (7 : UInt32) ≠ 5 ∧ ¬ ((⟨2, true⟩ : FdBackendData).timestamp = true ∧
        10 ^ 9 ≤ (7 : UInt32).toNat ∧ FarBack ⟨⟨0, 0⟩, ⟨0, 0⟩⟩ ⟨2, 0⟩) :=
  fd_line_iff _ ⟨2, true⟩ ⟨⟨0, 0⟩, ⟨0, 0⟩⟩ ⟨2, 0⟩ .init
    ⟨by decide, by decide, by decide, by decide⟩ 7 [] [104, 105] []

/-- **The level after the letters is a NUL.**  What stands before the slash is the end of the
    string. -/
theorem level_five_is_nul :
    ¬ WritesLine (fun _ iov => iov.flatten.length) ⟨2, false⟩ ⟨⟨0, 0⟩, ⟨0, 0⟩⟩ ⟨1, 0⟩ 5 []
        [104, 105] [] := by
  rintro ⟨out, iov, stamp, hout, hiov, -, hline⟩
  have hsegments : fdLoggerWrite (fun _ iov => iov.flatten.length) (some ⟨2, false⟩)
      ⟨⟨0, 0⟩, ⟨0, 0⟩⟩ ⟨1, 0⟩ 5 [] [104, 105] [] =
      some ⟨5, some [[0, 47], [104, 105], [10]], ⟨⟨0, 0⟩, ⟨0, 0⟩⟩⟩ := by decide
  rw [hsegments] at hout
  obtain rfl := Option.some.inj hout
  obtain rfl := Option.some.inj hiov
  exact hline.noNul [0, 47] rfl (by decide)

end Sancus.Log
