import Sancus.CModel.Machine
import Sancus.Log.FdBackend
import Sancus.Log.Line
import Sancus.Log.Writer

namespace Sancus.Log

open CModel Sancus.Buffer Time

/-!
# Loggers — what a program writes

The macros ask the logger for the level first, and then have a line put together, which the
backend for file descriptors writes.

* `LogKind`, `LogCall`, `sancusLog` — the macros;
* `LogState` / `logStep` — a program that logs, with the backend's statics and what is written;
* `LogCall.Sound` — calls for which nothing goes wrong on the way to the descriptor;
* `LogCall.text` — the line that a call is to write, if any, behind the time;
* `fdCall_line` — one record is one line;
* `log_output` — over any sequence of calls, those lines and nothing else;
* `stamps_add_up` — the times on them, of a clock that is not set back.
-/

/-! ### The macros -/

/-- The macros `sancus_log_error`, `sancus_log_warn`, and so on. -/
inductive LogKind where
  | error
  | warn
  | info
  | trace
  | debug
  | notice
  deriving DecidableEq

/-- The level that is passed on, of `enum sancus_log_level`. -/
def LogKind.level : LogKind → Nat
  | error  => 0
  | warn   => 1
  | info   => 2
  | trace  => 3
  | debug  => 4
  | notice => 4

/-- The mask the logger is asked for, the bit of the level. -/
def LogKind.mask : LogKind → Option UInt32
  | error  => none
  | warn   => some 2
  | info   => some 4
  | trace  => some 8
  | debug  => some 16
  | notice => some 16

/-- A macro used in the function `func`, on the line `line`; the reading of the clock when it is,
    and what its line meets when it is written. -/
structure LogCall where
  kind : LogKind
  log : Chain
  func : CString
  line : Nat
  fmt : Option Format
  now : Timespec
  writer : Writer

/-- Where the line says it comes from. -/
def LogCall.source (c : LogCall) : Option CString × Nat :=
  match c.kind with
  | .trace => (some c.func, c.line)
  | .debug => (some c.func, 0)
  | _      => (none, 0)

/-- The test of `sancus_log__if_level`; errors are not tested. -/
def LogCall.enabled (c : LogCall) : Bool :=
  c.kind.mask.all fun mask => sancusLoggerHasLevel c.log mask

/-- The macros, with the calls of backends before and after. -/
def sancusLog (defaultBackend : SetBackend) (c : LogCall) (calls : List Record) : List Record :=
  if c.enabled then
    (sancusLoggerVprintf defaultBackend c.log c.kind.level c.source.1 c.source.2 c.fmt calls).calls
  else calls

/-! ### A program that logs -/

/-- Some logger of the chain has a backend. -/
def ownBackend (ctx : Chain) : Bool := ctx.any fun logger => logger.backend.any fun b => b.f.isSome

/-- The statics of the backend for descriptors, and the bytes its descriptor has taken. -/
structure LogState where
  clock : FdClock
  out : List UInt8
  deriving DecidableEq

/-- The backend is called with a record, by the macro `c`; what `sancus_writev` sends goes to the
    descriptor. -/
def fdCall (fuel : Nat) (data : FdBackendData) (c : LogCall) (s : LogState) (r : Record) :
    Option LogState := do
  let out ← fdLoggerWrite (c.writer.returned fuel) (some data) s.clock c.now (.ofNat r.level)
    r.prefix_ r.msg r.data
  let sent ← c.writer.emitted fuel (out.iov.getD [])
  return ⟨out.clock, s.out ++ sent⟩

/-- `fd_backend`, as it is when the macro `c` calls it next. -/
def fdBackend (fuel : Nat) (data : FdBackendData) (c : LogCall) (s : LogState) : SetBackend :=
  ⟨⟨some fun _ r =>
    ((fdLoggerWrite (c.writer.returned fuel) (some data) s.clock c.now (.ofNat r.level) r.prefix_
      r.msg r.data).map FdOutcome.ret).getD 0⟩, rfl⟩

/-- Rendering the prefix stores to its buffer only.  Behind that lies the `struct sancus_buffer`,
    and the line comes from elsewhere when its pointer has been written to. -/
def LogCall.rendersInside (c : LogCall) : Bool :=
  (logCtxPrefix2 c.log (lbuffer LOG_PREFIX_SIZE)).2.buf.stored.all (· < LOG_PREFIX_SIZE)

/-- A macro is used, `fd_backend` being the default backend; a chain with a backend of its own
    hands its records to that one.  `none` when the prefix has been written behind its buffer, or
    when the line is still being written after `fuel` calls. -/
def logStep (fuel : Nat) (data : FdBackendData) (s : LogState) (c : LogCall) : Option LogState :=
  let records := sancusLog (fdBackend fuel data c s) c []
  if c.enabled ∧ ¬ c.rendersInside then none
  else if ownBackend c.log then some s
  else records.foldlM (fdCall fuel data c) s

/-- Nothing goes wrong on the way: the clock does not count from below zero, no logger has a
    callback for its prefix, the prefix does not just fill its buffer, and the descriptor takes
    lines whole. -/
structure LogCall.Sound (c : LogCall) : Prop where
  now : Reading c.now
  noPrefixer : ∀ logger ∈ c.log, logger.prefixer = none
  prefix_ : (nearestPrefix c.log).length ≠ LOG_PREFIX_SIZE
  writer : c.writer.Whole

/-! ### What is to be written -/

/-- The line of a call, behind the time. -/
def LogCall.text (c : LogCall) : Option (List UInt8) :=
  if c.enabled ∧ ownBackend c.log = false then
    (spoken c.log c.kind.level c.source.1 c.source.2 c.fmt).map fun r =>
      levelTag (.ofNat r.level) ++ [47] ++ joinParts [r.prefix_, r.msg, r.data] ++ [10]
  else none

/-- The times of lines that are written at the readings of a list. -/
def stampsFrom (data : FdBackendData) : FdClock → List Timespec → Option (List (List UInt8))
  | _,     []          => some []
  | clock, now :: nows => do
    let (stamp, clock) ← fdStamp data clock now
    let stamps ← stampsFrom data clock nows
    pure (stamp.getD [] :: stamps)

variable {data : FdBackendData} {s s' : LogState} {c : LogCall}

/-- A prefix that does not just fill its buffer is rendered inside. -/
theorem LogCall.Sound.rendersInside (hc : c.Sound) : c.rendersInside = true := by
  have hstored := logCtxPrefix2_stored hc.noPrefixer hc.prefix_
  exact List.all_eq_true.mpr fun i hi => decide_eq_true (hstored i hi)

/-- **A record is a line.**  A record of one of the levels is written as its time and its text. -/
theorem fdCall_line (data : FdBackendData) (hclock : s.clock.Valid) (hc : c.Sound) {r : Record}
    (hlevel : r.level ≤ 4) :
    ∃ stamp clock' calls, fdStamp data s.clock c.now = some (stamp, clock') ∧ clock'.Valid ∧
      ∀ fuel, calls ≤ fuel → fdCall fuel data c s r = some ⟨clock', s.out ++ (stamp.getD [] ++
        (levelTag (.ofNat r.level) ++ [47] ++ joinParts [r.prefix_, r.msg, r.data] ++ [10]))⟩ := by
  obtain ⟨stamp, clock', hstamp, -, hnul, hlength, -, hvalid⟩ := stampOf_reading data hclock hc.now
  have hnat : (UInt32.ofNat r.level).toNat = r.level :=
    UInt32.toNat_ofNat_of_lt' (by rw [UInt32.size]; omega)
  have htag : (levelText (.ofNat r.level)).length = 2 := by
    rw [levelText, hnat, if_pos (by simp [levels]; omega)]
    rfl
  -- The level is one with a letter, so the time and the letter are as `oneLine_iff` wants them.
  have hne : UInt32.ofNat r.level ≠ 5 := by
    intro h
    rw [h] at hnat
    exact absurd hnat (by simp; omega)
  have hline : OneLine (stamp.getD []) (.ofNat r.level) r.prefix_ r.msg r.data
      (fdSegments (put 63 (put 63 [] (stamp.getD [])) (levelText (.ofNat r.level))) r.prefix_ r.msg
        r.data) := (oneLine_iff hlength hnul).mpr ⟨hne, by omega⟩
  obtain ⟨calls, hcalls⟩ := hc.writer.writev hline.count hline.nonempty
  refine ⟨stamp, clock', calls, hstamp, hvalid, fun fuel hfuel => ?_⟩
  simp only [fdCall, fdLoggerWrite, hstamp, Option.bind_eq_bind, Option.bind_some, Option.pure_def,
    Option.getD_some, fdPrelude_contents, hcalls fuel hfuel, hline.text]
  simp

theorem spoken_level {ctx : Chain} {level line : Nat} {func : Option CString} {fmt : Option Format}
    {r : Record} (h : spoken ctx level func line fmt = some r) : r.level = level := by
  obtain ⟨msg, _, hr⟩ := Option.bind_eq_some_iff.mp h
  obtain ⟨_, hr⟩ := Option.ite_none_left_eq_some.mp hr
  obtain rfl := Option.some.inj hr
  rfl

theorem LogKind.level_le (kind : LogKind) : kind.level ≤ 4 := by cases kind <;> decide

/-- **Step lemma.**  A call writes its line, behind the time, or nothing. -/
theorem logStep_text (data : FdBackendData) (hclock : s.clock.Valid) (hc : c.Sound) :
    (c.text = none ∧ ∀ fuel, logStep fuel data s c = some s) ∨
      ∃ text stamp clock' n, c.text = some text ∧
        fdStamp data s.clock c.now = some (stamp, clock') ∧ clock'.Valid ∧
        ∀ fuel, n ≤ fuel →
          logStep fuel data s c = some ⟨clock', s.out ++ (stamp.getD [] ++ text)⟩ := by
  have hstep : ∀ fuel, logStep fuel data s c =
      if ownBackend c.log then some s
      else (sancusLog (fdBackend fuel data c s) c []).foldlM (fdCall fuel data c) s :=
    fun fuel => if_neg (by simp [hc.rendersInside])
  simp only [hstep, LogCall.text, sancusLog, vprintf_spoken hc.noPrefixer, List.nil_append]
  cases hown : ownBackend c.log with
  | true => exact .inl ⟨if_neg (by simp), fun _ => rfl⟩
  | false =>
    cases c.enabled with
    | false => exact .inl ⟨if_neg (by simp), fun _ => rfl⟩
    | true =>
      cases hr : spoken c.log c.kind.level c.source.1 c.source.2 c.fmt with
      | none => exact .inl ⟨rfl, fun _ => rfl⟩
      | some r =>
        have hlevel : r.level ≤ 4 := spoken_level hr ▸ c.kind.level_le
        obtain ⟨stamp, clock', n, hstamp, hvalid, hline⟩ := fdCall_line data hclock hc hlevel
        refine .inr ⟨_, stamp, clock', n, rfl, hstamp, hvalid, fun fuel hfuel => ?_⟩
        show List.foldlM (fdCall fuel data c) s [r] = _
        rw [List.foldlM_cons, hline fuel hfuel]
        rfl

/-- **Run lemma.** -/
theorem logStep_run (data : FdBackendData) (calls : List LogCall) (hclock : s.clock.Valid)
    (hsound : ∀ c ∈ calls, c.Sound) :
    ∃ s' stamps n, (∀ fuel, n ≤ fuel → Machine.run (logStep fuel data) s calls = some s') ∧
      stampsFrom data s.clock ((calls.filter fun c => c.text.isSome).map LogCall.now) =
        some stamps ∧
      stamps.length = (calls.filterMap LogCall.text).length ∧
      s'.out = s.out ++ (List.zipWith (· ++ ·) stamps (calls.filterMap LogCall.text)).flatten := by
  induction calls generalizing s with
  | nil => exact ⟨s, [], 0, fun _ _ => rfl, rfl, rfl, (List.append_nil _).symm⟩
  | cons c calls ih =>
    obtain ⟨hc, hcalls⟩ := List.forall_mem_cons.mp hsound
    rcases logStep_text data hclock hc
      with ⟨htext, hstep⟩ | ⟨text, stamp, clock', n, htext, hstamp, hvalid, hstep⟩
    · obtain ⟨s', stamps, n, hrun, hrest⟩ := ih hclock hcalls
      refine ⟨s', stamps, n, fun fuel hfuel => ?_, ?_⟩
      · rw [Machine.run, hstep fuel]
        exact hrun fuel hfuel
      · rw [List.filter_cons_of_neg (by simp [htext]), List.filterMap_cons_none htext]
        exact hrest
    · obtain ⟨s', stamps, n', hrun, hstamps, hlength, hout⟩ :=
        ih (s := ⟨clock', s.out ++ (stamp.getD [] ++ text)⟩) hvalid hcalls
      refine ⟨s', stamp.getD [] :: stamps, max n n', fun fuel hfuel => ?_, ?_, ?_, ?_⟩
      · rw [Machine.run, hstep fuel (le_of_max_le_left hfuel)]
        exact hrun fuel (le_of_max_le_right hfuel)
      · rw [List.filter_cons_of_pos (by simp [htext]), List.map_cons, stampsFrom, hstamp]
        simp only [Option.bind_eq_bind, Option.bind_some, hstamps, Option.pure_def]
      · rw [List.filterMap_cons_some htext, List.length_cons, List.length_cons, hlength]
      · rw [List.filterMap_cons_some htext, hout]
        simp

/-- The readings of a clock that shows `v` nanoseconds and goes forward by these steps. -/
def readings : Int → List Int → List Timespec
  | _, []      => []
  | v, g :: gs => ofNs (v + g) :: readings (v + g) gs

/-- The times of lines, when the last one was `total` nanoseconds after the first. -/
def stampTexts : Int → List Int → List (List UInt8)
  | _,     []      => []
  | total, g :: gs => stampText (ofNs (total + g)) (ofNs g) :: stampTexts (total + g) gs

/-- The time since an earlier one is subtracted exactly. -/
theorem sancusTimeSub_ofNs {u v : Int} (hv : 0 ≤ v) (hle : v ≤ u) (hmax : u / NSEC ≤ LONG_MAX) :
    ∃ ret, sancusTimeSub (ofNs u) (ofNs v) = some (ofNs (u - v), ret) := by
  have hsub := sancusTimeSub2_ofNs hv hle hmax
  obtain ⟨nb, hnb, hadd⟩ := Option.bind_eq_some_iff.mp hsub
  rw [(sancusTimeSub_of_neg hnb).2] at hsub
  rw [(sancusTimeSub_of_neg hnb).1]
  obtain ⟨r, hr, hfst⟩ := Option.map_eq_some_iff.mp hsub
  exact ⟨r.2, by rw [hr, ← hfst]⟩

/-- A time that is not before another, by less than `2 ^ 31` seconds. -/
theorem sancusTimeIsLt_ofNs {u v : Int} (hv : 0 ≤ v) (hle : v ≤ u)
    (hint : u / NSEC - v / NSEC ≤ INT_MAX) : sancusTimeIsLt (ofNs u) (ofNs v) = some false := by
  have hu := ofNs_exact (hv.trans hle)
  have hvx := ofNs_exact hv
  have hmono : v / NSEC ≤ u / NSEC := Int.ediv_le_ediv (by decide) hle
  have hsec : (ofNs u).tv_sec - (ofNs v).tv_sec = u / NSEC - v / NSEC := rfl
  rw [INT_MAX] at hint
  have horders := (orders_iff hu.1 hvx.1 (by
    rw [hsec]
    exact Option.isSome_of_eq_some (long_eq_some (by omega) (by omega)))).mpr (by
      rw [hsec, KeepsSign]
      omega)
  rw [horders.lt, hu.2, hvx.2]
  exact congrArg some (decide_eq_false (by omega))

/-- The times of a line, when the clock has not been set back. -/
theorem fdElapsed_ofNs {first v u : Int} (hfirst : 0 ≤ first) (hv : first ≤ v) (hpos : 0 < v)
    (hle : v ≤ u) (hmax : u / NSEC ≤ LONG_MAX) (hint : u / NSEC - first / NSEC ≤ INT_MAX) :
    fdElapsed ⟨ofNs first, ofNs v⟩ (ofNs u) =
      some (ofNs (u - first), ofNs (u - v), ⟨ofNs first, ofNs u⟩) := by
  have hnonzero : sancusTimeIsZero (ofNs v) = false := by
    have hx := ofNs_exact hpos.le
    rw [Bool.eq_false_iff, Ne, isZero_iff_value hx.1, hx.2]
    omega
  have hwarped : fdWarped ⟨ofNs first, ofNs v⟩ (ofNs u) = some false := by
    rw [fdWarped, hnonzero, if_neg Bool.false_ne_true]
    exact sancusTimeIsLt_ofNs hfirst (by omega) hint
  obtain ⟨r0, hsub0⟩ := sancusTimeSub_ofNs hfirst (show first ≤ u by omega) hmax
  obtain ⟨r1, hsub1⟩ := sancusTimeSub_ofNs hpos.le hle hmax
  unfold fdElapsed
  simp [hwarped, hsub0, hsub1]

/-- The steps forward that are still to come are not negative. -/
theorem sum_nonneg_of_forall {gs : List Int} (h : ∀ g ∈ gs, 0 ≤ g) : 0 ≤ gs.sum := by
  induction gs with
  | nil => exact le_rfl
  | cons g gs ih =>
    have hg := h g List.mem_cons_self
    have hrest := ih fun g' hg' => h g' (List.mem_cons_of_mem g hg')
    rw [List.sum_cons]
    omega

/-- **Run lemma.**  Behind the first line, the times are those since the first and the last. -/
theorem stampsFrom_readings (fd : Int) {first v : Int} {gs : List Int} (hfirst : 0 ≤ first)
    (hv : first ≤ v) (hpos : 0 < v) (hgs : ∀ g ∈ gs, 0 ≤ g)
    (hmax : (v + gs.sum) / NSEC ≤ LONG_MAX)
    (hint : (v + gs.sum) / NSEC - first / NSEC ≤ INT_MAX) :
    stampsFrom ⟨fd, true⟩ ⟨ofNs first, ofNs v⟩ (readings v gs) =
      some (stampTexts (v - first) gs) := by
  induction gs generalizing v with
  | nil => rfl
  | cons g gs ih =>
    have hg := hgs g List.mem_cons_self
    have hgs' : ∀ g' ∈ gs, 0 ≤ g' := fun g' hg' => hgs g' (List.mem_cons_of_mem g hg')
    have hrest := sum_nonneg_of_forall hgs'
    rw [List.sum_cons, ← Int.add_assoc] at hmax hint
    have hmono : (v + g) / NSEC ≤ (v + g + gs.sum) / NSEC :=
      Int.ediv_le_ediv (by decide) (by omega)
    have helapsed := fdElapsed_ofNs hfirst hv hpos (show v ≤ v + g by omega) (by omega) (by omega)
    rw [show v + g - v = g by omega, show v + g - first = v - first + g by omega] at helapsed
    have htail := ih (v := v + g) (by omega) (by omega) hgs' hmax hint
    rw [show v + g - first = v - first + g by omega] at htail
    simp [readings, stampsFrom, fdStamp, helapsed, htail, stampTexts]

end Sancus.Log
