import Sancus.Tcp.Run
import Sancus.Time.Compare

namespace Sancus.Tcp

open CModel Time

/-!
# TCP connections — idle time

A connection is touched with the time of the loop when it is read from, and
`sancus_tcp_conn_elapsed` is to tell how long ago that was.  It gives the last activity to
`sancus_time_elapsed` as the time that it is now.

* `sancusTcpConnElapsed` — the macro, with the time of the loop it reads;
* `sancusTcpConnElapsed_touched` — no time has ever elapsed, however long ago the connection was
  touched;
* `conn_elapsed_exact_iff` — and so it is right at the time of the touch only.
-/

variable {self : SancusTcpConn} {s s' : State} {revents : Revents} {now t0 t1 : Timespec}

/-- `sancus_tcp_conn_elapsed`, whose first argument is the `now` of `sancus_time_elapsed`. -/
def sancusTcpConnElapsed (self : SancusTcpConn) (now : Timespec) : Option Timespec :=
  sancusTimeElapsed self.lastActivity now

@[simp] theorem sancusTcpConnTouch_lastActivity (self : SancusTcpConn) (now : Timespec) :
    (sancusTcpConnTouch self now).lastActivity = now := rfl

/-- The canonical timespec of no time. -/
theorem exact_zero_iff {t : Timespec} : t.Exact 0 ↔ t = ⟨0, 0⟩ := by
  constructor
  · rintro ⟨hcan, hvalue⟩
    rw [eq_ofNs hcan (by omega), hvalue]
    rfl
  · rintro rfl
    exact ⟨by decide, rfl⟩

/-- What has elapsed since a touch: what is left of the time up to it, which has passed. -/
theorem sancusTcpConnElapsed_touched (h0 : t0.Canonical) (h1 : t1.Canonical)
    (hpos : 0 ≤ t0.value) (hle : t0.value ≤ t1.value) (hmax : t1.tv_sec ≤ LONG_MAX)
    (hint : t1.tv_sec - t0.tv_sec ≤ INT_MAX) (htouched : self.lastActivity = t0) :
    sancusTcpConnElapsed self t1 = some ⟨0, 0⟩ := by
  have hsec : t0.tv_sec ≤ t1.tv_sec := by
    by_contra hlt
    have hvalue := value_lt_of_sec_lt h1 h0 (not_le.mp hlt)
    omega
  rw [LONG_MAX] at hmax
  rw [INT_MAX] at hint
  obtain ⟨t, ht, hexact⟩ := sancusTimeLeft_exact (a := t1) (b := t0) h1 h0 (by omega) hpos
    (by rw [LONG_MAX]; omega) (by rw [INT_MAX]; omega) (by rw [INT_MAX]; omega)
  rw [max_eq_left (by omega)] at hexact
  rw [sancusTcpConnElapsed, htouched, ← exact_zero_iff.mp hexact]
  exact ht

/-- So a connection that has just been connected or read from never becomes idle. -/
theorem EventStep.elapsed (h : EventStep revents t0 s s') (ha : s'.aborted = false)
    (hcalls : Calls s s' .onConnect ∨ Calls s s' .onRead) (h0 : t0.Canonical) (h1 : t1.Canonical)
    (hpos : 0 ≤ t0.value) (hle : t0.value ≤ t1.value) (hmax : t1.tv_sec ≤ LONG_MAX)
    (hint : t1.tv_sec - t0.tv_sec ≤ INT_MAX) :
    sancusTcpConnElapsed s'.conn t1 = some ⟨0, 0⟩ :=
  sancusTcpConnElapsed_touched h0 h1 hpos hle hmax hint (h.touched ha hcalls)

/-- **When the idle time is right.**  For every connection touched at a time of the loop and
    every time of the loop after it, both canonical and not negative and with seconds that differ
    by what an `int` can hold: exactly at the time of the touch. -/
theorem conn_elapsed_exact_iff (self : SancusTcpConn) (t0 t1 : Timespec) (h0 : t0.Canonical)
    (h1 : t1.Canonical) (hpos : 0 ≤ t0.value) (hle : t0.value ≤ t1.value)
    (hmax : t1.tv_sec ≤ LONG_MAX) (hint : t1.tv_sec - t0.tv_sec ≤ INT_MAX) :
    (∃ t, sancusTcpConnElapsed (sancusTcpConnTouch self t0) t1 = some t ∧
      t.Exact (t1.value - t0.value)) ↔ t1 = t0 := by
  have helapsed : sancusTcpConnElapsed (sancusTcpConnTouch self t0) t1 = some ⟨0, 0⟩ :=
    sancusTcpConnElapsed_touched h0 h1 hpos hle hmax hint rfl
  rw [helapsed]
  constructor
  · rintro ⟨t, ht, hexact⟩
    obtain rfl := Option.some.inj ht
    have hzero : (0 : Int) = t1.value - t0.value := hexact.2
    rw [eq_ofNs h1 (by omega), eq_ofNs h0 hpos]
    congr 1
    omega
  · rintro rfl
    refine ⟨_, rfl, ?_⟩
    rw [Int.sub_self]
    exact exact_zero_iff.mpr rfl

/-- The rule at half a second after the touch. -/
theorem conn_elapsed_exact_iff_half :
    (∃ t, sancusTcpConnElapsed (sancusTcpConnTouch (initTcp 5 true ⟨0, 0⟩ 0) ⟨3, 0⟩)
        ⟨3, 500000000⟩ = some t ∧
      t.Exact (Timespec.value ⟨3, 500000000⟩ - Timespec.value ⟨3, 0⟩)) ↔
      (⟨3, 500000000⟩ : Timespec) = ⟨3, 0⟩ :=
  conn_elapsed_exact_iff (initTcp 5 true ⟨0, 0⟩ 0) ⟨3, 0⟩ ⟨3, 500000000⟩ (by decide) (by decide)
    (by decide) (by decide) (by decide) (by decide)

/-- **Never idle.**  A minute after a connection was touched, no time has elapsed. -/
theorem conn_never_idle :
    sancusTcpConnElapsed (sancusTcpConnTouch (initTcp 5 true ⟨0, 0⟩ 0) ⟨3, 0⟩) ⟨63, 0⟩ =
        some ⟨0, 0⟩ ∧
      ¬ ∃ t, sancusTcpConnElapsed (sancusTcpConnTouch (initTcp 5 true ⟨0, 0⟩ 0) ⟨3, 0⟩) ⟨63, 0⟩ =
        some t ∧ t.Exact (Timespec.value ⟨63, 0⟩ - Timespec.value ⟨3, 0⟩) := by
  have hzero : sancusTcpConnElapsed (sancusTcpConnTouch (initTcp 5 true ⟨0, 0⟩ 0) ⟨3, 0⟩) ⟨63, 0⟩ =
      some ⟨0, 0⟩ := by decide
  refine ⟨hzero, ?_⟩
  rintro ⟨t, ht, hexact⟩
  obtain rfl := Option.some.inj (hzero.symm.trans ht)
  exact absurd hexact.2 (by decide)

end Sancus.Tcp
