import Sancus.Fd.Closing

namespace Sancus.Serial

open CModel
open Fd (Outcomes CloseAnswers holding usesOf)

/-!
# Serial ports — opening, applying, closing

A serial line has settings of its own, which outlive the descriptors of the programs that use it.
`sancus_serial_open` keeps those it finds, and `sancus_serial_close` puts them back.  Neither
`tcgetattr` nor `tcsetattr` is taken at its word.

* `Termios` — the settings, and the bytes of the structure that belong to none of them;
* `sancusSerialOpen` / `sancusSerialApply` / `sancusSerialClose` — the functions;
* `portComponent` — a port as a component that holds a descriptor;
* `PortOk` / `portOk_keeps` — the invariant, and that every step keeps it;
* `serial_restores` — over runs of any number of ports.
-/

/-! ### The model -/

/-- The members of `struct termios`. -/
structure Settings where
  c_iflag : UInt32
  c_oflag : UInt32
  c_cflag : UInt32
  c_lflag : UInt32
  c_line : UInt8
  c_cc : List UInt8
  c_ispeed : UInt32
  c_ospeed : UInt32
  deriving DecidableEq

/-- `struct termios` in memory: its members, and the bytes between them, which `memcpy` and
    `memcmp` see as well. -/
structure Termios where
  settings : Settings
  padding : List UInt8
  deriving DecidableEq

/-- What `tcgetattr` answers: it fails, or stores the settings of the line.  It may leave the
    other bytes as they are or not. -/
inductive GetReply where
  | failed (errno : Nat)
  | stored (padding : Option (List UInt8))

/-- The structure after `tcgetattr`, on a line with the settings `line`. -/
def GetReply.get (line : Settings) (tio : Termios) : GetReply → Option Termios
  | failed _       => none
  | stored padding => some ⟨line, padding.getD tio.padding⟩

/-- What `tcsetattr` answers, and the settings of the line after it: it succeeds if any of the
    changes could be made. -/
structure SetReply where
  errno : Option Nat
  line : Settings

/-- `struct sancus_serial`. -/
structure SancusSerial where
  fd : Int
  oldtio : Termios

def O_RDWR : UInt32 := 2
def O_NOCTTY : UInt32 := 0o400

/-- What `sancus_serial_open` leaves: the port, the termios it has handed out, and what it has
    done with descriptors. -/
structure Opened where
  self : SancusSerial
  copy : Option Termios
  uses : List (Use Nat)

/-- `sancus_serial_open` on a line with the settings `line`, with a bound on the calls of
    `openat`; the `fd` of the port is what it returns. -/
def sancusSerialOpen (fuel : Nat) (out : Outcomes) (self : SancusSerial) (pathname : CString)
    (cloexec : Int) (copy : Bool) (line : Settings) (get : GetReply) : Option Opened :=
  let flags := O_RDWR ||| O_NOCTTY ||| Fd.O_NONBLOCK
  (Fd.sancusOpen fuel out pathname flags cloexec 0).map fun (fd, t) =>
    if fd < 0 then ⟨{ self with fd }, none, usesOf t⟩
    else
      match get.get line self.oldtio with
      | none     => ⟨{ self with fd := -1 }, none, usesOf (out.closing fd.toNat t)⟩
      | some tio => ⟨⟨fd, tio⟩, if copy then some tio else none, usesOf t⟩

/-- `sancus_serial_apply`, and the settings of the line after it. -/
def sancusSerialApply (tio : Termios) (set : SetReply) (get : GetReply) : Int × Settings :=
  if set.errno.isSome then (-1, set.line)
  else
    -- `newtio` is a copy of `tio` before `tcgetattr` stores to it.
    match get.get set.line tio with
    | none        => (-1, set.line)
    | some newtio => if tio ≠ newtio then (-1, set.line) else (0, set.line)

/-- What has been done with a port: settings were applied, or it was closed; with the result, and
    the settings of the line then. -/
inductive Entry where
  | applied (tio : Termios) (ret : Int) (line : Settings)
  | closed (ret : Int) (line : Settings)

/-- A port that has been opened, on a line that had the settings `found` then. -/
structure Port where
  self : SancusSerial
  copy : Option Termios
  found : Settings
  trace : List Entry

/-- What a port is opened with. -/
structure PortSetup where
  fuel : Nat
  out : Outcomes
  self : SancusSerial
  pathname : CString
  cloexec : Int
  copy : Bool
  line : Settings
  get : GetReply

/-- What happens to a port, with what the calls answer. -/
inductive Label where
  | apply (tio : Termios) (set : SetReply) (get : GetReply)
  | close (set : SetReply) (get : GetReply) (answers : CloseAnswers)

/-- The port is there if a descriptor is. -/
def portMake (b : PortSetup) : Option (Made Port Nat) :=
  (sancusSerialOpen b.fuel b.out b.self b.pathname b.cloexec b.copy b.line b.get).map fun opened =>
    ⟨0, opened.uses,
      if 0 ≤ opened.self.fd then some ⟨opened.self, opened.copy, b.line, []⟩ else none⟩

/-- One step of a port; `none` when the assertion that it is open fails. -/
def portStep (port : Port) : Label → Option (Port × List (Use Nat))
  | .apply tio set get     =>
    if 0 ≤ port.self.fd then
      let r := sancusSerialApply tio set get
      some ({ port with trace := port.trace ++ [.applied tio r.1 r.2] }, [])
    else none
  | .close set get answers =>
    if 0 ≤ port.self.fd then
      let r := sancusSerialApply port.self.oldtio set get
      -- `sancus_close2`
      some ({ port with
        self := { port.self with fd := -1 }
        trace := port.trace ++ [.closed r.1 r.2] },
          usesOf (Fd.sancusClose port.self.fd.toNat answers).2)
    else none

/-! ### Applying settings -/

variable {tio : Termios} {set : SetReply} {get : GetReply}

/-- **Applying is checked.**  It returns 0 exactly if both calls succeed, the line has the settings
    that were asked for, and the other bytes are as they were. -/
theorem apply_zero_iff : (sancusSerialApply tio set get).1 = 0 ↔
    set.errno = none ∧ set.line = tio.settings ∧
      ∃ padding, get = .stored padding ∧ padding.getD tio.padding = tio.padding := by
  unfold sancusSerialApply
  cases hset : set.errno with
  | some e => simp
  | none =>
    cases get with
    | failed e => simp [GetReply.get]
    | stored padding =>
      obtain ⟨settings, bytes⟩ := tio
      by_cases h : (⟨settings, bytes⟩ : Termios) = ⟨set.line, padding.getD bytes⟩
      · obtain ⟨hsettings, hbytes⟩ := Termios.mk.inj h
        simp [GetReply.get, ← hsettings, ← hbytes]
      · have hne : ¬ (set.line = settings ∧ padding.getD bytes = bytes) :=
          fun hboth => h (by rw [hboth.1, hboth.2])
        simpa [GetReply.get, h] using hne

theorem apply_line : (sancusSerialApply tio set get).2 = set.line := by
  unfold sancusSerialApply
  split
  · rfl
  · split
    · rfl
    · split <;> rfl

/-! ### A port as a component -/

/-- **Opening is disciplined.**  A port that is there holds its descriptor; one that could not be
    opened, or whose settings could not be read, holds nothing. -/
theorem portMake_disciplined {b : PortSetup} {m : Made Port Nat} (h : portMake b = some m) :
    Disciplined m.given m.uses ((m.part.map fun port => holding port.self.fd).getD 0) := by
  obtain ⟨opened, hopen, rfl⟩ := Option.map_eq_some_iff.mp h
  obtain ⟨⟨fd, t⟩, hfd, rfl⟩ := Option.map_eq_some_iff.mp hopen
  have hheld : Disciplined 0 (usesOf t) (holding fd) := Fd.disciplined_sancusOpen hfd
  dsimp only
  by_cases hneg : fd < 0
  · have hnone : holding fd = 0 := if_neg (by omega)
    simpa [hneg, hnone, show ¬ 0 ≤ fd by omega] using hheld
  · have hfd : holding fd = {fd.toNat} := if_pos (by omega)
    rw [hfd] at hheld
    cases hget : b.get.get b.line b.self.oldtio with
    | none =>
      have hfree := hheld.append (Fd.disciplined_sancusClose fd.toNat b.out.close)
      rw [← Fd.usesOf_append, ← Outcomes.closing] at hfree
      simpa [hneg] using hfree
    | some tio => simpa [hneg, hfd, show 0 ≤ fd by omega] using hheld

def portComponent : Component Port Label PortSetup Nat where
  make := portMake
  step := portStep
  holds port := holding port.self.fd
  make_disciplined := portMake_disciplined
  step_disciplined {port a port' us} h := by
    cases a with
    | apply tio set get =>
      obtain ⟨_, h⟩ := Option.ite_none_right_eq_some.mp h
      obtain ⟨rfl, rfl⟩ := Prod.mk.inj (Option.some.inj h)
      exact .nil
    | close set get answers =>
      obtain ⟨hfd, h⟩ := Option.ite_none_right_eq_some.mp h
      obtain ⟨rfl, rfl⟩ := Prod.mk.inj (Option.some.inj h)
      rw [holding, if_pos hfd]
      exact Fd.disciplined_sancusClose port.self.fd.toNat answers

/-! ### What holds of a port -/

/-- What the entry says is so: settings that have been applied with success are those of the line
    then, and a line that has been closed with success has the settings it was found with. -/
def Entry.Right (found : Settings) : Entry → Prop
  | .applied tio ret line => ret = 0 → line = tio.settings
  | .closed ret line      => ret = 0 → line = found

def Entry.isClosed : Entry → Bool
  | .closed _ _ => true
  | _           => false

structure PortOk (port : Port) : Prop where
  oldtio : port.self.oldtio.settings = port.found
  copy : ∀ tio, port.copy = some tio → tio = port.self.oldtio
  trace : ∀ e ∈ port.trace, e.Right port.found
  once : port.trace.countP Entry.isClosed = if 0 ≤ port.self.fd then 0 else 1

/-- **Step lemma.**  A port is set up so, and every step keeps it. -/
theorem portOk_keeps : portComponent.Keeps PortOk fun _ _ => True where
  make {b m port} hm hport := by
    obtain ⟨opened, hopen, rfl⟩ := Option.map_eq_some_iff.mp hm
    obtain ⟨⟨fd, t⟩, _, rfl⟩ := Option.map_eq_some_iff.mp hopen
    obtain ⟨hfd, hport⟩ := Option.ite_none_right_eq_some.mp hport
    obtain rfl := Option.some.inj hport
    dsimp only at hfd ⊢
    by_cases hneg : fd < 0
    · rw [if_pos hneg] at hfd
      exact absurd hfd (not_le.mpr hneg)
    · rw [if_neg hneg] at hfd ⊢
      cases hget : b.get.get b.line b.self.oldtio with
      | none =>
        rw [hget] at hfd
        have hminus : (0 : Int) ≤ -1 := hfd
        omega
      | some tio =>
        have htio : tio.settings = b.line := by
          cases hreply : b.get <;> rw [hreply] at hget <;> cases hget
          rfl
        rw [hget] at hfd
        refine ⟨htio, ?_, nofun, (if_pos hfd).symm⟩
        intro tio' htio'
        obtain ⟨_, htio'⟩ := Option.ite_none_right_eq_some.mp htio'
        exact (Option.some.inj htio').symm
  step {port a port' us} hok _ h := by
    cases a with
    | apply tio set get =>
      obtain ⟨hfd, h⟩ := Option.ite_none_right_eq_some.mp h
      obtain ⟨rfl, _⟩ := Prod.mk.inj (Option.some.inj h)
      refine ⟨hok.oldtio, hok.copy, ?_, ?_⟩
      · refine List.forall_mem_append.mpr ⟨hok.trace, List.forall_mem_singleton.mpr ?_⟩
        intro hret
        rw [apply_line]
        exact (apply_zero_iff.mp hret).2.1
      · simpa [Entry.isClosed] using hok.once
    | close set get answers =>
      obtain ⟨hfd, h⟩ := Option.ite_none_right_eq_some.mp h
      obtain ⟨rfl, _⟩ := Prod.mk.inj (Option.some.inj h)
      have honce := hok.once
      rw [if_pos hfd] at honce
      refine ⟨hok.oldtio, hok.copy, ?_, ?_⟩
      · refine List.forall_mem_append.mpr ⟨hok.trace, List.forall_mem_singleton.mpr ?_⟩
        intro hret
        rw [apply_line, ← hok.oldtio]
        exact (apply_zero_iff.mp hret).2.1
      · simp [honce, Entry.isClosed]

/-- **Lines are given back as they were found.**  In every run of a program with any number of
    serial ports, whatever the kernel answers and whatever settings are applied in between, by
    this program or another: the descriptors of the ports are open, and each is closed once; the
    termios handed out is the one kept; settings whose application returned 0 were those of the
    line; and a line the closing of which returned 0 had the settings it was found with. -/
theorem serial_restores (moves : List (Pool.Move Label PortSetup Nat)) (p : Pool Port Nat)
    (hrun : Machine.run (Pool.step portComponent) Pool.empty moves = some p) :
    p.faults = [] ∧ p.live = Pool.holdings portComponent p.parts + p.kept ∧ p.live.Nodup ∧
      ∀ port ∈ p.parts, PortOk port := by
  have hsound := Pool.run_sound hrun
  refine ⟨hsound.faultless, hsound.live_eq, hsound.nodup, ?_⟩
  have hall : Machine.Along (Pool.step portComponent) (Pool.Allows fun _ _ => True) Pool.empty
      moves := by
    intro _ a _ _ _ _
    cases a with
    | part i a => exact fun _ _ => trivial
    | make b => trivial
    | acquire r => trivial
    | release r => trivial
  exact Pool.run_parts portOk_keeps hall hrun

/-- A line at 9600 baud, and at 115200. -/
def slow : Settings := ⟨0, 0, 0, 0, 0, [], 13, 13⟩
def fast : Settings := ⟨0, 0, 0, 0, 0, [], 4098, 4098⟩

/-- A port is opened at 9600 baud, used at 115200, and closed, which is interrupted once. -/
def usedFast : List (Pool.Move Label PortSetup Nat) :=
  [.make ⟨1, Fd.outcomesOf [], ⟨-1, ⟨fast, []⟩⟩, CString.ofBytes [], 0, true, slow, .stored none⟩,
    .part 0 (.apply ⟨fast, []⟩ ⟨none, fast⟩ (.stored none)),
    .part 0 (.close ⟨none, slow⟩ (.stored none) (.interrupted .closed))]

/-- The rule for that run. -/
theorem serial_restores_fast :
    ∃ p port, Machine.run (Pool.step portComponent) Pool.empty usedFast = some p ∧
      p.parts = [port] ∧ port.trace = [.applied ⟨fast, []⟩ 0 fast, .closed 0 slow] ∧
      PortOk port := by
  refine ⟨_, _, rfl, rfl, rfl, ?_⟩
  exact (serial_restores usedFast _ rfl).2.2.2 _ (List.mem_singleton_self _)

end Sancus.Serial
