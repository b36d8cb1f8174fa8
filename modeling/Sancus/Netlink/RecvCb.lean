import Sancus.CModel.Machine
import Sancus.Netlink.Headers

namespace Sancus.Netlink

open CModel

/-!
# Netlink — the receiver and its watcher

`recv_cb` runs when the watcher of the receiver has an event, which can be readable and in
error at once.  The application starts, stops and closes the receiver between events.

* `NlReceiver` — the watcher, its descriptor and what has been done with it;
* `recvCb` — the callback;
* `Label` / `step` — the receiver as a machine;
* `receiver_closed_iff` — what a readable event closes the descriptor for;
* `receiver_holds_open_iff` — the runs in which no active watcher has a closed descriptor.
-/

/-- `enum sancus_nl_receiver_error`. -/
inductive NlReceiverError where
  | watcherError
  | recvfromError
  deriving DecidableEq

/-- `struct sancus_nl_receiver`: the descriptor and the state of the watcher, the port id, and
    the descriptors closed and the errors reported so far. -/
structure NlReceiver where
  fd : Int
  active : Bool
  portid : Int
  closed : List Int
  errors : List NlReceiverError
  deriving DecidableEq

/-- What a successful `sancus_nl_receiver_listen` leaves. -/
def sancusNlReceiverListen (fd portid : Int) : NlReceiver := ⟨fd, false, portid, [], []⟩

/-- `sancus_close2(&w->fd)`: the field is given to `sancus_close`, and is -1 whatever that returns.
    The calls of `close(2)` that it makes are those of `Fd.sancusClose`. -/
def sancusClose2 (self : NlReceiver) : NlReceiver :=
  { self with fd := -1, closed := self.closed ++ [self.fd] }

/-- `sancus_nl_receiver_start`; `none` when its assertion fails. -/
def sancusNlReceiverStart (self : NlReceiver) : Option NlReceiver :=
  if self.active then none else some { self with active := true }

/-- `sancus_nl_receiver_stop`. -/
def sancusNlReceiverStop (self : NlReceiver) : NlReceiver := { self with active := false }

/-- `sancus_nl_receiver_close`; `none` when one of its assertions fails. -/
def sancusNlReceiverClose (self : NlReceiver) : Option NlReceiver :=
  if 0 ≤ self.fd ∧ self.active = false then some (sancusClose2 self) else none

/-! ### The callback -/

/-- What `sancus_nl_recvfrom` gives: an error, or a datagram.  `on_message` answers for the
    messages of this datagram, and the loop over them is given a bound on its rounds. -/
inductive RecvReply where
  | failed
  | datagram (fuel : Nat) (m : Mem) (recvbytes : Nat) (onMessage : List Nat → Bool)

/-- The largest `SANCUS_NL_SOCKET_BUFFER_SIZE`. -/
def SANCUS_NL_SOCKET_BUFFER_SIZE : Nat := 8192

/-- A datagram comes from an open descriptor, and fits the buffer. -/
def RecvReply.Possible (self : NlReceiver) : RecvReply → Prop
  | .failed                 => True
  | .datagram _ _ recvbytes _ => 0 ≤ self.fd ∧ recvbytes ≤ SANCUS_NL_SOCKET_BUFFER_SIZE

instance (self : NlReceiver) (reply : RecvReply) : Decidable (reply.Possible self) := by
  cases reply <;> unfold RecvReply.Possible <;> infer_instance

/-- A receiver, and whether an assertion in `recv_cb` has failed. -/
structure RecvState where
  receiver : NlReceiver
  aborted : Bool
  deriving DecidableEq

/-- The part of `recv_cb` for `SANCUS_EV_READ`; `none` when the loop has not ended. -/
def recvRead (self : NlReceiver) : RecvReply → Option NlReceiver
  | .failed => some { self with errors := self.errors ++ [.recvfromError] }
  | .datagram fuel m recvbytes onMessage =>
    (extractNetlinkMessage fuel m ⟨self.portid, onMessage⟩ recvbytes).map fun r =>
      if r.ret = 0 then sancusClose2 self else self

/-- The part of `recv_cb` for `SANCUS_EV_ERROR`. -/
def recvError (self : NlReceiver) : RecvState :=
  match sancusNlReceiverClose (sancusNlReceiverStop self) with
  | some self' => ⟨{ self' with errors := self'.errors ++ [.watcherError] }, false⟩
  | none       => ⟨sancusNlReceiverStop self, true⟩

/-- `recv_cb`: the event is readable when there is a reply, and an error when `error` is set. -/
def recvCb (self : NlReceiver) (read : Option RecvReply) (error : Bool) : Option RecvState :=
  let afterRead := match read with
    | none       => some self
    | some reply => recvRead self reply
  afterRead.map fun self' => if error then recvError self' else ⟨self', false⟩

/-! ### The machine -/

/-- What happens to a receiver: a call of the application, or an event. -/
inductive Label where
  | start
  | stop
  | close
  | event (read : Option RecvReply) (error : Bool)

/-- One step; `none` when the application may not make the call, when there can be no such
    event, or when the program is no longer there. -/
def step (s : RecvState) (a : Label) : Option RecvState :=
  if s.aborted then none
  else match a with
    | .start  => (sancusNlReceiverStart s.receiver).map fun self => ⟨self, false⟩
    | .stop   => some ⟨sancusNlReceiverStop s.receiver, false⟩
    | .close  => (sancusNlReceiverClose s.receiver).map fun self => ⟨self, false⟩
    | .event read error =>
      if s.receiver.active ∧ ∀ reply ∈ read, reply.Possible s.receiver then
        recvCb s.receiver read error
      else none

/-! ### What closes the descriptor -/

variable {self : NlReceiver} {s s' : RecvState} {a : Label} {m : Mem} {recvbytes : Nat}
  {onMessage : List Nat → Bool}

/-- Some call of `on_message` returns false while the datagram is gone through. -/
def SomeRefused (m : Mem) (self : Receiver) (recvbytes : Nat) : Prop :=
  ∃ s, Loop.Visits (extractRound m self) (extractStart recvbytes) s ∧
    roundDelivered (extractRound m self s) = s.delivered ++ [s.nlh] ∧
    self.onMessage (s.delivered ++ [s.nlh]) = false

theorem someRefused_iff {self : Receiver} :
    SomeRefused m self recvbytes ↔ Refuses m self recvbytes := by
  constructor
  · rintro ⟨s, hs, hround, hcb⟩
    obtain ⟨k, hk, rfl⟩ := visits_iff.mp hs
    obtain ⟨hpass, hdel⟩ := roundDelivered_extractRound.mp hround
    refine ⟨k, hk, ⟨hpass, hdel⟩, ?_⟩
    rw [offered_succ_of_deliverable hdel]
    exact hcb
  · rintro ⟨k, hk, hover, hcb⟩
    refine ⟨stateAt m recvbytes k, visits_iff.mpr ⟨k, hk, rfl⟩,
      roundDelivered_extractRound.mpr hover, ?_⟩
    rw [offered_succ_of_deliverable hover.2] at hcb
    exact hcb

/-- The event closes the descriptor. -/
def Closes (self : NlReceiver) (m : Mem) (recvbytes : Nat) (onMessage : List Nat → Bool) : Prop :=
  ∃ fuel s', recvCb self (some (.datagram fuel m recvbytes onMessage)) false = some s' ∧
    s'.receiver.closed = self.closed ++ [self.fd]

theorem closes_iff : Closes self m recvbytes onMessage ↔
    Refuses m ⟨self.portid, onMessage⟩ recvbytes ∨
      OnlyControl m ⟨self.portid, onMessage⟩ recvbytes := by
  rw [← extract_ret_zero_iff]
  constructor
  · rintro ⟨fuel, s', hrun, hclosed⟩
    obtain ⟨self', hread, rfl⟩ := Option.map_eq_some_iff.mp hrun
    obtain ⟨r, hr, rfl⟩ := Option.map_eq_some_iff.mp hread
    refine ⟨fuel, r, hr, ?_⟩
    by_contra hret
    simp [hret] at hclosed
  · rintro ⟨fuel, r, hr, hret⟩
    refine ⟨fuel, ⟨sancusClose2 self, false⟩, ?_, rfl⟩
    simp [recvCb, recvRead, hr, hret]

/-- A datagram of control messages only closes the descriptor, and no call was made that
    could have asked for it. -/
theorem closed_unrequested (h : OnlyControl m ⟨self.portid, onMessage⟩ recvbytes) :
    ¬ (Closes self m recvbytes onMessage ↔
      SomeRefused m ⟨self.portid, onMessage⟩ recvbytes) := by
  rw [closes_iff, someRefused_iff]
  intro hiff
  exact (hiff.mp (.inr h)).not_onlyControl h

/-- **When a receiver is closed on request only.**  Whatever a readable event brings, the
    descriptor is closed exactly when some call of `on_message` returned false, if and only if
    the datagram is not one in which the loop passes control messages only before it ends. -/
theorem receiver_closed_iff (self : NlReceiver) (m : Mem) (recvbytes : Nat)
    (onMessage : List Nat → Bool) :
    (Closes self m recvbytes onMessage ↔ SomeRefused m ⟨self.portid, onMessage⟩ recvbytes) ↔
      ¬ OnlyControl m ⟨self.portid, onMessage⟩ recvbytes := by
  constructor
  · intro h hcontrol
    exact closed_unrequested hcontrol h
  · intro hcontrol
    rw [closes_iff, someRefused_iff]
    exact or_iff_left hcontrol

/-- **Closed by a message that is not delivered.**  A datagram of one control message leaves
    the value returned at its initial 0, which is taken for a refusal. -/
theorem receiver_closed_by_noop :
    ¬ (Closes (sancusNlReceiverListen 3 0) (Mem.ofBytes (datagram [noop])) 16 (fun _ => true) ↔
      SomeRefused (Mem.ofBytes (datagram [noop])) ⟨0, fun _ => true⟩ 16) := by
  apply closed_unrequested
  refine ⟨1, ?_, by decide⟩
  intro j hj
  obtain rfl : j = 0 := by omega
  exact ⟨⟨by decide, by decide⟩, by decide⟩

/-! ### Runs of the receiver -/

/-- No assertion has failed in `recv_cb`, and an active watcher has an open descriptor. -/
structure HoldsOpen (s : RecvState) : Prop where
  asserted : s.aborted = false
  open_of_active : s.receiver.active = true → 0 ≤ s.receiver.fd

/-- The datagram is one on which the loop returns 0. -/
def ReturnsZero (self : NlReceiver) : Option RecvReply → Prop
  | some (.datagram _ m recvbytes onMessage) =>
    Refuses m ⟨self.portid, onMessage⟩ recvbytes ∨
      OnlyControl m ⟨self.portid, onMessage⟩ recvbytes
  | _ => False

/-- The step does not start a receiver without a descriptor, and brings no datagram on which
    the loop returns 0. -/
def Harmless (s : RecvState) : Label → Prop
  | .start        => 0 ≤ s.receiver.fd
  | .event read _ => ¬ ReturnsZero s.receiver read
  | _             => True

/-- The readable part of `recv_cb` leaves the watcher as it is, and an open descriptor open
    unless the loop returns 0. -/
theorem recvRead_open {self' : NlReceiver} {reply : RecvReply} (hfd : 0 ≤ self.fd)
    (h : recvRead self reply = some self') : self'.active = self.active ∧
      (0 ≤ self'.fd ↔ ¬ ReturnsZero self (some reply)) := by
  cases reply with
  | failed =>
    obtain rfl := Option.some.inj h
    exact ⟨rfl, iff_of_true hfd id⟩
  | datagram fuel m recvbytes onMessage =>
    obtain ⟨r, hr, rfl⟩ := Option.map_eq_some_iff.mp h
    by_cases hret : r.ret = 0
    · have hzero := extract_ret_zero_iff.mp ⟨fuel, r, hr, hret⟩
      have hclosed : (sancusClose2 self).fd = -1 := rfl
      rw [if_pos hret]
      exact ⟨rfl, iff_of_false (by omega) (not_not_intro hzero)⟩
    · rw [if_neg hret]
      refine ⟨rfl, iff_of_true hfd ?_⟩
      intro hzero
      -- the loop leaves with one value only
      obtain ⟨fuel', r', hr', hret'⟩ := extract_ret_zero_iff.mpr hzero
      have heq := (extractNetlinkMessage_returns.mp ⟨fuel, hr⟩).unique
        (extractNetlinkMessage_returns.mp ⟨fuel', hr'⟩)
      exact hret (heq ▸ hret')

/-- The error part stops the watcher first, and then insists on an open descriptor. -/
theorem recvError_aborted (self : NlReceiver) :
    (recvError self).receiver.active = false ∧
      ((recvError self).aborted = true ↔ self.fd < 0) := by
  have hfd : (sancusNlReceiverStop self).fd = self.fd := rfl
  unfold recvError sancusNlReceiverClose
  by_cases h : 0 ≤ self.fd
  · rw [if_pos ⟨hfd ▸ h, rfl⟩]
    exact ⟨rfl, by simp [h]⟩
  · rw [if_neg fun hc => h (hfd ▸ hc.1)]
    exact ⟨rfl, by simp; omega⟩

/-- **What one event does.**  After an event on an open descriptor the receiver is as it
    should be exactly when the event brought no datagram on which the loop returns 0. -/
theorem recvCb_holdsOpen {read : Option RecvReply} {error : Bool} (hactive : self.active = true)
    (hfd : 0 ≤ self.fd) (h : recvCb self read error = some s') :
    HoldsOpen s' ↔ ¬ ReturnsZero self read := by
  obtain ⟨self', hread, rfl⟩ := Option.map_eq_some_iff.mp h
  have hself' : self'.active = true ∧ (0 ≤ self'.fd ↔ ¬ ReturnsZero self read) := by
    cases read with
    | none =>
      obtain rfl := Option.some.inj hread
      exact ⟨hactive, iff_of_true hfd id⟩
    | some reply =>
      obtain ⟨hact, hopen⟩ := recvRead_open hfd hread
      exact ⟨hact.trans hactive, hopen⟩
  obtain ⟨hact, hopen⟩ := hself'
  rw [← hopen]
  cases error with
  | false =>
    -- the watcher is still active
    rw [if_neg Bool.false_ne_true]
    exact ⟨fun hs => hs.open_of_active hact, fun hnonneg => ⟨rfl, fun _ => hnonneg⟩⟩
  | true =>
    -- the watcher is stopped, and the close asserts that the descriptor is open
    rw [if_pos rfl]
    obtain ⟨hstopped, habort⟩ := recvError_aborted self'
    constructor
    · rintro ⟨hasserted, _⟩
      by_contra hneg
      exact absurd (hasserted.symm.trans (habort.mpr (by omega))) Bool.false_ne_true
    · intro hnonneg
      refine ⟨?_, fun hc => absurd (hstopped.symm.trans hc) Bool.false_ne_true⟩
      rw [← Bool.not_eq_true, habort]
      omega

/-- **Step lemma.**  A step from a state that is as it should be leads to one that is exactly
    when it is harmless. -/
theorem step_holdsOpen (hs : HoldsOpen s) (h : step s a = some s') :
    HoldsOpen s' ↔ Harmless s a := by
  unfold step at h
  rw [hs.asserted, if_neg Bool.false_ne_true] at h
  cases a with
  | start =>
    obtain ⟨self, hstart, rfl⟩ := Option.map_eq_some_iff.mp h
    obtain ⟨_, hself⟩ := Option.ite_none_left_eq_some.mp hstart
    obtain rfl := Option.some.inj hself
    exact ⟨fun hopen => hopen.open_of_active rfl, fun hfd => ⟨rfl, fun _ => hfd⟩⟩
  | stop =>
    obtain rfl := Option.some.inj h
    exact iff_of_true ⟨rfl, nofun⟩ trivial
  | close =>
    obtain ⟨self, hclose, rfl⟩ := Option.map_eq_some_iff.mp h
    obtain ⟨⟨_, hinactive⟩, hself⟩ := Option.ite_none_right_eq_some.mp hclose
    obtain rfl := Option.some.inj hself
    refine iff_of_true ⟨rfl, ?_⟩ trivial
    intro hactive
    exact absurd (hinactive.symm.trans hactive) Bool.false_ne_true
  | event read error =>
    obtain ⟨⟨hactive, _⟩, hcb⟩ := Option.ite_none_right_eq_some.mp h
    exact recvCb_holdsOpen hactive (hs.open_of_active hactive) hcb

/-- **When no active watcher has a closed descriptor.**  From a receiver just set up, in any
    run of calls and events: every state is as it should be if and only if every step is
    harmless. -/
theorem receiver_holds_open_iff (fd portid : Int) (labels : List Label) (s' : RecvState)
    (hfd : 0 ≤ fd)
    (hrun : Machine.run step ⟨sancusNlReceiverListen fd portid, false⟩ labels = some s') :
    Machine.Throughout step HoldsOpen ⟨sancusNlReceiverListen fd portid, false⟩ labels ↔
      Machine.Along step Harmless ⟨sancusNlReceiverListen fd portid, false⟩ labels := by
  constructor
  · intro hall pre a post t heq hpre
    obtain ⟨u, hu⟩ : ∃ u, step t a = some u := by
      rw [heq] at hrun
      obtain ⟨t', ht', hrest⟩ := Machine.exists_run_of_append hrun
      obtain rfl := Option.some.inj (hpre.symm.trans ht')
      obtain ⟨u, hu, _⟩ := Option.bind_eq_some_iff.mp hrest
      exact ⟨u, hu⟩
    have ht : HoldsOpen t := hall pre (a :: post) t heq hpre
    have hafter : HoldsOpen u :=
      hall (pre ++ [a]) post u (by simp [heq]) (Machine.run_snoc.mpr ⟨t, hpre, hu⟩)
    exact (step_holdsOpen ht hu).mp hafter
  · intro halong
    have hstart : HoldsOpen ⟨sancusNlReceiverListen fd portid, false⟩ := ⟨rfl, fun _ => hfd⟩
    exact Machine.throughout_of_along hstart
      (fun t a u ht ha hu => (step_holdsOpen ht hu).mpr ha) halong

/-- A run with a datagram whose message is accepted and an event that is readable and in error:
    every step is harmless. -/
theorem receiver_holds_open_iff_accepted :
    Machine.Throughout step HoldsOpen ⟨sancusNlReceiverListen 3 0, false⟩
      [.start,
        .event (some (.datagram 2 (Mem.ofBytes (datagram [headerOnly])) 16 fun _ => true)) false,
        .event (some .failed) true] := by
  rw [receiver_holds_open_iff 3 0 _ _ (by decide) rfl]
  refine Machine.along_cons (show (0 : Int) ≤ 3 by decide) fun s₁ h₁ => ?_
  obtain rfl := Option.some.inj h₁
  have haccepted : ¬ ReturnsZero ⟨3, true, 0, [], []⟩
      (some (.datagram 2 (Mem.ofBytes (datagram [headerOnly])) 16 fun _ => true)) := by
    intro hzero
    obtain ⟨_, r, hr, hret⟩ := extract_ret_zero_iff.mpr hzero
    -- two rounds are enough for the loop, and it leaves with 1
    obtain rfl := (extractNetlinkMessage_returns.mp ⟨_, hr⟩).unique
      (extractNetlinkMessage_returns.mp ⟨2, rfl⟩)
    exact absurd hret (by decide)
  refine Machine.along_cons haccepted fun s₂ h₂ => ?_
  obtain rfl := Option.some.inj h₂
  exact Machine.along_cons (show ¬ False from id) fun _ _ => Machine.along_nil

/-- **An active watcher with a closed descriptor.**  A message is refused: the descriptor is
    closed, and nothing stops the watcher. -/
theorem receiver_closed_while_active :
    ∃ s, Machine.run step ⟨sancusNlReceiverListen 3 0, false⟩
        [.start, .event (some (.datagram 1 (Mem.ofBytes (datagram [headerOnly])) 16 fun _ => false))
          false] = some s ∧
      s.receiver.active = true ∧ s.receiver.fd = -1 :=
  ⟨_, rfl, rfl, rfl⟩

end Sancus.Netlink
