import Sancus.Netlink.Acting
import Sancus.Netlink.Listen
import Sancus.Stream.ReadCb
import Sancus.Tcp.Setup

namespace Sancus

open CModel
open Fd (Answer Accounted CloseAnswers SetUp SetUpSound Env closeUses holding releases)

/-!
# Descriptors — a program of servers, connections, receivers and streams

Every component of the library holds one descriptor, from its set-up until it is closed.  A
program has any number of them, sets up more, hands accepted connections to streams, and goes on
with them in whatever order the events come.

* `serverComponent` — a server, which also accepts connections for the program;
* `connComponent` / `receiverComponent` / `streamComponent` — the others;
* `sancus` — a component of any of these kinds;
* `descriptors_held_once` — in every run, each open descriptor has one holder, and no other
  descriptor is closed.
-/

/-! ### Set-ups -/

variable {σ α : Type}

/-- A set-up that returns 1 has made a component. -/
def made (r : SetUp σ α) : Made σ Nat :=
  ⟨0, Fd.setupUses r.calls, if r.ret = 1 then some r.self else none⟩

theorem made_disciplined {field : σ → Int} {init : Except Int α} {r : SetUp σ α}
    (h : SetUpSound field init r) :
    Disciplined (made r).given (made r).uses
      (((made r).part.map fun self => holding (field self)).getD 0) := by
  unfold made
  by_cases hret : r.ret = 1
  · obtain ⟨fd, sa, _, hfield, _, hheld⟩ := h.ready hret
    simpa [hret, hfield] using hheld
  · simpa [hret] using h.failed hret

/-! ### Servers -/

section

open Tcp

/-- The set-ups of a server, with what they are given. -/
inductive ServerSetup where
  | ipv4 (pton : InetPton) (env : Env Sockaddr) (self : SancusTcpServer) (addr : Option CString)
      (port : UInt16) (cloexec preBind : Bool) (backlog : UInt32)
  | ipv6 (pton : InetPton) (env : Env Sockaddr) (self : SancusTcpServer) (addr : Option CString)
      (port : UInt16) (cloexec preBind : Bool) (backlog : UInt32)
  | unix (env : Env Sockaddr) (self : SancusTcpServer) (path : Option CString)
      (cloexec preBind : Bool) (backlog : UInt32)

def ServerSetup.run : ServerSetup → SetUp SancusTcpServer Sockaddr
  | ipv4 pton env self addr port cloexec preBind backlog =>
    sancusTcpIpv4Listen pton env self addr port cloexec preBind backlog
  | ipv6 pton env self addr port cloexec preBind backlog =>
    sancusTcpIpv6Listen pton env self addr port cloexec preBind backlog
  | unix env self path cloexec preBind backlog =>
    sancusTcpLocalListen env self path cloexec preBind backlog

theorem ServerSetup.sound (b : ServerSetup) : ∃ init, SetUpSound SancusTcpServer.fd init b.run := by
  cases b with
  | ipv4 => exact ⟨_, sancusTcpIpv4Listen_sound⟩
  | ipv6 => exact ⟨_, sancusTcpIpv6Listen_sound⟩
  | unix => exact ⟨_, sancusTcpLocalListen_sound⟩

/-- What an entry does to descriptors. -/
def entryUse : ServerEntry → Option (Use Nat)
  | .accept (.ok fd) => some (.acquire fd)
  | .kept fd         => some (.hand fd)
  | .refused fd      => some (.release fd)
  | .close fd        => if 0 ≤ fd then some (.release fd.toNat) else none
  | _                => none

theorem entryUse_closes (closes : List Int) :
    (closes.map ServerEntry.close).filterMap entryUse = releases closes := by
  induction closes with
  | nil => rfl
  | cons fd closes ih =>
    by_cases hfd : 0 ≤ fd <;> simp [entryUse, releases, hfd] at ih ⊢ <;> exact ih

theorem entryUse_interruptions (n : Nat) : (interruptions n).filterMap entryUse = [] := by
  simp [interruptions, entryUse]

/-- A round gives an accepted connection away, and closes what the server holds. -/
theorem round_disciplined {fd fd' : Int} {entries : List ServerEntry}
    (h : ServerRound fd entries fd') :
    Disciplined (holding fd) (entries.filterMap entryUse) (holding fd') := by
  cases h with
  | closes hfd =>
    rw [entryUse_closes]
    exact hfd.disciplined
  | failed n _ hfd =>
    rw [List.filterMap_append, List.filterMap_append, entryUse_interruptions, entryUse_closes]
    exact hfd.disciplined
  | connected n conn hsettled hfd =>
    rw [List.filterMap_append, List.filterMap_append, List.filterMap_append,
      entryUse_interruptions, entryUse_closes]
    -- the connection is held besides while the callback runs
    have hmiddle := hfd.disciplined.frame {conn}
    refine .acquire (hmiddle.append ?_)
    rcases hsettled with rfl | rfl
    · exact .hand .nil
    · exact .release .nil

/-- A server as a component; a failed assertion ends the program. -/
def serverComponent : Component SancusTcpServer ServerLabel ServerSetup Nat where
  make b := some (made b.run)
  step self a :=
    match serverStep ⟨self, false⟩ a with
    | some ⟨self', false⟩ => some (self', (self'.trace.drop self.trace.length).filterMap entryUse)
    | _                   => none
  holds self := holding self.fd
  make_disciplined {b m} hm := by
    obtain rfl := Option.some.inj hm
    obtain ⟨init, hsound⟩ := b.sound
    exact made_disciplined hsound
  step_disciplined {self a self' us} h := by
    split at h
    · next self₁ hstep =>
      obtain ⟨rfl, rfl⟩ := Prod.mk.inj (Option.some.inj h)
      obtain ⟨entries, htrace, hround⟩ := serverStep_round hstep rfl
      rw [show self₁.trace = _ from htrace, List.drop_left]
      exact round_disciplined hround
    · cases h

end

/-! ### Connections -/

section

open Tcp Time

/-- The set-ups of a connection, with what they are given. -/
inductive ConnSetup where
  | ipv4 (pton : InetPton) (env : Env Sockaddr) (self : SancusTcpConn) (addr : CString)
      (port : UInt16) (cloexec : Bool)
  | ipv6 (pton : InetPton) (env : Env Sockaddr) (self : SancusTcpConn) (addr : CString)
      (port : UInt16) (cloexec : Bool)
  | unix (env : Env Sockaddr) (self : SancusTcpConn) (path : Option CString) (cloexec : Bool)

def ConnSetup.run : ConnSetup → SetUp SancusTcpConn Sockaddr
  | ipv4 pton env self addr port cloexec => sancusTcpIpv4Connect pton env self addr port cloexec
  | ipv6 pton env self addr port cloexec => sancusTcpIpv6Connect pton env self addr port cloexec
  | unix env self path cloexec           => sancusTcpLocalConnect env self path cloexec

theorem ConnSetup.sound (b : ConnSetup) : ∃ init, SetUpSound SancusTcpConn.fd init b.run := by
  cases b with
  | ipv4 => exact ⟨_, sancusTcpIpv4Connect_sound⟩
  | ipv6 => exact ⟨_, sancusTcpIpv6Connect_sound⟩
  | unix => exact ⟨_, sancusTcpLocalConnect_sound⟩

variable {c : SancusTcpConn} {now : Timespec} {acts : List Action} {x : Checked}

/-- What is closed up to an assertion, or to the end, is noted. -/
def ConnAccounted (c : SancusTcpConn) (x : Checked) : Prop :=
  Accounted SancusTcpConn.fd SancusTcpConn.closed c (toState x).conn

theorem connAccounted_bind {f : SancusTcpConn → Checked} (hx : ConnAccounted c x)
    (hf : ∀ c₁, ConnAccounted c₁ (f c₁)) : ConnAccounted c (x >>= f) := by
  cases x with
  | ok c₁ => exact hx.trans (hf c₁)
  | error c₁ => exact hx

theorem connAccounted_asserting (p : Prop) [Decidable p] (c : SancusTcpConn) :
    ConnAccounted c (asserting p c) := by
  unfold asserting
  split <;> exact .of_eq rfl rfl

theorem connAccounted_action (a : Action) (c : SancusTcpConn) :
    ConnAccounted c (a.run now c) := by
  cases a with
  | start =>
    show Accounted _ _ c (sancusTcpConnStart c now)
    unfold sancusTcpConnStart sancusTcpConnTouch
    dsimp only
    split
    · exact .of_eq rfl rfl
    · split <;> exact .of_eq rfl rfl
  | stop => exact .of_eq rfl rfl
  | close =>
    show ConnAccounted c (sancusTcpConnClose c)
    unfold sancusTcpConnClose
    by_cases hfd : 0 ≤ c.fd
    · rw [show asserting (0 ≤ c.fd) c = .ok c from if_pos hfd]
      show ConnAccounted c (asserting (c.active = false) c >>= _)
      unfold asserting
      split
      · exact .close2 rfl rfl
      · exact .of_eq rfl rfl
    · rw [show asserting (0 ≤ c.fd) c = .error c from if_neg hfd]
      exact .of_eq rfl rfl

theorem connAccounted_actions (acts : List Action) (c : SancusTcpConn) :
    ConnAccounted c (runActions now c acts) := by
  induction acts generalizing c with
  | nil => exact .of_eq rfl rfl
  | cons a acts ih => exact connAccounted_bind (connAccounted_action a c) ih

theorem connAccounted_callBack (c : SancusTcpConn) (cb : Callback) :
    ConnAccounted c (callBack c cb acts now) :=
  connAccounted_actions acts { c with trace := c.trace ++ [cb] }

theorem connAccounted_connectFailed (c : SancusTcpConn) (errno : Int) :
    ConnAccounted c (connectFailed c errno acts now) :=
  connAccounted_callBack { c with errno := errno, state := .failed } _

theorem connAccounted_connectDone (c : SancusTcpConn) :
    ConnAccounted c (connectDone c acts now) :=
  connAccounted_bind (connAccounted_callBack { c with active := true, mask := .readOnly } _)
    fun _ => .of_eq rfl rfl

theorem connAccounted_caseConnected (c : SancusTcpConn) (revents : Revents) :
    ConnAccounted c (caseConnected c revents acts now) :=
  connAccounted_bind (connAccounted_asserting _ c) connAccounted_connectDone

theorem connAccounted_caseInProgress (c : SancusTcpConn) (revents : Revents)
    (sockopt : SockOpt) : ConnAccounted c (caseInProgress c revents sockopt acts now) := by
  apply connAccounted_bind (connAccounted_asserting _ c)
  intro c₁
  split
  · cases sockopt with
    | failed errno => exact connAccounted_connectFailed c₁ errno
    | error error =>
      dsimp only
      split
      · exact connAccounted_connectDone c₁
      · exact connAccounted_connectFailed c₁ error
  · exact connAccounted_caseConnected c₁ revents

/-- **Step lemma.**  Whatever an event does, what is closed is noted. -/
theorem connAccounted_ioCb (c : SancusTcpConn) (revents : Revents) (sockopt : SockOpt) :
    ConnAccounted c (ioCb c revents sockopt acts now) := by
  unfold ioCb
  split
  · exact connAccounted_callBack c _
  · split
    · exact connAccounted_caseInProgress c revents sockopt
    · exact connAccounted_caseConnected c revents
    · unfold caseRunning
      split
      · exact connAccounted_bind (connAccounted_callBack c _) fun _ => .of_eq rfl rfl
      · exact .of_eq rfl rfl
    · exact .of_eq rfl rfl

/-- A connection as a component. -/
def connComponent : Component SancusTcpConn Tcp.Label ConnSetup Nat where
  make b := some (made b.run)
  step self a :=
    match Tcp.step ⟨self, false⟩ a with
    | some ⟨self', false⟩ => some (self', releases (self'.closed.drop self.closed.length))
    | _                   => none
  holds self := holding self.fd
  make_disciplined {b m} hm := by
    obtain rfl := Option.some.inj hm
    obtain ⟨init, hsound⟩ := b.sound
    exact made_disciplined hsound
  step_disciplined {self a self' us} h := by
    split at h
    · next self₁ hstep =>
      obtain ⟨rfl, rfl⟩ := Prod.mk.inj (Option.some.inj h)
      have haccounted : Accounted SancusTcpConn.fd SancusTcpConn.closed self self₁ := by
        cases a with
        | event revents sockopt acts now =>
          have hcb : ConnAccounted self (ioCb self revents sockopt acts now) :=
            connAccounted_ioCb self revents sockopt
          rw [ConnAccounted, show toState _ = ⟨self₁, false⟩ from Option.some.inj hstep] at hcb
          exact hcb
        | action a now =>
          have hact : ConnAccounted self (a.run now self) := connAccounted_action a self
          rw [ConnAccounted, show toState _ = ⟨self₁, false⟩ from Option.some.inj hstep] at hact
          exact hact
      exact haccounted.disciplined
    · cases h

end

/-! ### Netlink receivers -/

section

open Netlink

/-- The set-up of a receiver, with what it is given. -/
structure ReceiverSetup where
  env : Env SockaddrNl
  self : NlReceiver
  bus : Int
  groups : UInt32
  portid : Int

variable {r r' : NlReceiver}

/-- What a receiver closes is noted. -/
abbrev ReceiverAccounted : NlReceiver → NlReceiver → Prop :=
  Accounted NlReceiver.fd NlReceiver.closed

theorem receiverAccounted_close (h : sancusNlReceiverClose r = some r') :
    ReceiverAccounted r r' := by
  obtain ⟨_, hr'⟩ := Option.ite_none_right_eq_some.mp h
  obtain rfl := Option.some.inj hr'
  exact .close2 rfl rfl

theorem receiverAccounted_action {a : Acting.Action} (h : a.run r = some r') :
    ReceiverAccounted r r' := by
  cases a with
  | start =>
    obtain ⟨_, hr'⟩ := Option.ite_none_left_eq_some.mp h
    obtain rfl := Option.some.inj hr'
    exact .of_eq rfl rfl
  | stop =>
    obtain rfl := Option.some.inj h
    exact .of_eq rfl rfl
  | close => exact receiverAccounted_close h

theorem receiverAccounted_actions {acts : List Acting.Action}
    (h : Acting.runActions r acts = some r') : ReceiverAccounted r r' := by
  rw [Acting.runActions_eq_run] at h
  exact Machine.run_keeps (I := ReceiverAccounted r) (.of_eq rfl rfl)
    (fun _ _ _ hs ha => hs.trans (receiverAccounted_action ha)) h

/-- The descriptor may have been closed by a callback when the loop returns 0. -/
theorem receiverAccounted_recvRead {reply : Acting.Reply} (h : Acting.recvRead r reply = some r') :
    ReceiverAccounted r r' := by
  cases reply with
  | failed acts =>
    have hacts := receiverAccounted_actions
      (r := { r with errors := r.errors ++ [.recvfromError] }) h
    exact hacts
  | datagram fuel m recvbytes onMessage =>
    obtain ⟨⟨res, r₁⟩, hloop, hr'⟩ := Option.bind_eq_some_iff.mp h
    obtain rfl := Option.some.inj hr'
    have hr₁ : ReceiverAccounted r r₁ := Acting.loop_keeps
      (I := ReceiverAccounted r) (fun s _ _ self' hself hacts =>
        hself.trans (receiverAccounted_actions hacts)) (.of_eq rfl rfl)
      (Option.join_eq_some_iff.mp hloop)
    split
    · exact hr₁.trans (.close2 rfl rfl)
    · exact hr₁

theorem receiverAccounted_recvError {acts : List Acting.Action}
    (h : Acting.recvError r acts = some r') : ReceiverAccounted r r' := by
  obtain ⟨r₁, hclose, hacts⟩ := Option.bind_eq_some_iff.mp h
  have hr₁ : ReceiverAccounted r r₁ := receiverAccounted_close (r := sancusNlReceiverStop r) hclose
  have hr' := receiverAccounted_actions
    (r := { r₁ with errors := r₁.errors ++ [.watcherError] }) hacts
  exact hr₁.trans hr'

/-- **Step lemma.**  Whatever an event does, and whatever the callbacks do, what is closed is
    noted. -/
theorem receiverAccounted_step {a : Acting.Label} (h : Acting.step r a = some r') :
    ReceiverAccounted r r' := by
  cases a with
  | action a => exact receiverAccounted_action h
  | event read error =>
    obtain ⟨_, r₁, hread, herror⟩ := Acting.step_event.mp h
    have hr₁ : ReceiverAccounted r r₁ := by
      cases read with
      | none =>
        obtain rfl := Option.some.inj hread
        exact .of_eq rfl rfl
      | some reply => exact receiverAccounted_recvRead hread
    cases error with
    | none =>
      obtain rfl := Option.some.inj herror
      exact hr₁
    | some acts => exact hr₁.trans (receiverAccounted_recvError herror)

/-- A receiver as a component; a failed assertion ends the program. -/
def receiverComponent : Component NlReceiver Acting.Label ReceiverSetup Nat where
  make b := some (made (sancusNlReceiverListenOn b.env b.self b.bus b.groups b.portid))
  step self a := (Acting.step self a).map fun self' =>
    (self', releases (self'.closed.drop self.closed.length))
  holds self := holding self.fd
  make_disciplined {b m} hm := by
    obtain rfl := Option.some.inj hm
    exact made_disciplined
      (sancusNlReceiverListenOn_sound b.env b.self b.bus b.groups b.portid)
  step_disciplined {self a self' us} h := by
    obtain ⟨self₁, hstep, heq⟩ := Option.map_eq_some_iff.mp h
    obtain ⟨rfl, rfl⟩ := Prod.mk.inj heq
    exact (receiverAccounted_step hstep).disciplined

end

/-! ### Streams -/

section

open Sancus.Stream

/-- What a stream is initialised with: a descriptor of the program, and a read buffer. -/
structure StreamSetup where
  fd : Int
  readBuffer : Mem
  readBufSize : Nat

/-- What a stream closes is noted. -/
abbrev StreamAccounted : SancusStream → SancusStream → Prop :=
  Accounted SancusStream.fd fun self => self.closed.map Prod.fst

variable {self self' : SancusStream}

theorem streamAccounted_close (self : SancusStream) :
    StreamAccounted self (sancusStreamClose self) := by
  unfold sancusStreamClose
  split
  · exact .close2 (by simp) rfl
  · exact .of_eq rfl rfl

/-- The path of `close_stream` stops the watcher first. -/
theorem streamAccounted_closeStream (self : SancusStream) :
    StreamAccounted self (closeStream self) :=
  streamAccounted_close (sancusStreamStop self)

theorem streamAccounted_action {a : Stream.Action} (h : a.run self = some self') :
    StreamAccounted self self' := by
  cases a with
  | start =>
    obtain ⟨_, hself'⟩ := Option.ite_none_left_eq_some.mp h
    obtain rfl := Option.some.inj hself'
    exact .of_eq rfl rfl
  | stop =>
    obtain rfl := Option.some.inj h
    exact .of_eq rfl rfl
  | close =>
    obtain rfl := Option.some.inj h
    exact streamAccounted_close self

theorem streamAccounted_actions {acts : List Stream.Action}
    (h : Stream.runActions self acts = some self') : StreamAccounted self self' := by
  rw [Stream.runActions_eq_run] at h
  exact Machine.run_keeps (I := StreamAccounted self) (.of_eq rfl rfl)
    (fun _ _ _ hs ha => hs.trans (streamAccounted_action ha)) h

theorem streamAccounted_onReadDone (self : SancusStream) (ret : Int) :
    StreamAccounted self (onReadDone self ret).stream := by
  unfold onReadDone
  split
  · dsimp only
    split
    · rw [stream_whileLen]
      exact .of_eq rfl rfl
    · exact .of_eq rfl rfl
  · split
    · exact .of_eq rfl rfl
    · exact streamAccounted_closeStream self

theorem streamAccounted_onErrorDone (self : SancusStream) (error : StreamError) (ret : Bool) :
    StreamAccounted self (onErrorDone self error ret).stream := by
  unfold onErrorDone
  split
  · exact streamAccounted_closeStream self
  · cases error with
    | readFull =>
      dsimp only
      rw [stream_readBufferAvailable]
      exact .of_eq rfl rfl
    | readEof => exact .of_eq rfl rfl
    | readError => exact .of_eq rfl rfl

theorem streamAccounted_readDone (self : SancusStream) (reply : ReadReply) :
    StreamAccounted self (readDone self reply).stream := by
  cases reply with
  | data bytes =>
    rw [readDone, stream_whileLen]
    exact .of_eq rfl rfl
  | eof => exact .of_eq rfl rfl
  | failed errno =>
    unfold readDone
    dsimp only
    split_ifs <;> exact .of_eq rfl rfl

/-- **Step lemma.**  Whatever a step does, what the stream closes is noted. -/
theorem streamAccounted_step {s s' : Stream.State} {a : Stream.Label}
    (h : Stream.step s a = some s') : StreamAccounted s.stream s'.stream := by
  cases a with
  | event =>
    obtain ⟨_, rfl⟩ := step_event.mp h
    rw [stream_readBufferAvailable]
    exact .of_eq rfl rfl
  | process =>
    obtain ⟨_, rfl⟩ := step_process.mp h
    exact .of_eq rfl rfl
  | action a =>
    obtain ⟨_, self, hact, rfl⟩ := step_action.mp h
    exact streamAccounted_action hact
  | read count reply =>
    obtain ⟨_, rfl⟩ := step_read.mp h
    exact streamAccounted_readDone s.stream reply
  | onRead block acts ret =>
    obtain ⟨_, self, hacts, ⟨_, rfl⟩ | ⟨_, rfl⟩⟩ := step_onRead h
    · exact (streamAccounted_actions hacts).trans (streamAccounted_onReadDone self ret)
    · refine (streamAccounted_actions hacts).trans ?_
      dsimp only
      split <;> exact .of_eq rfl rfl
  | onError error acts ret =>
    obtain ⟨_, self, hacts, rfl⟩ := step_onError.mp h
    exact (streamAccounted_actions hacts).trans (streamAccounted_onErrorDone self error ret)

/-- A stream as a component, at any of its control points.  It is given its descriptor by the
    program, which no longer keeps it then. -/
def streamComponent : Component Stream.State Stream.Label StreamSetup Nat where
  make b := (start b.fd b.readBuffer b.readBufSize).map fun s => ⟨holding b.fd, [], some s⟩
  step s a := (Stream.step s a).map fun s' =>
    (s', releases ((s'.stream.closed.map Prod.fst).drop (s.stream.closed.map Prod.fst).length))
  holds s := holding s.stream.fd
  make_disciplined {b m} hm := by
    obtain ⟨s, hs, rfl⟩ := Option.map_eq_some_iff.mp hm
    obtain ⟨_, rfl⟩ := start_eq_some.mp hs
    exact .nil
  step_disciplined {s a s' us} h := by
    obtain ⟨s₁, hstep, heq⟩ := Option.map_eq_some_iff.mp h
    obtain ⟨rfl, rfl⟩ := Prod.mk.inj heq
    exact (streamAccounted_step hstep).disciplined

end

/-! ### The program -/

abbrev Part : Type :=
  Tcp.SancusTcpServer ⊕ Tcp.SancusTcpConn ⊕ Netlink.NlReceiver ⊕ Stream.State

/-- What happens to a component, and what `close(2)` answers meanwhile for each descriptor. -/
abbrev PartLabel : Type :=
  (Tcp.ServerLabel ⊕ Tcp.Label ⊕ Netlink.Acting.Label ⊕ Stream.Label) × (Nat → CloseAnswers)

abbrev PartSetup : Type := ServerSetup ⊕ ConnSetup ⊕ ReceiverSetup ⊕ StreamSetup

/-- A component of any kind, whose closings are calls of `close(2)`. -/
def sancus : Component Part PartLabel PartSetup Nat :=
  (serverComponent.sum (connComponent.sum (receiverComponent.sum streamComponent))).refine
    closeUses (fun close fd => Fd.disciplined_sancusClose fd (close fd)) Fd.closeUses_other

/-- A move of the program: one of a component, or what it does with descriptors by itself. -/
abbrev Move : Type := Pool.Move PartLabel PartSetup Nat

/-- **Every open descriptor has one holder.**  In every run of a program with any number of
    servers, connections, receivers and streams, that sets up more of them and hands descriptors
    to streams, whatever the kernel answers and however often `close(2)` is interrupted, whatever
    the callbacks do to their component, in whatever order the events come: no descriptor is
    closed that is not open, and every open descriptor is held by exactly one component, or kept
    by the program.  So none leaks, none is closed twice, and a number that the kernel gives out
    again belongs to its new holder alone. -/
theorem descriptors_held_once (moves : List Move) (p : Pool Part Nat)
    (hrun : Machine.run (Pool.step sancus) Pool.empty moves = some p) :
    p.faults = [] ∧ p.live = Pool.holdings sancus p.parts + p.kept ∧
      ∀ fd ∈ p.live, (Pool.holdings sancus p.parts).count fd + p.kept.count fd = 1 :=
  have hsound := Pool.run_sound hrun
  ⟨hsound.faultless, hsound.live_eq, fun _ => hsound.held_once⟩

/-- All calls succeed, and the socket is descriptor `fd`. -/
def succeeds (α : Type) (fd : Nat) : Env α := ⟨⟨fun _ => .ok fd, .closed, nofun⟩, fun _ => .ok 0⟩

/-- A server at any address accepts descriptor 4, of which the program makes a stream, and the
    stream is closed, for which `close(2)` is interrupted once; a receiver with descriptor 4 is
    started, and stopped and closed by its `on_message`, which refuses the message. -/
def acceptedStream : List Move :=
  [.make (.inl (.ipv4 (fun _ _ => .invalid) (succeeds _ 3) ⟨-1, false, []⟩ none 80 true false 5)),
    .part 0 (.inl (.action .start), fun _ => .closed),
    .part 0 (.inl (.event 1 ⟨true, false, false⟩ (fun _ => .ok 4) [] true), fun _ => .closed),
    .make (.inr (.inr (.inr ⟨4, Mem.fresh fun _ => 0, 8⟩))),
    .part 1 (.inr (.inr (.inr (.action .close))), fun _ => .interrupted .closed),
    .make (.inr (.inr (.inl ⟨succeeds _ 4, ⟨-1, false, 0, [], []⟩, 0, 0, 0⟩))),
    .part 2 (.inr (.inr (.inl (.action .start))), fun _ => .closed),
    .part 2 (.inr (.inr (.inl (.event (some (.datagram 1
      (Mem.ofBytes (Netlink.datagram [Netlink.headerOnly])) 16 fun _ => ⟨[.stop, .close], false⟩))
        none))), fun _ => .closed)]

/-- The rule for that run: the listening socket is all that is open in the end. -/
theorem descriptors_held_once_stream :
    ∃ p, Machine.run (Pool.step sancus) Pool.empty acceptedStream = some p ∧ p.live = {3} ∧
      p.faults = [] := by
  refine ⟨_, rfl, rfl, ?_⟩
  exact (descriptors_held_once acceptedStream _ rfl).1

end Sancus
