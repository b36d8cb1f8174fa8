import Sancus.Fd.Closing
import Sancus.Tcp.Conn

namespace Sancus.Tcp

open CModel
open Fd (Answer EINTR Closing)

/-!
# TCP servers — accepting connections

`connect_cb` runs when the listening socket is readable.  It accepts one connection, offers it
to the application, and closes it again when the application does not want it.

* `sancusAccept` — `accept` and its retries;
* `SancusTcpServer` — the watcher, with the calls made and what came of each connection;
* `connectCb` — the callback, an assertion that fails ending the program;
* `ServerLabel` / `serverStep` — the server as a machine;
* `Orderly` — the order in which connections are accepted, offered and settled;
* `ServerRound` — what one step does;
* `server_settles` — that every run keeps it, and what it says about each connection.
-/

/-! ### The model -/

/-- What a server does, one thing after the other: the calls of `accept`, the callbacks it makes,
    whether an accepted connection was kept by the application or closed again, and the closing
    of the listening socket. -/
inductive ServerEntry where
  | accept (answer : Answer)
  | onConnect (fd : Nat)
  | kept (fd : Nat)
  | refused (fd : Nat)
  | onError (errno : Nat)
  | close (fd : Int)
  deriving DecidableEq

/-- `struct sancus_tcp_server`: the descriptor and the state of its watcher, with what has been
    done so far. -/
structure SancusTcpServer where
  fd : Int
  active : Bool
  trace : List ServerEntry
  deriving DecidableEq

/-- One round of `accept_retry`, after the calls `t`. -/
def acceptRound (accept : Nat → Answer) (t : List Answer) :
    Round (List Answer) (Answer × List Answer) :=
  match accept t.length with
  | .failed e =>
    if e = EINTR then .again (t ++ [.failed e]) else .leave (.failed e, t ++ [.failed e])
  | .ok fd    => .leave (.ok fd, t ++ [.ok fd])

/-- `sancus_accept`, with a bound on its calls: the last answer, and all of them. -/
def sancusAccept (fuel : Nat) (accept : Nat → Answer) : Option (Answer × List Answer) :=
  Loop.run (acceptRound accept) fuel []

/-- What runs up to an assertion: the server after it, or as it is when one fails. -/
abbrev ServerChecked : Type := Except SancusTcpServer SancusTcpServer

/-- What has been done, and one thing more. -/
def SancusTcpServer.note (self : SancusTcpServer) (entries : List ServerEntry) : SancusTcpServer :=
  { self with trace := self.trace ++ entries }

/-- `sancus_tcp_server_start`. -/
def sancusTcpServerStart (self : SancusTcpServer) : ServerChecked :=
  if self.active then .error self else .ok { self with active := true }

/-- `sancus_tcp_server_stop`. -/
def sancusTcpServerStop (self : SancusTcpServer) : SancusTcpServer := { self with active := false }

/-- `sancus_tcp_server_close`, which gives the descriptor to `sancus_close` once. -/
def sancusTcpServerClose (self : SancusTcpServer) : ServerChecked :=
  if 0 ≤ self.fd ∧ self.active = false then
    .ok { self.note [.close self.fd] with fd := -1 }
  else .error self

/-- What the application, or a callback of it, does with the server. -/
def serverAction (self : SancusTcpServer) : Action → ServerChecked
  | .start => sancusTcpServerStart self
  | .stop  => .ok (sancusTcpServerStop self)
  | .close => sancusTcpServerClose self

/-- The actions of a callback, one after the other. -/
def serverActions : SancusTcpServer → List Action → ServerChecked
  | self, []      => .ok self
  | self, a :: as => do
    let self ← serverAction self a
    serverActions self as

/-- The part of `connect_cb` after `sancus_accept`.  The callback acts on the server, and
    `on_connect` returns `ret`. -/
def accepted (self : SancusTcpServer) (answer : Answer) (acts : List Action) (ret : Bool) :
    ServerChecked :=
  match answer with
  | .failed e => serverActions (self.note [.onError e]) acts
  | .ok fd    => do
    let self ← serverActions (self.note [.onConnect fd]) acts
    -- `sancus_close2(&fd)`
    return self.note [if ret then .kept fd else .refused fd]

/-- `connect_cb`; `none` when `sancus_accept` has not returned. -/
def connectCb (fuel : Nat) (self : SancusTcpServer) (revents : Revents) (accept : Nat → Answer)
    (acts : List Action) (ret : Bool) : Option ServerChecked :=
  if revents.error then some (.error self)
  else if revents.read then
    (sancusAccept fuel accept).map fun (answer, calls) =>
      accepted (self.note (calls.map .accept)) answer acts ret
  else some (.ok self)

/-- A server, and whether an assertion has ended the program. -/
structure ServerState where
  server : SancusTcpServer
  aborted : Bool
  deriving DecidableEq

/-- What happens to a server: an event of its watcher, or a call. -/
inductive ServerLabel where
  | event (fuel : Nat) (revents : Revents) (accept : Nat → Answer) (acts : List Action)
      (ret : Bool)
  | action (a : Action)

def toServerState : ServerChecked → ServerState
  | .ok self    => ⟨self, false⟩
  | .error self => ⟨self, true⟩

/-- One step; `none` when the program has ended, when the watcher is not active and has no
    events, or when `accept` is interrupted for ever. -/
def serverStep (s : ServerState) (a : ServerLabel) : Option ServerState :=
  if s.aborted then none
  else match a with
    | .event fuel revents accept acts ret =>
      if s.server.active then
        (connectCb fuel s.server revents accept acts ret).map toServerState
      else none
    | .action a => some (toServerState (serverAction s.server a))

/-- A server that is listening, before anything has happened to it. -/
def listening (fd : Nat) : SancusTcpServer := ⟨fd, false, []⟩

/-! ### What a trace says -/

/-- The connections `accept` gave. -/
def acceptedFds : List ServerEntry → List Nat :=
  List.filterMap fun
    | .accept (.ok fd) => some fd
    | _                => none

/-- Those `on_connect` was called with. -/
def offeredFds : List ServerEntry → List Nat :=
  List.filterMap fun
    | .onConnect fd => some fd
    | _             => none

/-- Those the application has kept, or `connect_cb` has closed. -/
def settledFds : List ServerEntry → List Nat :=
  List.filterMap fun
    | .kept fd    => some fd
    | .refused fd => some fd
    | _           => none

/-- The errors of `accept`, but for its interruptions. -/
def acceptErrors : List ServerEntry → List Nat :=
  List.filterMap fun
    | .accept (.failed e) => if e = EINTR then none else some e
    | _                   => none

/-- Those `on_error` was called for. -/
def reportedErrors : List ServerEntry → List Nat :=
  List.filterMap fun
    | .onError e => some e
    | _          => none

/-- The listening sockets closed. -/
def closedServers : List ServerEntry → List Int :=
  List.filterMap fun
    | .close fd => some fd
    | _         => none

/-- A server that does one thing after the other: an accepted connection is offered at once, and
    settled before the next call of `accept`; an error is reported at once.  In between, the
    listening socket can be closed. -/
inductive Orderly : List ServerEntry → Prop
  | nil : Orderly []
  | close {t : List ServerEntry} (h : Orderly t) (fd : Int) : Orderly (t ++ [.close fd])
  | interrupted {t : List ServerEntry} (h : Orderly t) :
      Orderly (t ++ [.accept (.failed EINTR)])
  | failed {t : List ServerEntry} (h : Orderly t) {e : Nat} (he : e ≠ EINTR) :
      Orderly (t ++ [.accept (.failed e), .onError e])
  | connected {t : List ServerEntry} (h : Orderly t) (fd : Nat) (closes : List Int)
      {answer : ServerEntry} (hanswer : answer = .kept fd ∨ answer = .refused fd) :
      Orderly (t ++ ([.accept (.ok fd), .onConnect fd] ++ closes.map .close ++ [answer]))

/-! ### Accepting -/

variable {accept : Nat → Answer} {calls : List Answer} {answer : Answer}

theorem acceptRound_eq (accept : Nat → Answer) (t : List Answer) :
    acceptRound accept t =
      if accept t.length = .failed EINTR then .again (t ++ [accept t.length])
      else .leave (accept t.length, t ++ [accept t.length]) := by
  unfold acceptRound
  cases accept t.length with
  | ok fd => simp
  | failed e => by_cases he : e = EINTR <;> simp [he]

/-- The calls of `accept`: some that are interrupted, and the one whose answer is returned. -/
theorem sancusAccept_calls {fuel : Nat} (h : sancusAccept fuel accept = some (answer, calls)) :
    answer ≠ .failed EINTR ∧
      ∃ n, calls = List.replicate n (.failed EINTR) ++ [answer] := by
  refine (Loop.returns_of_run h).post (I := fun t => ∃ n, t = List.replicate n (.failed EINTR))
    (Q := fun r => r.1 ≠ .failed EINTR ∧ ∃ n, r.2 = List.replicate n (.failed EINTR) ++ [r.1])
    ?_ ?_ ⟨0, rfl⟩
  · rintro _ t' ⟨n, rfl⟩ hround
    rw [acceptRound_eq] at hround
    split at hround
    · next hintr =>
      obtain rfl := Round.again.inj hround
      exact ⟨n + 1, by rw [hintr, List.replicate_succ']⟩
    · cases hround
  · rintro _ r ⟨n, rfl⟩ hround
    rw [acceptRound_eq] at hround
    split at hround
    · cases hround
    · next hintr =>
      obtain rfl := Round.leave.inj hround
      exact ⟨hintr, n, rfl⟩

/-- It returns once a call is not interrupted. -/
theorem sancusAccept_returns_iff :
    (∃ fuel r, sancusAccept fuel accept = some r) ↔ ∃ i, accept i ≠ .failed EINTR := by
  constructor
  · rintro ⟨fuel, ⟨answer, calls⟩, hrun⟩
    by_contra hall
    push Not at hall
    refine Loop.not_returns_of_invariant (I := fun _ => True) ?_ trivial _
      (Loop.returns_of_run hrun)
    intro t _
    exact ⟨_, by rw [acceptRound_eq, if_pos (hall _)], trivial⟩
  · rintro ⟨i, hi⟩
    have hreturns : ∃ r, Loop.Returns (acceptRound accept) [] r := by
      apply Loop.returns_of_measure (I := fun t => t.length ≤ i) (fun t => i - t.length) ?_
        (Nat.zero_le i)
      intro t t' hle hround
      rw [acceptRound_eq] at hround
      split at hround
      · next hintr =>
        obtain rfl := Round.again.inj hround
        have hne : t.length ≠ i := by
          rintro rfl
          exact hi hintr
        rw [List.length_append, List.length_singleton]
        omega
      · cases hround
    obtain ⟨r, hr⟩ := hreturns
    obtain ⟨fuel, hfuel⟩ := hr.exists_run
    exact ⟨fuel, r, hfuel⟩

/-! ### What a callback does -/

variable {self self' : SancusTcpServer} {s s' : ServerState} {acts : List Action}

/-- All that has been done from one state of a server to another is that its socket was closed,
    if anything. -/
def OnlyCloses (self self' : SancusTcpServer) : Prop :=
  ∃ closes, self'.trace = self.trace ++ closes.map .close ∧ Closing self.fd closes self'.fd

theorem OnlyCloses.refl (self : SancusTcpServer) : OnlyCloses self self :=
  ⟨[], (List.append_nil _).symm, .none _⟩

theorem OnlyCloses.trans {self'' : SancusTcpServer} (h : OnlyCloses self self')
    (h' : OnlyCloses self' self'') : OnlyCloses self self'' := by
  obtain ⟨closes, htrace, hfd⟩ := h
  obtain ⟨closes', htrace', hfd'⟩ := h'
  refine ⟨closes ++ closes', ?_, hfd.trans hfd'⟩
  rw [htrace', htrace, List.map_append, List.append_assoc]

theorem onlyCloses_action (self : SancusTcpServer) (a : Action) :
    OnlyCloses self (toServerState (serverAction self a)).server := by
  cases a with
  | start =>
    show OnlyCloses self (toServerState (if _ then _ else _)).server
    split
    · exact .refl self
    · exact ⟨[], (List.append_nil _).symm, .none _⟩
  | stop => exact ⟨[], (List.append_nil _).symm, .none _⟩
  | close =>
    show OnlyCloses self (toServerState (if _ then _ else _)).server
    split
    · next h => exact ⟨[self.fd], rfl, .close self.fd h.1⟩
    · exact .refl self

theorem onlyCloses_actions (self : SancusTcpServer) (acts : List Action) :
    OnlyCloses self (toServerState (serverActions self acts)).server := by
  induction acts generalizing self with
  | nil => exact .refl self
  | cons a acts ih =>
    have hact := onlyCloses_action self a
    rw [serverActions]
    cases hself : serverAction self a with
    | ok self₁ =>
      rw [hself] at hact
      exact hact.trans (ih self₁)
    | error self₁ =>
      rw [hself] at hact
      exact hact

/-! ### One round -/

/-- Calls of `accept` that are interrupted. -/
def interruptions (n : Nat) : List ServerEntry := List.replicate n (.accept (.failed EINTR))

/-- What a server does in a step that the program survives, and what becomes of the listening
    socket: it is closed at most; or `accept` fails, and the error is reported; or a connection is
    accepted, offered and settled. -/
inductive ServerRound (fd : Int) : List ServerEntry → Int → Prop
  | closes {closes : List Int} {fd' : Int} (h : Closing fd closes fd') :
      ServerRound fd (closes.map .close) fd'
  | failed (n : Nat) {e : Nat} {closes : List Int} {fd' : Int} (he : e ≠ EINTR)
      (h : Closing fd closes fd') :
      ServerRound fd (interruptions n ++ [.accept (.failed e), .onError e] ++ closes.map .close) fd'
  | connected (n conn : Nat) {closes : List Int} {fd' : Int} {settled : ServerEntry}
      (hsettled : settled = .kept conn ∨ settled = .refused conn) (h : Closing fd closes fd') :
      ServerRound fd (interruptions n ++ [.accept (.ok conn), .onConnect conn] ++
        closes.map .close ++ [settled]) fd'

/-- What follows a call of `accept` that was not interrupted, the assertions of the callback
    holding. -/
theorem round_accepted {n : Nat} {ret : Bool} (hanswer : answer ≠ .failed EINTR)
    (hrun : accepted (self.note (interruptions n ++ [.accept answer])) answer acts ret =
      .ok self') :
    ∃ entries, self'.trace = self.trace ++ entries ∧ ServerRound self.fd entries self'.fd := by
  cases answer with
  | failed e =>
    have hcloses := onlyCloses_actions
      ((self.note (interruptions n ++ [.accept (.failed e)])).note [.onError e]) acts
    rw [show serverActions _ acts = .ok self' from hrun] at hcloses
    obtain ⟨closes, htrace, hfd⟩ := hcloses
    have he : e ≠ EINTR := fun he => hanswer (he ▸ rfl)
    refine ⟨_, ?_, .failed n he hfd⟩
    rw [show self'.trace = _ from htrace]
    simp [SancusTcpServer.note]
  | ok fd =>
    have hcloses := onlyCloses_actions
      ((self.note (interruptions n ++ [.accept (.ok fd)])).note [.onConnect fd]) acts
    unfold accepted at hrun
    dsimp only at hrun
    cases hacts : serverActions
        ((self.note (interruptions n ++ [.accept (.ok fd)])).note [.onConnect fd]) acts with
    | error self₁ =>
      rw [hacts] at hrun
      cases hrun
    | ok self₁ =>
      rw [hacts] at hrun hcloses
      obtain ⟨closes, htrace, hfd⟩ := hcloses
      obtain rfl := Except.ok.inj hrun
      have hlast : (if ret then ServerEntry.kept fd else .refused fd) = .kept fd ∨
          (if ret then ServerEntry.kept fd else .refused fd) = .refused fd := by
        cases ret <;> simp
      refine ⟨_, ?_, .connected n fd hlast hfd⟩
      show self₁.trace ++ [_] = _
      rw [show self₁.trace = _ from htrace]
      simp [SancusTcpServer.note]

theorem running_of_step {a : ServerLabel} (hstep : serverStep s a = some s') :
    s.aborted = false := by
  obtain ⟨hruns, _⟩ := Option.ite_none_left_eq_some.mp hstep
  simpa using hruns

/-- **Step lemma.**  A step that the program survives is one round. -/
theorem serverStep_round {a : ServerLabel} (hstep : serverStep s a = some s')
    (hruns : s'.aborted = false) :
    ∃ entries, s'.server.trace = s.server.trace ++ entries ∧
      ServerRound s.server.fd entries s'.server.fd := by
  have hnothing : ∃ entries, s.server.trace = s.server.trace ++ entries ∧
      ServerRound s.server.fd entries s.server.fd :=
    ⟨[], (List.append_nil _).symm, .closes (.none _)⟩
  obtain ⟨_, hs'⟩ := Option.ite_none_left_eq_some.mp hstep
  cases a with
  | action a =>
    obtain rfl := Option.some.inj hs'
    obtain ⟨closes, htrace, hfd⟩ := onlyCloses_action s.server a
    exact ⟨_, htrace, .closes hfd⟩
  | event fuel revents accept acts ret =>
    obtain ⟨_, hs'⟩ := Option.ite_none_right_eq_some.mp hs'
    obtain ⟨checked, hcb, rfl⟩ := Option.map_eq_some_iff.mp hs'
    unfold connectCb at hcb
    split at hcb
    · obtain rfl := Option.some.inj hcb
      cases hruns
    · split at hcb
      · obtain ⟨⟨answer, calls⟩, haccept, rfl⟩ := Option.map_eq_some_iff.mp hcb
        obtain ⟨hanswer, n, rfl⟩ := sancusAccept_calls haccept
        dsimp only at hruns ⊢
        rw [List.map_append, List.map_replicate] at hruns ⊢
        cases hacc : accepted _ answer acts ret with
        | error self' =>
          rw [hacc] at hruns
          cases hruns
        | ok self' => exact round_accepted hanswer hacc
      · obtain rfl := Option.some.inj hcb
        exact hnothing

theorem Orderly.closes {t : List ServerEntry} (h : Orderly t) (closes : List Int) :
    Orderly (t ++ closes.map .close) := by
  induction closes generalizing t with
  | nil => simpa using h
  | cons fd closes ih => simpa using ih (h.close fd)

theorem Orderly.interruptions {t : List ServerEntry} (h : Orderly t) (n : Nat) :
    Orderly (t ++ interruptions n) := by
  unfold Tcp.interruptions
  induction n generalizing t with
  | zero => simpa using h
  | succ n ih => simpa [List.replicate_succ] using ih h.interrupted

/-- A round follows the order. -/
theorem Orderly.round {t entries : List ServerEntry} {fd fd' : Int} (h : Orderly t)
    (hround : ServerRound fd entries fd') : Orderly (t ++ entries) := by
  cases hround with
  | closes _ => exact h.closes _
  | failed n he _ => simpa using ((h.interruptions n).failed he).closes _
  | connected n conn hsettled _ =>
    simpa using (h.interruptions n).connected conn _ hsettled

/-! ### What the order says -/

/-- Every connection that was accepted has been offered and settled, in the order in which they
    came, and every error has been reported. -/
structure Settled (t : List ServerEntry) : Prop where
  offered : offeredFds t = acceptedFds t
  settled : settledFds t = acceptedFds t
  reported : reportedErrors t = acceptErrors t

theorem Settled.append {t t' : List ServerEntry} (h : Settled t) (h' : Settled t') :
    Settled (t ++ t') where
  offered := by
    rw [offeredFds, acceptedFds, List.filterMap_append, List.filterMap_append]
    exact congrArg₂ _ h.offered h'.offered
  settled := by
    rw [settledFds, acceptedFds, List.filterMap_append, List.filterMap_append]
    exact congrArg₂ _ h.settled h'.settled
  reported := by
    rw [reportedErrors, acceptErrors, List.filterMap_append, List.filterMap_append]
    exact congrArg₂ _ h.reported h'.reported

/-- Each part of an orderly trace is settled in itself. -/
theorem Orderly.settled {t : List ServerEntry} (h : Orderly t) : Settled t := by
  induction h with
  | nil => exact ⟨rfl, rfl, rfl⟩
  | close _ fd ih => exact ih.append ⟨rfl, rfl, rfl⟩
  | interrupted _ ih => exact ih.append ⟨rfl, rfl, by simp [reportedErrors, acceptErrors]⟩
  | failed _ he ih => exact ih.append ⟨rfl, rfl, by simp [reportedErrors, acceptErrors, he]⟩
  | connected _ fd closes hanswer ih =>
    refine ih.append ?_
    rcases hanswer with rfl | rfl <;>
      exact ⟨by simp [offeredFds, acceptedFds, List.filterMap_map],
        by simp [settledFds, acceptedFds, List.filterMap_map],
        by simp [reportedErrors, acceptErrors, List.filterMap_map]⟩

/-! ### The listening socket -/

/-- What a step does to the listening socket, and that it says so. -/
def ServerClosing (self self' : SancusTcpServer) : Prop :=
  ∃ closes, closedServers self'.trace = closedServers self.trace ++ closes ∧
    Closing self.fd closes self'.fd

theorem ServerClosing.trans {self'' : SancusTcpServer} (h : ServerClosing self self')
    (h' : ServerClosing self' self'') : ServerClosing self self'' := by
  obtain ⟨closes, htrace, hfd⟩ := h
  obtain ⟨closes', htrace', hfd'⟩ := h'
  refine ⟨closes ++ closes', ?_, hfd.trans hfd'⟩
  rw [htrace', htrace, List.append_assoc]

theorem OnlyCloses.serverClosing (h : OnlyCloses self self') : ServerClosing self self' := by
  obtain ⟨closes, htrace, hfd⟩ := h
  refine ⟨closes, ?_, hfd⟩
  rw [htrace, closedServers, List.filterMap_append, List.filterMap_map]
  simp

/-- Entries of other kinds do not count. -/
theorem serverClosing_note {entries : List ServerEntry} (h : closedServers entries = []) :
    ServerClosing self (self.note entries) := by
  refine ⟨[], ?_, .none _⟩
  show closedServers (self.trace ++ entries) = _
  rw [closedServers, List.filterMap_append]
  exact congrArg _ h

theorem serverClosing_accepted (self : SancusTcpServer) (answer : Answer) (acts : List Action)
    (ret : Bool) : ServerClosing self (toServerState (accepted self answer acts ret)).server := by
  cases answer with
  | failed e =>
    exact (serverClosing_note rfl).trans (onlyCloses_actions _ acts).serverClosing
  | ok fd =>
    have hacts := (onlyCloses_actions (self.note [.onConnect fd]) acts).serverClosing
    unfold accepted
    dsimp only
    cases hself : serverActions (self.note [.onConnect fd]) acts with
    | error self₁ =>
      rw [hself] at hacts
      exact (serverClosing_note rfl).trans hacts
    | ok self₁ =>
      rw [hself] at hacts
      refine ((serverClosing_note rfl).trans hacts).trans (serverClosing_note ?_)
      cases ret <;> rfl

theorem serverClosing_step {a : ServerLabel} (hstep : serverStep s a = some s') :
    ServerClosing s.server s'.server := by
  obtain ⟨_, hs'⟩ := Option.ite_none_left_eq_some.mp hstep
  cases a with
  | action a =>
    obtain rfl := Option.some.inj hs'
    exact (onlyCloses_action s.server a).serverClosing
  | event fuel revents accept acts ret =>
    obtain ⟨_, hs'⟩ := Option.ite_none_right_eq_some.mp hs'
    obtain ⟨checked, hcb, rfl⟩ := Option.map_eq_some_iff.mp hs'
    unfold connectCb at hcb
    split at hcb
    · obtain rfl := Option.some.inj hcb
      exact (OnlyCloses.refl s.server).serverClosing
    · split at hcb
      · obtain ⟨⟨answer, calls⟩, _, rfl⟩ := Option.map_eq_some_iff.mp hcb
        have hcalls : closedServers (calls.map .accept) = [] := by
          simp [closedServers, List.filterMap_map]
        exact (serverClosing_note hcalls).trans (serverClosing_accepted _ answer acts ret)
      · obtain rfl := Option.some.inj hcb
        exact (OnlyCloses.refl s.server).serverClosing

/-! ### The runs -/

/-- **No connection is lost or taken twice.**  In every run of a server that is listening,
    whatever `accept` answers and whatever its callbacks do: it accepts one connection at a time,
    offers it at once, and the application keeps it or it is closed before the next is accepted;
    every error but an interruption is reported; the listening socket is closed once at most,
    and -1 says so.  An event is handled as soon as `accept` is not interrupted. -/
theorem server_settles (fd : Nat) (labels : List ServerLabel) (s : ServerState)
    (hrun : Machine.run serverStep ⟨listening fd, false⟩ labels = some s) :
    (s.aborted = false → Orderly s.server.trace ∧ Settled s.server.trace) ∧
      Closing fd (closedServers s.server.trace) s.server.fd ∧
      ∀ accept acts ret, s.aborted = false → s.server.active = true →
        ((∃ fuel s', serverStep s (.event fuel ⟨true, false, false⟩ accept acts ret) = some s') ↔
          ∃ i, accept i ≠ .failed EINTR) := by
  refine ⟨?_, ?_, ?_⟩
  · have horderly : s.aborted = false → Orderly s.server.trace := by
      apply Machine.run_keeps (I := fun s => s.aborted = false → Orderly s.server.trace)
        (fun _ => .nil) ?_ hrun
      intro t a u ht hstep hu
      obtain ⟨entries, htrace, hround⟩ := serverStep_round hstep hu
      rw [htrace]
      exact (ht (running_of_step hstep)).round hround
    intro hruns
    exact ⟨horderly hruns, (horderly hruns).settled⟩
  · apply Machine.run_keeps (I := fun s => Closing fd (closedServers s.server.trace) s.server.fd)
      (.none _) ?_ hrun
    intro t a u ht hstep
    obtain ⟨closes, htrace, hfd⟩ := serverClosing_step hstep
    rw [htrace]
    exact ht.trans hfd
  · intro accept acts ret hruns hactive
    rw [← sancusAccept_returns_iff]
    simp [serverStep, hruns, hactive, connectCb, Option.map_eq_some_iff]

/-- A server that accepts two connections, the first call being interrupted; the application keeps
    the first of them, and stops and closes the server when it is offered the second. -/
theorem server_settles_two :
    ∃ s, Machine.run serverStep ⟨listening 3, false⟩
        [.action .start,
          .event 2 ⟨true, false, false⟩ (fun i => if i = 0 then .failed EINTR else .ok 4) [] true,
          .event 1 ⟨true, false, false⟩ (fun _ => .ok 5) [.stop, .close] false] = some s ∧
      s.server.trace = [.accept (.failed EINTR), .accept (.ok 4), .onConnect 4, .kept 4,
        .accept (.ok 5), .onConnect 5, .close 3, .refused 5] ∧ Settled s.server.trace := by
  refine ⟨_, rfl, rfl, ?_⟩
  exact ((server_settles 3 [.action .start,
    .event 2 ⟨true, false, false⟩ (fun i => if i = 0 then .failed EINTR else .ok 4) [] true,
    .event 1 ⟨true, false, false⟩ (fun _ => .ok 5) [.stop, .close] false] _ rfl).1 rfl).2

end Sancus.Tcp
