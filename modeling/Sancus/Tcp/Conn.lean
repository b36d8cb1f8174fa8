import Sancus.CModel.Machine
import Sancus.Time.Timespec

namespace Sancus.Tcp

open CModel Time

/-!
# TCP connections — the I/O callback

`io_cb` carries a connection from being set up to being connected, and then reads from it.
Each event calls the application at most once; the callback may start, stop and close the
connection before it returns.

* `SancusTcpConn` — the watcher, the state and what the application has been told;
* `ioCb` — the callback, an assertion that fails ending the program;
* `Label` / `step` — the connection as a machine;
* `Outcome` — what an event can do, and `ioCb_outcome`, that it does nothing else.
-/

/-- `enum sancus_tcp_conn_error`. -/
inductive TcpConnError where
  | watcherError
  | connectError
  deriving DecidableEq

/-- `enum sancus_tcp_conn_state`. -/
inductive TcpConnState where
  | inProgress
  | connected
  | running
  | failed
  deriving DecidableEq

/-- A call of one of the callbacks of `struct sancus_tcp_conn_settings`. -/
inductive Callback where
  | onRead
  | onConnect
  | onError (error : TcpConnError)
  deriving DecidableEq

/-- The events a watcher waits for. -/
structure Mask where
  read : Bool
  write : Bool
  deriving DecidableEq

def Mask.readWrite : Mask := ⟨true, true⟩
def Mask.readOnly : Mask := ⟨true, false⟩

/-- `struct sancus_tcp_conn`, with the state of its watcher, `errno` as `io_cb` sets it, the
    callbacks made so far, and the descriptors `sancus_close2` has been called on. -/
structure SancusTcpConn where
  fd : Int
  active : Bool
  mask : Mask
  state : TcpConnState
  lastActivity : Timespec
  errno : Int
  trace : List Callback
  closed : List Int
  deriving DecidableEq

/-- What a successful `init_tcp` leaves, `connect(2)` having succeeded at once or being in
    progress.  It does not touch `last_activity`. -/
def initTcp (fd : Int) (inProgress : Bool) (lastActivity : Timespec) (errno : Int) :
    SancusTcpConn :=
  ⟨fd, false, .readWrite, if inProgress then .inProgress else .connected, lastActivity, errno,
    [], []⟩

/-- `sancus_tcp_conn_touch`, at the time `now` of the loop. -/
def sancusTcpConnTouch (self : SancusTcpConn) (now : Timespec) : SancusTcpConn :=
  { self with lastActivity := now }

/-- `sancus_tcp_conn_start`. -/
def sancusTcpConnStart (self : SancusTcpConn) (now : Timespec) : SancusTcpConn :=
  if self.active then self
  else
    let self := { self with active := true }
    -- `sancus_time_is_zero(&self->last_activity)`
    if self.lastActivity.tv_sec = 0 ∧ self.lastActivity.tv_nsec = 0 then
      sancusTcpConnTouch self now
    else self

/-- `sancus_tcp_conn_stop`. -/
def sancusTcpConnStop (self : SancusTcpConn) : SancusTcpConn := { self with active := false }

/-- What runs up to an assertion: the connection after it, or as it is when one fails. -/
abbrev Checked : Type := Except SancusTcpConn SancusTcpConn

/-- `assert(p)`. -/
def asserting (p : Prop) [Decidable p] (self : SancusTcpConn) : Checked :=
  if p then .ok self else .error self

/-- `sancus_tcp_conn_close`, which gives the descriptor to `sancus_close` once. -/
def sancusTcpConnClose (self : SancusTcpConn) : Checked := do
  let self ← asserting (0 ≤ self.fd) self
  let self ← asserting (self.active = false) self
  return { self with fd := -1, closed := self.closed ++ [self.fd] }

/-! ### The callback -/

/-- What the application, or a callback of it, does with the connection. -/
inductive Action where
  | start
  | stop
  | close
  deriving DecidableEq

def Action.run (now : Timespec) (self : SancusTcpConn) : Action → Checked
  | start => .ok (sancusTcpConnStart self now)
  | stop  => .ok (sancusTcpConnStop self)
  | close => sancusTcpConnClose self

/-- The actions of a callback, one after the other. -/
def runActions (now : Timespec) : SancusTcpConn → List Action → Checked
  | self, []      => .ok self
  | self, a :: as => do
    let self ← a.run now self
    runActions now self as

/-- A callback is called, and acts on the connection. -/
def callBack (self : SancusTcpConn) (cb : Callback) (acts : List Action) (now : Timespec) :
    Checked :=
  runActions now { self with trace := self.trace ++ [cb] } acts

/-- The bits of `revents`. -/
structure Revents where
  read : Bool
  write : Bool
  error : Bool
  deriving DecidableEq

/-- What `getsockopt(SO_ERROR)` answers: it fails with an `errno`, or gives the error of the
    socket, 0 when there is none. -/
inductive SockOpt where
  | failed (errno : Int)
  | error (error : Int)
  deriving DecidableEq

/-- The end of a failed `connect`. -/
def connectFailed (self : SancusTcpConn) (errno : Int) (acts : List Action) (now : Timespec) :
    Checked :=
  callBack { self with errno := errno, state := .failed } (.onError .connectError) acts now

/-- The label `connect_done`. -/
def connectDone (self : SancusTcpConn) (acts : List Action) (now : Timespec) : Checked := do
  -- The watcher is stopped, set up again for reads only, and started.
  let self := { self with active := true, mask := .readOnly }
  let self ← callBack self .onConnect acts now
  return sancusTcpConnTouch { self with state := .running } now

/-- `case SANCUS_TCP_CONN_CONNECTED`. -/
def caseConnected (self : SancusTcpConn) (revents : Revents) (acts : List Action)
    (now : Timespec) : Checked := do
  let self ← asserting (revents.write = true) self
  connectDone self acts now

/-- `case SANCUS_TCP_CONN_INPROGRESS`. -/
def caseInProgress (self : SancusTcpConn) (revents : Revents) (sockopt : SockOpt)
    (acts : List Action) (now : Timespec) : Checked := do
  let self ← asserting (revents.write = true) self
  if revents.read then
    match sockopt with
    | .failed errno => connectFailed self errno acts now
    | .error error  =>
      if error = 0 then connectDone self acts now else connectFailed self error acts now
  -- fall-through
  else caseConnected self revents acts now

/-- `case SANCUS_TCP_CONN_RUNNING`. -/
def caseRunning (self : SancusTcpConn) (revents : Revents) (acts : List Action)
    (now : Timespec) : Checked := do
  if revents.read then
    let self ← callBack self .onRead acts now
    return sancusTcpConnTouch self now
  else return self

/-- `io_cb`.  `acts` is what the callback it calls does, if it calls one. -/
def ioCb (self : SancusTcpConn) (revents : Revents) (sockopt : SockOpt) (acts : List Action)
    (now : Timespec) : Checked :=
  if revents.error then callBack self (.onError .watcherError) acts now
  else match self.state with
    | .inProgress => caseInProgress self revents sockopt acts now
    | .connected  => caseConnected self revents acts now
    | .running    => caseRunning self revents acts now
    | .failed     => .error self

/-! ### The machine -/

/-- A connection, and whether an assertion has ended the program. -/
structure State where
  conn : SancusTcpConn
  aborted : Bool
  deriving DecidableEq

/-- What happens to a connection: an event, at the time `now` of the loop, or a call. -/
inductive Label where
  | event (revents : Revents) (sockopt : SockOpt) (acts : List Action) (now : Timespec)
  | action (a : Action) (now : Timespec)

def toState : Checked → State
  | .ok self    => ⟨self, false⟩
  | .error self => ⟨self, true⟩

/-- One step; `none` when the program has ended. -/
def step (s : State) (a : Label) : Option State :=
  if s.aborted then none
  else match a with
    | .event revents sockopt acts now => some (toState (ioCb s.conn revents sockopt acts now))
    | .action a now                   => some (toState (a.run now s.conn))

/-! ### What actions leave alone -/

variable {c c' : SancusTcpConn} {now : Timespec} {acts : List Action}
  {revents : Revents} {sockopt : SockOpt}

/-- The state of the connection, the mask of its watcher and the callbacks made are the same. -/
structure Same (c c' : SancusTcpConn) : Prop where
  state : c'.state = c.state
  mask : c'.mask = c.mask
  trace : c'.trace = c.trace

theorem Same.refl (c : SancusTcpConn) : Same c c := ⟨rfl, rfl, rfl⟩

theorem Same.trans {c'' : SancusTcpConn} (h : Same c c') (h' : Same c' c'') : Same c c'' :=
  ⟨h'.state.trans h.state, h'.mask.trans h.mask, h'.trace.trans h.trace⟩

theorem same_start : Same c (sancusTcpConnStart c now) := by
  unfold sancusTcpConnStart
  split
  · exact .refl c
  · dsimp only
    split
    · exact ⟨rfl, rfl, rfl⟩
    · exact ⟨rfl, rfl, rfl⟩

theorem same_close : Same c (toState (sancusTcpConnClose c)).conn := by
  unfold sancusTcpConnClose asserting
  by_cases hfd : 0 ≤ c.fd
  · rw [if_pos hfd]
    show Same c (toState ((if c.active = false then .ok c else .error c) >>= _)).conn
    by_cases hactive : c.active = false
    · rw [if_pos hactive]
      exact ⟨rfl, rfl, rfl⟩
    · rw [if_neg hactive]
      exact .refl c
  · rw [if_neg hfd]
    exact .refl c

theorem Action.same_run (a : Action) : Same c (toState (a.run now c)).conn := by
  cases a with
  | start => exact same_start
  | stop => exact ⟨rfl, rfl, rfl⟩
  | close => exact same_close

theorem same_runActions : Same c (toState (runActions now c acts)).conn := by
  induction acts generalizing c with
  | nil => exact .refl c
  | cons a acts ih =>
    have hrun : Same c (toState (a.run now c)).conn := a.same_run
    rw [runActions]
    cases hc : a.run now c with
    | ok c₁ =>
      rw [hc] at hrun
      exact hrun.trans ih
    | error c₁ =>
      rw [hc] at hrun
      exact hrun

/-- A callback is noted, and changes neither the state nor the mask. -/
theorem callBack_spec (c : SancusTcpConn) (cb : Callback) (acts : List Action) (now : Timespec) :
    (toState (callBack c cb acts now)).conn.state = c.state ∧
    (toState (callBack c cb acts now)).conn.mask = c.mask ∧
    (toState (callBack c cb acts now)).conn.trace = c.trace ++ [cb] := by
  have hsame : Same { c with trace := c.trace ++ [cb] } (toState (callBack c cb acts now)).conn :=
    same_runActions
  exact ⟨hsame.state, hsame.mask, hsame.trace⟩

/-! ### What an event can do -/

/-- What an event can make of a connection, and whether it ends the program. -/
inductive Outcome (c : SancusTcpConn) (revents : Revents) (now : Timespec) : State → Prop
  /-- An assertion fails before anything is called. -/
  | refused : Outcome c revents now ⟨c, true⟩
  /-- A connection that runs has an event that is not readable. -/
  | ignored (h : c.state = .running) : Outcome c revents now ⟨c, false⟩
  /-- The watcher is in error. -/
  | watcherError (s : State) (hstate : s.conn.state = c.state) (hmask : s.conn.mask = c.mask)
      (htrace : s.conn.trace = c.trace ++ [.onError .watcherError]) : Outcome c revents now s
  /-- The connection could not be established. -/
  | failed (s : State) (herror : revents.error = false) (hbefore : c.state = .inProgress)
      (hstate : s.conn.state = .failed) (hmask : s.conn.mask = c.mask)
      (htrace : s.conn.trace = c.trace ++ [.onError .connectError]) : Outcome c revents now s
  /-- The connection is established. -/
  | connected (s : State) (herror : revents.error = false)
      (hbefore : c.state = .inProgress ∨ c.state = .connected)
      (hmask : s.conn.mask = .readOnly) (htrace : s.conn.trace = c.trace ++ [.onConnect])
      (hgoes : s.aborted = false → s.conn.state = .running ∧ s.conn.lastActivity = now) :
      Outcome c revents now s
  /-- There is something to be read. -/
  | read (s : State) (herror : revents.error = false) (hbefore : c.state = .running)
      (hstate : s.conn.state = .running) (hmask : s.conn.mask = c.mask)
      (htrace : s.conn.trace = c.trace ++ [.onRead])
      (hgoes : s.aborted = false → s.conn.lastActivity = now) : Outcome c revents now s

theorem outcome_connectFailed {errno : Int} (herror : revents.error = false)
    (hbefore : c.state = .inProgress) :
    Outcome c revents now (toState (connectFailed c errno acts now)) := by
  obtain ⟨hstate, hmask, htrace⟩ := callBack_spec { c with errno := errno, state := .failed }
    (.onError .connectError) acts now
  exact .failed _ herror hbefore hstate hmask htrace

theorem outcome_connectDone (herror : revents.error = false)
    (hbefore : c.state = .inProgress ∨ c.state = .connected) :
    Outcome c revents now (toState (connectDone c acts now)) := by
  obtain ⟨_, hmask, htrace⟩ := callBack_spec { c with active := true, mask := .readOnly } .onConnect
    acts now
  unfold connectDone
  dsimp only
  cases hc : callBack { c with active := true, mask := .readOnly } .onConnect acts now with
  | ok c₁ =>
    rw [hc] at hmask htrace
    exact .connected _ herror hbefore hmask htrace fun _ => ⟨rfl, rfl⟩
  | error c₁ =>
    rw [hc] at hmask htrace
    exact .connected _ herror hbefore hmask htrace nofun

theorem outcome_caseConnected (herror : revents.error = false)
    (hbefore : c.state = .inProgress ∨ c.state = .connected) :
    Outcome c revents now (toState (caseConnected c revents acts now)) := by
  unfold caseConnected asserting
  by_cases hwrite : revents.write = true
  · rw [if_pos hwrite]
    exact outcome_connectDone herror hbefore
  · rw [if_neg hwrite]
    exact .refused

theorem outcome_caseInProgress (herror : revents.error = false) (hbefore : c.state = .inProgress) :
    Outcome c revents now (toState (caseInProgress c revents sockopt acts now)) := by
  unfold caseInProgress asserting
  by_cases hwrite : revents.write = true
  · rw [if_pos hwrite]
    show Outcome c revents now (toState (if revents.read = true then _ else _))
    split
    · cases sockopt with
      | failed errno => exact outcome_connectFailed herror hbefore
      | error error =>
        dsimp only
        split
        · exact outcome_connectDone herror (.inl hbefore)
        · exact outcome_connectFailed herror hbefore
    · exact outcome_caseConnected herror (.inl hbefore)
  · rw [if_neg hwrite]
    exact .refused

theorem outcome_caseRunning (herror : revents.error = false) (hbefore : c.state = .running) :
    Outcome c revents now (toState (caseRunning c revents acts now)) := by
  unfold caseRunning
  split
  · obtain ⟨hstate, hmask, htrace⟩ := callBack_spec c .onRead acts now
    cases hc : callBack c .onRead acts now with
    | ok c₁ =>
      rw [hc] at hstate hmask htrace
      exact .read _ herror hbefore (hstate.trans hbefore) hmask htrace fun _ => rfl
    | error c₁ =>
      rw [hc] at hstate hmask htrace
      exact .read _ herror hbefore (hstate.trans hbefore) hmask htrace nofun
  · exact .ignored hbefore

/-- **What an event can do.**  Every path through the switch has one of these outcomes. -/
theorem ioCb_outcome : Outcome c revents now (toState (ioCb c revents sockopt acts now)) := by
  unfold ioCb
  by_cases herror : revents.error = true
  · rw [if_pos herror]
    obtain ⟨hstate, hmask, htrace⟩ := callBack_spec c (.onError .watcherError) acts now
    exact .watcherError _ hstate hmask htrace
  · rw [if_neg herror]
    rw [Bool.not_eq_true] at herror
    cases hstate : c.state with
    | inProgress => exact outcome_caseInProgress herror hstate
    | connected => exact outcome_caseConnected herror (.inr hstate)
    | running => exact outcome_caseRunning herror hstate
    | failed => exact .refused

end Sancus.Tcp
