import Sancus.CModel.Machine
import Sancus.Stream.Buffer

namespace Sancus.Stream

open CModel

/-!
# Streams — the read callback as a machine

`read_cb` runs when its watcher is readable, and calls back into the application.  Its
control points are the places where it waits for an answer: for `read(2)`, `on_read`
or `on_error`.  A callback may start, stop and close the stream before it returns; it leaves
the read buffer alone, and calls neither `sancus_stream_reset_readbuffer` nor
`sancus_stream_process`.

* `SancusStream` — the watcher, the descriptor and the read buffer;
* `Pc` / `State` — the control points, and a stream at one of them;
* `Label` — what happens: an event, a call of the application, an answer;
* `step` — `read_cb` and `sancus_stream_process`, from one control point to the next.
-/

/-- `struct sancus_stream`: the descriptor and the state of the watcher, the read buffer, the
    number of times `on_close` has been called, and the descriptors that have been closed,
    each with whether the watcher was active then. -/
structure SancusStream where
  fd : Int
  active : Bool
  readBuffer : Buffer
  closes : Nat
  closed : List (Int × Bool)

/-- `sancus_stream_init` on a read buffer that is not null; `none` when an assertion fails. -/
def sancusStreamInit (fd : Int) (readBuffer : Mem) (readBufSize : Nat) : Option SancusStream :=
  if 0 ≤ fd ∧ 0 < readBufSize then some ⟨fd, false, sancusBufferBind readBuffer readBufSize, 0, []⟩
  else none

/-- `sancus_stream_start`; `none` when its assertion fails. -/
def sancusStreamStart (self : SancusStream) : Option SancusStream :=
  if self.active then none else some { self with active := true }

/-- `sancus_stream_stop`. -/
def sancusStreamStop (self : SancusStream) : SancusStream := { self with active := false }

/-- `sancus_stream_close`, with one `sancus_close` for the descriptor; `Fd.sancusClose` has the calls
    of `close(2)` that this takes. -/
def sancusStreamClose (self : SancusStream) : SancusStream :=
  if 0 ≤ self.fd ∧ self.active = false then
    { self with
      fd := -1
      closed := self.closed ++ [(self.fd, self.active)]
      closes := self.closes + 1 }
  else self

/-- The label `close_stream` of `read_cb`. -/
def closeStream (self : SancusStream) : SancusStream := sancusStreamClose (sancusStreamStop self)

/-- What the application, or a callback of it, does with the stream, apart from its read buffer. -/
inductive Action where
  | start
  | stop
  | close
  deriving DecidableEq

def Action.run (self : SancusStream) : Action → Option SancusStream
  | start => sancusStreamStart self
  | stop  => some (sancusStreamStop self)
  | close => some (sancusStreamClose self)

/-- The actions of a callback, one after the other. -/
def runActions : SancusStream → List Action → Option SancusStream
  | self, []      => some self
  | self, a :: as => (a.run self).bind fun self' => runActions self' as

theorem runActions_eq_run (self : SancusStream) (acts : List Action) :
    runActions self acts = Machine.run Action.run self acts := by
  induction acts generalizing self with
  | nil => rfl
  | cons a acts ih => simp only [runActions, Machine.run, ih]

/-- `enum sancus_stream_error`. -/
inductive StreamError where
  | readError
  | readEof
  | readFull
  deriving DecidableEq

def EINTR : Nat := 4
def EAGAIN : Nat := 11

/-- What `read(2)` answers. -/
inductive ReadReply where
  | data (bytes : List UInt8)
  | eof
  | failed (errno : Nat)
  deriving DecidableEq

/-- The points where the stream waits: for an event or a call, for `read(2)`, for `on_error`
    to answer, for `on_read` in the loop of `read_cb`, or in `sancus_stream_process`. -/
inductive Pc where
  | idle
  | tryRead
  | onError (error : StreamError)
  | onRead
  | processing
  deriving DecidableEq

structure State where
  pc : Pc
  stream : SancusStream

/-- What happens at a control point. -/
inductive Label where
  /-- The loop calls `read_cb` with `SANCUS_EV_READ`, the watcher being active or not. -/
  | event
  /-- The application calls `sancus_stream_process`. -/
  | process
  /-- The application acts on the stream. -/
  | action (a : Action)
  /-- `read(2)` is called with `count` bytes of room, and answers. -/
  | read (count : Nat) (reply : ReadReply)
  /-- `on_read` is called with `block`, acts on the stream and returns `ret`. -/
  | onRead (block : List UInt8) (acts : List Action) (ret : Int)
  /-- `on_error` is called with `error`, acts on the stream and returns `ret`. -/
  | onError (error : StreamError) (acts : List Action) (ret : Bool)

/-- The label `read_buffer_available`. -/
def readBufferAvailable (self : SancusStream) : State :=
  if sancusBufferAvailable self.readBuffer = 0 then ⟨.onError .readFull, self⟩
  else ⟨.tryRead, self⟩

/-- The head of `while ((l = sancus_buffer_len(buf)))`. -/
def whileLen (self : SancusStream) : State :=
  if self.readBuffer.len = 0 then ⟨.idle, self⟩ else ⟨.onRead, self⟩

/-- `sancus_buffer_skip` on the read buffer. -/
def skip (self : SancusStream) (l : Int) : SancusStream :=
  { self with readBuffer := (sancusBufferSkip self.readBuffer l.toNat).1 }

/-- `read(2)` has answered. -/
def readDone (self : SancusStream) : ReadReply → State
  | .data bytes   => whileLen { self with readBuffer := sancusBufferReadDone self.readBuffer bytes }
  | .eof          => ⟨.onError .readEof, self⟩
  | .failed errno =>
    -- `sancus_read` has its own loop around `EINTR`, which comes to the same.
    if errno = EINTR then ⟨.tryRead, self⟩
    else if errno = EAGAIN then ⟨.idle, self⟩
    else ⟨.onError .readError, self⟩

/-- `on_read` has returned `l` to the loop of `read_cb`. -/
def onReadDone (self : SancusStream) (l : Int) : State :=
  if 0 < l then
    let self' := skip self l
    -- `on_read` may have stopped the watcher: what is left then waits for a later call.
    if self'.active then whileLen self' else ⟨.idle, self'⟩
  else if l = 0 then ⟨.idle, self⟩
  else ⟨.idle, closeStream self⟩

/-- `on_error` has returned. -/
def onErrorDone (self : SancusStream) (error : StreamError) (ret : Bool) : State :=
  if ret then ⟨.idle, closeStream self⟩
  else
    match error with
    -- `goto read_buffer_available`, in case `on_error` has made room.
    | .readFull => readBufferAvailable self
    | .readEof | .readError => ⟨.idle, self⟩

/-- The answers `read(2)` can give when it is called with `count` bytes of room. -/
def ReadReply.Possible (count : Nat) : ReadReply → Prop
  | data bytes   => 0 < bytes.length ∧ bytes.length ≤ count
  | eof | failed _ => True

instance (count : Nat) (reply : ReadReply) : Decidable (reply.Possible count) := by
  cases reply <;> unfold ReadReply.Possible <;> infer_instance

/-- One step of the stream; `none` when the label is not possible in the state, or when a
    callback makes an assertion fail. -/
def step (s : State) : Label → Option State
  | .event =>
    if s.pc = .idle then some (readBufferAvailable s.stream) else none
  | .process =>
    if s.pc = .idle then
      some ⟨if 0 < s.stream.readBuffer.len then .processing else .idle, s.stream⟩
    else none
  | .action a =>
    if s.pc = .idle then (a.run s.stream).map fun self => ⟨.idle, self⟩ else none
  | .read count reply =>
    if s.pc = .tryRead ∧ count = sancusBufferAvailable s.stream.readBuffer ∧
        reply.Possible count then
      some (readDone s.stream reply)
    else none
  | .onRead block acts ret =>
    if block = s.stream.readBuffer.contents then
      match s.pc with
      | .onRead     => (runActions s.stream acts).map fun self => onReadDone self ret
      | .processing =>
        (runActions s.stream acts).map fun self => ⟨.idle, if 0 < ret then skip self ret else self⟩
      | _           => none
    else none
  | .onError error acts ret =>
    if s.pc = .onError error then
      (runActions s.stream acts).map fun self => onErrorDone self error ret
    else none

/-- The stream just initialised, waiting for its first event. -/
def start (fd : Int) (readBuffer : Mem) (readBufSize : Nat) : Option State :=
  (sancusStreamInit fd readBuffer readBufSize).map fun self => ⟨.idle, self⟩

/-! ### What each label does -/

section

variable {s s' : State}

/-- A stream starts out idle, with an empty buffer of the size it was given. -/
theorem start_eq_some {fd : Int} {buf : Mem} {n : Nat} : start fd buf n = some s ↔
    (0 ≤ fd ∧ 0 < n) ∧ s = ⟨.idle, ⟨fd, false, sancusBufferBind buf n, 0, []⟩⟩ := by
  rw [start, sancusStreamInit]
  by_cases h : 0 ≤ fd ∧ 0 < n
  · simp [h, eq_comm]
  · simp [h]

theorem step_event : step s .event = some s' ↔
    s.pc = .idle ∧ s' = readBufferAvailable s.stream := by
  rw [step, Option.ite_none_right_eq_some, Option.some.injEq, eq_comm (a := s')]

theorem step_process : step s .process = some s' ↔ s.pc = .idle ∧
    s' = ⟨if 0 < s.stream.readBuffer.len then .processing else .idle, s.stream⟩ := by
  rw [step, Option.ite_none_right_eq_some, Option.some.injEq, eq_comm (a := s')]

theorem step_action {a : Action} : step s (.action a) = some s' ↔
    s.pc = .idle ∧ ∃ self, a.run s.stream = some self ∧ ⟨.idle, self⟩ = s' := by
  rw [step, Option.ite_none_right_eq_some, Option.map_eq_some_iff]

theorem step_read {count : Nat} {reply : ReadReply} : step s (.read count reply) = some s' ↔
    (s.pc = .tryRead ∧ count = sancusBufferAvailable s.stream.readBuffer ∧
      reply.Possible count) ∧ s' = readDone s.stream reply := by
  rw [step, Option.ite_none_right_eq_some, Option.some.injEq, eq_comm (a := s')]

theorem step_onRead {block : List UInt8} {acts : List Action} {ret : Int}
    (h : step s (.onRead block acts ret) = some s') :
    block = s.stream.readBuffer.contents ∧ ∃ self, runActions s.stream acts = some self ∧
      (s.pc = .onRead ∧ s' = onReadDone self ret ∨
        s.pc = .processing ∧ s' = ⟨.idle, if 0 < ret then skip self ret else self⟩) := by
  obtain ⟨hblock, h⟩ := Option.ite_none_right_eq_some.mp h
  refine ⟨hblock, ?_⟩
  split at h
  · next hpc =>
    obtain ⟨self, hself, rfl⟩ := Option.map_eq_some_iff.mp h
    exact ⟨self, hself, .inl ⟨hpc, rfl⟩⟩
  · next hpc =>
    obtain ⟨self, hself, rfl⟩ := Option.map_eq_some_iff.mp h
    exact ⟨self, hself, .inr ⟨hpc, rfl⟩⟩
  · cases h

theorem step_onError {error : StreamError} {acts : List Action} {ret : Bool} :
    step s (.onError error acts ret) = some s' ↔ s.pc = .onError error ∧
      ∃ self, runActions s.stream acts = some self ∧ onErrorDone self error ret = s' := by
  rw [step, Option.ite_none_right_eq_some, Option.map_eq_some_iff]

end

/-! ### What the parts do to the read buffer -/

variable {self self' : SancusStream}

@[simp] theorem readBuffer_stop (self : SancusStream) :
    (sancusStreamStop self).readBuffer = self.readBuffer := rfl

@[simp] theorem readBuffer_close (self : SancusStream) :
    (sancusStreamClose self).readBuffer = self.readBuffer := by
  unfold sancusStreamClose
  split <;> rfl

@[simp] theorem readBuffer_closeStream (self : SancusStream) :
    (closeStream self).readBuffer = self.readBuffer := by
  rw [closeStream, readBuffer_close, readBuffer_stop]

@[simp] theorem stream_readBufferAvailable (self : SancusStream) :
    (readBufferAvailable self).stream = self := by
  unfold readBufferAvailable
  split <;> rfl

@[simp] theorem stream_whileLen (self : SancusStream) : (whileLen self).stream = self := by
  unfold whileLen
  split <;> rfl

theorem Action.readBuffer_run {a : Action} (h : a.run self = some self') :
    self'.readBuffer = self.readBuffer := by
  cases a with
  | start =>
    simp only [Action.run, sancusStreamStart] at h
    split at h
    · cases h
    · obtain rfl := Option.some.inj h
      rfl
  | stop =>
    obtain rfl := Option.some.inj h
    rfl
  | close =>
    obtain rfl := Option.some.inj h
    exact readBuffer_close self

/-- Starting, stopping and closing leave the read buffer alone. -/
theorem readBuffer_runActions {acts : List Action} (h : runActions self acts = some self') :
    self'.readBuffer = self.readBuffer := by
  rw [runActions_eq_run] at h
  exact Machine.run_keeps (I := fun t => t.readBuffer = self.readBuffer) rfl
    (fun _ _ _ hs ha => (Action.readBuffer_run ha).trans hs) h

end Sancus.Stream
