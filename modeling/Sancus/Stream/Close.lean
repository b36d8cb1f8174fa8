import Sancus.Stream.ReadCb

namespace Sancus.Stream

open CModel

/-!
# Streams — closing

The descriptor of a stream can be closed by the application, by a callback in the middle of
`read_cb`, and by `read_cb` itself on its way out, after such a callback or without one.

* `Once` — the descriptor is the one the stream was given, or has been closed once;
* `GoesToCloseStream` — the answers after which `read_cb` closes the stream itself;
* `step_once` — the step lemma;
* `stream_closed_once` — over any run, closed once, and `on_close` called with it.
-/

/-- Either nothing has been closed yet, or the descriptor of the stream has, once, while the
    watcher was inactive, and `on_close` has been called. -/
def Once (fd : Int) (self : SancusStream) : Prop :=
  (self.fd = fd ∧ self.closed = [] ∧ self.closes = 0) ∨
    (self.fd = -1 ∧ self.closed = [(fd, false)] ∧ self.closes = 1)

/-- The label is the answer after which `read_cb` goes to `close_stream`. -/
def GoesToCloseStream (s : State) : Label → Prop
  | .onRead _ _ ret  => s.pc = .onRead ∧ ret < 0
  | .onError _ _ ret => ret = true
  | _                => False

variable {fd : Int} {self self' : SancusStream} {s s' : State} {a : Label}

/-! ### What the calls do -/

/-- Once the stream is closed, stopping and closing it again do not touch the descriptor. -/
theorem sancusStreamClose_of_closed (h : self.fd = -1) : sancusStreamClose self = self :=
  if_neg (by omega)

theorem Once.stop (h : Once fd self) : Once fd (sancusStreamStop self) := h

theorem Once.close (h : Once fd self) (hfd : 0 ≤ fd) : Once fd (sancusStreamClose self) := by
  rcases h with ⟨hopen, hclosed, hcloses⟩ | h
  · by_cases hinactive : self.active = false
    · rw [sancusStreamClose, if_pos ⟨by omega, hinactive⟩]
      refine .inr ⟨rfl, ?_, ?_⟩
      · rw [hclosed, hopen, hinactive]
        rfl
      · rw [hcloses]
    · rw [sancusStreamClose, if_neg fun hc => hinactive hc.2]
      exact .inl ⟨hopen, hclosed, hcloses⟩
  · rw [sancusStreamClose_of_closed h.1]
    exact .inr h

/-- The path of `close_stream` leaves the stream stopped and closed. -/
theorem closeStream_closed (h : Once fd self) (hfd : 0 ≤ fd) :
    (closeStream self).active = false ∧ (closeStream self).fd = -1 := by
  unfold closeStream sancusStreamClose
  rcases h with ⟨hopen, _⟩ | ⟨hclosed, _⟩
  · rw [if_pos ⟨show 0 ≤ self.fd by omega, rfl⟩]
    exact ⟨rfl, rfl⟩
  · rw [if_neg (by show ¬ (0 ≤ self.fd ∧ _); omega)]
    exact ⟨rfl, hclosed⟩

theorem Once.run {act : Action} (h : Once fd self) (hfd : 0 ≤ fd)
    (hrun : act.run self = some self') : Once fd self' := by
  cases act with
  | start =>
    obtain ⟨_, hself'⟩ := Option.ite_none_left_eq_some.mp hrun
    obtain rfl := Option.some.inj hself'
    exact h
  | stop =>
    obtain rfl := Option.some.inj hrun
    exact h.stop
  | close =>
    obtain rfl := Option.some.inj hrun
    exact h.close hfd

theorem Once.runActions {acts : List Action} (h : Once fd self) (hfd : 0 ≤ fd)
    (hrun : runActions self acts = some self') : Once fd self' := by
  rw [runActions_eq_run] at hrun
  exact Machine.run_keeps (I := Once fd) h (fun _ _ _ hs hact => hs.run hfd hact) hrun

/-! ### Steps and runs -/

theorem Once.onReadDone (h : Once fd self) (hfd : 0 ≤ fd) (ret : Int) :
    Once fd (onReadDone self ret).stream := by
  unfold Stream.onReadDone
  split
  · dsimp only
    split
    · rw [stream_whileLen]
      exact h
    · exact h
  · split
    · exact h
    · exact h.stop.close hfd

theorem Once.onErrorDone (h : Once fd self) (hfd : 0 ≤ fd) (error : StreamError) (ret : Bool) :
    Once fd (onErrorDone self error ret).stream := by
  unfold Stream.onErrorDone
  split
  · exact h.stop.close hfd
  · cases error with
    | readFull =>
      rw [stream_readBufferAvailable]
      exact h
    | readEof => exact h
    | readError => exact h

/-- What `read(2)` answers changes the read buffer only. -/
theorem Once.readDone (h : Once fd self) (reply : ReadReply) :
    Once fd (readDone self reply).stream := by
  cases reply with
  | data bytes =>
    rw [Stream.readDone, stream_whileLen]
    exact h
  | eof => exact h
  | failed errno =>
    show Once fd (if _ then _ else if _ then _ else _ : State).stream
    split
    · exact h
    · split
      · exact h
      · exact h

/-- **Step lemma.**  Whatever happens, the stream is closed at most once. -/
theorem step_once (h : Once fd s.stream) (hfd : 0 ≤ fd) (hstep : step s a = some s') :
    Once fd s'.stream := by
  cases a with
  | event =>
    obtain ⟨_, rfl⟩ := step_event.mp hstep
    rw [stream_readBufferAvailable]
    exact h
  | process =>
    obtain ⟨_, rfl⟩ := step_process.mp hstep
    exact h
  | action act =>
    obtain ⟨_, self, hrun, rfl⟩ := step_action.mp hstep
    exact h.run hfd hrun
  | read count reply =>
    obtain ⟨_, rfl⟩ := step_read.mp hstep
    exact h.readDone reply
  | onRead block acts ret =>
    obtain ⟨_, self, hacts, ⟨_, rfl⟩ | ⟨_, rfl⟩⟩ := step_onRead hstep
    · exact (h.runActions hfd hacts).onReadDone hfd ret
    · have hself := h.runActions hfd hacts
      dsimp only
      split
      · exact hself
      · exact hself
  | onError error acts ret =>
    obtain ⟨_, self, hacts, rfl⟩ := step_onError.mp hstep
    exact (h.runActions hfd hacts).onErrorDone hfd error ret

/-- The path of `close_stream` ends in a stream that is stopped and closed. -/
theorem step_closeStream (h : Once fd s.stream) (hfd : 0 ≤ fd) (hstep : step s a = some s')
    (hgoes : GoesToCloseStream s a) : s'.stream.active = false ∧ s'.stream.fd = -1 := by
  cases a with
  | onRead block acts ret =>
    obtain ⟨hpc, hret⟩ := hgoes
    obtain ⟨_, self, hacts, ⟨_, rfl⟩ | ⟨hpc', _⟩⟩ := step_onRead hstep
    · unfold onReadDone
      rw [if_neg (by omega), if_neg (by omega)]
      exact closeStream_closed (h.runActions hfd hacts) hfd
    · rw [hpc] at hpc'
      cases hpc'
  | onError error acts ret =>
    obtain ⟨_, self, hacts, rfl⟩ := step_onError.mp hstep
    have hret : ret = true := hgoes
    unfold onErrorDone
    rw [if_pos hret]
    exact closeStream_closed (h.runActions hfd hacts) hfd
  | event => exact hgoes.elim
  | process => exact hgoes.elim
  | action _ => exact hgoes.elim
  | read _ _ => exact hgoes.elim

/-- **A stream is closed once.**  In every run from a stream just initialised, whatever
    `read(2)` answers and whatever the application and its callbacks do: the descriptor has
    been closed at most once, while the watcher was inactive, `on_close` has been called as
    often, and `fd` is -1 exactly when it has; and a read event that ends through
    `close_stream` leaves the stream stopped and closed. -/
theorem stream_closed_once (fd : Int) (readBuffer : Mem) (readBufSize : Nat)
    (labels : List Label) (s₀ s : State) (hstart : start fd readBuffer readBufSize = some s₀)
    (hrun : Machine.run step s₀ labels = some s) :
    s.stream.closed.length ≤ 1 ∧ (∀ c ∈ s.stream.closed, c = (fd, false)) ∧
      s.stream.closes = s.stream.closed.length ∧
      (s.stream.fd = -1 ↔ s.stream.closed.length = 1) ∧
      ∀ pre a post t t', labels = pre ++ a :: post → Machine.run step s₀ pre = some t →
        step t a = some t' → GoesToCloseStream t a →
          t'.stream.active = false ∧ t'.stream.fd = -1 := by
  obtain ⟨⟨hfd, _⟩, rfl⟩ := start_eq_some.mp hstart
  have honce : ∀ as t, Machine.run step
      ⟨.idle, ⟨fd, false, sancusBufferBind readBuffer readBufSize, 0, []⟩⟩ as = some t →
        Once fd t.stream := by
    intro as t hrun
    exact Machine.run_keeps (I := fun t => Once fd t.stream) (.inl ⟨rfl, rfl, rfl⟩)
      (fun _ _ _ ht hstep => step_once ht hfd hstep) hrun
  refine and_assoc.mp (and_assoc.mp (and_assoc.mp ⟨?_, ?_⟩))
  · rcases honce labels s hrun with ⟨hopen, hclosed, hcloses⟩ | ⟨hopen, hclosed, hcloses⟩
    · rw [hopen, hclosed, hcloses]
      refine ⟨⟨⟨by decide, nofun⟩, rfl⟩, ?_⟩
      exact iff_of_false (by omega) (by decide)
    · rw [hopen, hclosed, hcloses]
      refine ⟨⟨⟨le_rfl, ?_⟩, rfl⟩, iff_of_true rfl rfl⟩
      intro c hc
      exact List.mem_singleton.mp hc
  · intro pre a post t t' _ hpre hstep hgoes
    exact step_closeStream (honce pre t hpre) hfd hstep hgoes

/-- A stream that `on_read` stops and closes before it asks for the same by returning -1. -/
theorem stream_closed_once_twice :
    ∃ s, Machine.run step
        ⟨.idle, ⟨3, false, sancusBufferBind (Mem.fresh fun _ => 0) 8, 0, []⟩⟩
        [.action .start, .event, .read 8 (.data [1]), .onRead [1] [.stop, .close] (-1)] = some s ∧
      s.stream.closed.length ≤ 1 ∧ (∀ c ∈ s.stream.closed, c = (3, false)) ∧
        s.stream.closes = s.stream.closed.length := by
  refine ⟨_, rfl, ?_⟩
  have hall := stream_closed_once 3 (Mem.fresh fun _ => 0) 8
    [.action .start, .event, .read 8 (.data [1]), .onRead [1] [.stop, .close] (-1)] _ _ rfl rfl
  exact ⟨hall.1, hall.2.1, hall.2.2.1⟩

end Sancus.Stream
