import Sancus.Stream.ReadCb

namespace Sancus.Stream

open CModel

/-!
# Streams — what the application sees of what was read

Every byte that `read(2)` returns is handed to the application in order, and stays in the
buffer until the application consumes it.

* `chunks` / `consumed` — what a run has read, and what `on_read` has taken of it;
* `step_readBuffer` — what one step does to the buffer, for every label;
* `History` — the invariant: what was read is what was consumed and what is in the buffer;
* `stream_history` — no byte is lost, duplicated or moved.
-/

/-! ### What a run has read and consumed -/

/-- The bytes a label brings in. -/
def Label.chunk : Label → List UInt8
  | .read _ (.data bytes) => bytes
  | _                     => []

/-- The bytes a label takes out: of a block, as many as a positive `on_read` returns. -/
def Label.taken : Label → List UInt8
  | .onRead block _ ret => block.take ret.toNat
  | _                   => []

def chunks (labels : List Label) : List UInt8 := labels.flatMap Label.chunk
def consumed (labels : List Label) : List UInt8 := labels.flatMap Label.taken

/-! ### One step -/

/-- What a label does to the read buffer, at whatever control point it comes. -/
def Label.effect (b : Buffer) : Label → Buffer
  | .read _ (.data bytes) => sancusBufferReadDone b bytes
  | .onRead _ _ ret       => if 0 < ret then (sancusBufferSkip b ret.toNat).1 else b
  | _                     => b

variable {s s' : State} {a : Label} {labels : List Label}

theorem readBuffer_readDone (self : SancusStream) (count : Nat) (reply : ReadReply) :
    (readDone self reply).stream.readBuffer = (Label.read count reply).effect self.readBuffer := by
  cases reply with
  | data bytes => rw [readDone, stream_whileLen]; rfl
  | eof => rfl
  | failed e =>
    rw [readDone]
    split_ifs <;> rfl

theorem readBuffer_onReadDone (self : SancusStream) (block : List UInt8) (acts : List Action)
    (ret : Int) : (onReadDone self ret).stream.readBuffer =
      (Label.onRead block acts ret).effect self.readBuffer := by
  unfold onReadDone Label.effect
  by_cases hret : 0 < ret
  · simp only [if_pos hret]
    split_ifs
    · rw [stream_whileLen]; rfl
    · rfl
  · simp only [if_neg hret]
    split_ifs
    · rfl
    · exact readBuffer_closeStream self

theorem readBuffer_onErrorDone (self : SancusStream) (error : StreamError) (ret : Bool) :
    (onErrorDone self error ret).stream.readBuffer = self.readBuffer := by
  unfold onErrorDone
  split_ifs
  · exact readBuffer_closeStream self
  · cases error with
    | readFull => exact congrArg _ (stream_readBufferAvailable self)
    | readEof => rfl
    | readError => rfl

/-- **Every step has the effect of its label** on the read buffer, and no other. -/
theorem step_readBuffer (h : step s a = some s') :
    s'.stream.readBuffer = a.effect s.stream.readBuffer := by
  cases a with
  | event =>
    obtain ⟨_, rfl⟩ := step_event.mp h
    exact congrArg _ (stream_readBufferAvailable s.stream)
  | process =>
    obtain ⟨_, rfl⟩ := step_process.mp h
    rfl
  | action act =>
    obtain ⟨_, self, hself, rfl⟩ := step_action.mp h
    exact act.readBuffer_run hself
  | read count reply =>
    obtain ⟨_, rfl⟩ := step_read.mp h
    exact readBuffer_readDone s.stream count reply
  | onRead block acts ret =>
    obtain ⟨_, self, hself, ⟨_, rfl⟩ | ⟨_, rfl⟩⟩ := step_onRead h
    · rw [readBuffer_onReadDone self block acts, readBuffer_runActions hself]
    · show (if 0 < ret then skip self ret else self).readBuffer = _
      rw [Label.effect, ← readBuffer_runActions hself]
      split_ifs <;> rfl
  | onError error acts ret =>
    obtain ⟨_, self, hself, rfl⟩ := step_onError.mp h
    rw [readBuffer_onErrorDone, readBuffer_runActions hself]
    rfl

/-- What is true of the read buffer at the point where the stream waits. -/
def PcOk (s : State) : Prop :=
  match s.pc with
  | .onRead | .processing => s.stream.readBuffer.len ≠ 0
  | .onError .readFull    => sancusBufferAvailable s.stream.readBuffer = 0
  | .tryRead              => sancusBufferAvailable s.stream.readBuffer ≠ 0
  | _                     => True

theorem pcOk_readBufferAvailable (self : SancusStream) : PcOk (readBufferAvailable self) := by
  unfold readBufferAvailable
  split
  · next h => exact h
  · next h => exact h

theorem pcOk_whileLen (self : SancusStream) : PcOk (whileLen self) := by
  unfold whileLen
  split
  · trivial
  · next h => exact h

/-- A step comes to a control point in a state that is right for it. -/
theorem pcOk_step (hs : PcOk s) (h : step s a = some s') : PcOk s' := by
  cases a with
  | event =>
    obtain ⟨_, rfl⟩ := step_event.mp h
    exact pcOk_readBufferAvailable s.stream
  | process =>
    obtain ⟨_, rfl⟩ := step_process.mp h
    by_cases hlen : 0 < s.stream.readBuffer.len
    · rw [if_pos hlen]
      exact Nat.pos_iff_ne_zero.mp hlen
    · rw [if_neg hlen]
      trivial
  | action act =>
    obtain ⟨_, self, _, rfl⟩ := step_action.mp h
    trivial
  | read count reply =>
    obtain ⟨⟨hpc, _⟩, rfl⟩ := step_read.mp h
    cases reply with
    | data bytes => exact pcOk_whileLen _
    | eof => trivial
    | failed e =>
      rw [readDone]
      -- Interrupted, the stream waits at the same point with the same buffer.
      have htry : PcOk ⟨.tryRead, s.stream⟩ := by
        unfold PcOk at hs ⊢
        rw [hpc] at hs
        exact hs
      split_ifs
      · exact htry
      · trivial
      · trivial
  | onRead block acts ret =>
    obtain ⟨_, self, _, ⟨_, rfl⟩ | ⟨_, rfl⟩⟩ := step_onRead h
    · unfold onReadDone
      dsimp only
      split_ifs
      · exact pcOk_whileLen _
      · trivial
      · trivial
      · trivial
    · trivial
  | onError error acts ret =>
    obtain ⟨_, self, _, rfl⟩ := step_onError.mp h
    unfold onErrorDone
    split_ifs
    · trivial
    · cases error with
      | readFull => exact pcOk_readBufferAvailable self
      | readEof => trivial
      | readError => trivial

/-! ### The history of a run -/

/-- What was read is what was consumed, and what is in the buffer, which lies inside its
    array; the stream waits where the buffer allows. -/
structure History (labels : List Label) (s : State) : Prop where
  valid : s.stream.readBuffer.Valid
  bytes : consumed labels ++ s.stream.readBuffer.contents = chunks labels
  pc : PcOk s

theorem chunks_snoc (labels : List Label) (a : Label) :
    chunks (labels ++ [a]) = chunks labels ++ a.chunk := by
  simp [chunks]

theorem consumed_snoc (labels : List Label) (a : Label) :
    consumed (labels ++ [a]) = consumed labels ++ a.taken := by
  simp [consumed]

/-- The bytes a step moves: what the label takes and what it leaves are what was there and
    what it brings in. -/
theorem effect_contents (hs : s.stream.readBuffer.Valid) (h : step s a = some s') :
    (a.effect s.stream.readBuffer).Valid ∧
      a.taken ++ (a.effect s.stream.readBuffer).contents =
        s.stream.readBuffer.contents ++ a.chunk := by
  cases a with
  | read count reply =>
    cases reply with
    | data bytes =>
      obtain ⟨⟨_, rfl, _, hfit⟩, _⟩ := step_read.mp h
      exact contents_readDone hs hfit
    | eof => exact ⟨hs, (List.append_nil _).symm⟩
    | failed e => exact ⟨hs, (List.append_nil _).symm⟩
  | onRead block acts ret =>
    obtain ⟨rfl, _⟩ := step_onRead h
    unfold Label.effect Label.taken Label.chunk
    by_cases hret : 0 < ret
    · -- What is taken of the block and what the skip leaves make up the block.
      obtain ⟨hvalid, hcontents⟩ := contents_skip hs ret.toNat
      simp only [if_pos hret]
      rw [hcontents, List.take_append_drop, List.append_nil]
      exact ⟨hvalid, rfl⟩
    · simp only [if_neg hret]
      rw [Int.toNat_of_nonpos (by omega), List.take_zero, List.append_nil]
      exact ⟨hs, rfl⟩
  | event => exact ⟨hs, (List.append_nil _).symm⟩
  | process => exact ⟨hs, (List.append_nil _).symm⟩
  | action act => exact ⟨hs, (List.append_nil _).symm⟩
  | onError error acts ret => exact ⟨hs, (List.append_nil _).symm⟩

/-- **Step lemma.**  Every step keeps the history. -/
theorem History.step (hs : History labels s) (h : step s a = some s') :
    History (labels ++ [a]) s' := by
  obtain ⟨hvalid, hbytes⟩ := effect_contents hs.valid h
  rw [← step_readBuffer h] at hvalid hbytes
  refine ⟨hvalid, ?_, pcOk_step hs.pc h⟩
  rw [consumed_snoc, chunks_snoc, List.append_assoc, hbytes, ← hs.bytes, List.append_assoc]

theorem history_start {fd : Int} {buf : Mem} {n : Nat} {s₀ : State}
    (h : start fd buf n = some s₀) : History [] s₀ := by
  obtain ⟨_, rfl⟩ := start_eq_some.mp h
  exact ⟨valid_bind buf n, rfl, trivial⟩

/-- **Run lemma.** -/
theorem history_run {fd : Int} {buf : Mem} {n : Nat} {s₀ : State}
    (h₀ : start fd buf n = some s₀) (h : Machine.run Stream.step s₀ labels = some s) :
    History labels s :=
  Machine.run_invariant (history_start h₀) (fun _ _ _ _ hs hstep => hs.step hstep) h

/-- **No byte is lost, duplicated or moved.**  After every run of a stream, whatever is read
    and whatever the callbacks return: what was consumed, followed by the contents of the
    buffer, is what was read; the contents lie inside the buffer; and when `on_read` is
    called next it is with the contents, which are not empty. -/
theorem stream_history (fd : Int) (buf : Mem) (n : Nat) (s₀ s : State) (labels : List Label)
    (h₀ : start fd buf n = some s₀) (h : Machine.run step s₀ labels = some s) :
    consumed labels ++ s.stream.readBuffer.contents = chunks labels ∧
      s.stream.readBuffer.base + s.stream.readBuffer.len ≤ s.stream.readBuffer.size ∧
        ∀ block acts ret s', step s (.onRead block acts ret) = some s' →
          block = s.stream.readBuffer.contents ∧ block ≠ [] := by
  have hs := history_run h₀ h
  refine ⟨hs.bytes, hs.valid.1, ?_⟩
  intro block acts ret s' hstep
  obtain ⟨rfl, _, _, hpc⟩ := step_onRead hstep
  refine ⟨rfl, ?_⟩
  intro hnil
  -- Both points where `on_read` is waited for are come to with a buffer that is not empty.
  have hok := hs.pc
  rw [Buffer.contents_eq_nil] at hnil
  unfold PcOk at hok
  rcases hpc with ⟨hpc, _⟩ | ⟨hpc, _⟩
  · rw [hpc] at hok
    exact hok hnil
  · rw [hpc] at hok
    exact hok hnil

/-- A run of a 4-byte buffer in which the application takes one byte of two. -/
theorem stream_history_example :
    ∃ s₀ s, start 3 (Mem.fresh fun _ => 0) 4 = some s₀ ∧
      Machine.run step s₀ [.event, .read 4 (.data [7, 8]), .onRead [7, 8] [] 1] = some s ∧
        (consumed [.event, .read 4 (.data [7, 8]), .onRead [7, 8] [] 1] ++
            s.stream.readBuffer.contents =
              chunks [.event, .read 4 (.data [7, 8]), .onRead [7, 8] [] 1] ∧
          s.stream.readBuffer.base + s.stream.readBuffer.len ≤ s.stream.readBuffer.size ∧
            ∀ block acts ret s', step s (.onRead block acts ret) = some s' →
              block = s.stream.readBuffer.contents ∧ block ≠ []) := by
  refine ⟨_, _, rfl, rfl, ?_⟩
  exact stream_history 3 (Mem.fresh fun _ => 0) 4 _ _ _ rfl rfl

end Sancus.Stream
