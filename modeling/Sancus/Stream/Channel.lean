import Sancus.Fd.Write
import Sancus.Stream.History

namespace Sancus.Stream

open CModel

/-!
# Streams — from a writer to a stream

A program writes to one end of a connection with `sancus_write`, one block after the other, and a
stream reads from the other end.  The kernel keeps what it has taken until it is read; it may take
any part of a block, and each end goes on whenever it can.

* `Writing` / `Call` — a call of `sancus_write` that is under way, and one that has returned;
* `Channel` / `channelStep` — the writer, the bytes on their way and the stream;
* `ChannelOk` — the invariant: what was taken is what was read, and what is on its way;
* `ChannelOk.step` — the step lemma;
* `channel_delivers` — over any run, every byte arrives once and in order.
-/

/-! ### The two ends -/

/-- A call of `sancus_write` that is under way: the memory it was called with, the block, and the
    variables of its loop. -/
structure Writing where
  memory : Nat → UInt8
  data : Nat
  count : Nat
  loop : Fd.WriteState

def Writing.block (w : Writing) : List UInt8 := (List.range' w.data w.count).map w.memory
def Writing.taken (w : Writing) : List UInt8 := w.loop.sent.map w.memory

/-- A call that has returned: its block, what the kernel has taken of it, and the result. -/
structure Call where
  block : List UInt8
  taken : List UInt8
  ret : Int

/-- The calls that have returned, and the one that is under way, if any; whether the writer has
    shut its end; the bytes on their way; and the stream. -/
structure Channel where
  calls : List Call
  writing : Option Writing
  closed : Bool
  queue : List UInt8
  reader : State

/-- Nothing has been written yet. -/
def Channel.fresh (reader : State) : Channel := ⟨[], none, false, [], reader⟩

/-- What happens: the writer calls `sancus_write`, the loop of the call makes a round with what
    the kernel answers, the writer shuts its end, or something happens to the stream. -/
inductive ChannelLabel where
  | call (memory : Nat → UInt8) (data count : Nat)
  | round (kernel : Fd.Kernel)
  | shut
  | reader (a : Label)

/-- `read(2)` gives the first of the bytes on their way, and the end of the file when there are
    none and will be none. -/
def Label.Draws (queue : List UInt8) (closed : Bool) : Label → Prop
  | .read _ (.data bytes) => bytes <+: queue
  | .read _ .eof          => queue = [] ∧ closed = true
  | _                     => True

instance (queue : List UInt8) (closed : Bool) (a : Label) : Decidable (a.Draws queue closed) :=
  match a with
  | .read _ (.data bytes) =>
    decidable_of_iff (bytes.isPrefixOf queue = true) List.isPrefixOf_iff_prefix
  | .read _ .eof => decidable_of_iff ((queue.isEmpty && closed) = true) (by simp [Label.Draws])
  | .read _ (.failed _) | .event | .process | .action _ | .onRead .. | .onError .. => isTrue trivial

/-- A round of the loop of `sancus_write`: the kernel takes some bytes, or the call returns. -/
def Channel.round (s : Channel) (w : Writing) (kernel : Fd.Kernel) : Channel :=
  match Fd.writeRound kernel w.loop with
  | .again loop =>
    { s with
      writing := some { w with loop }
      queue := s.queue ++ (loop.sent.drop w.loop.sent.length).map w.memory }
  | .leave r    =>
    { s with writing := none, calls := s.calls ++ [⟨w.block, r.sent.map w.memory, r.ret⟩] }

/-- One step of the channel; `none` when the label is not possible. -/
def channelStep (s : Channel) : ChannelLabel → Option Channel
  | .call memory data count =>
    if s.writing.isNone ∧ s.closed = false then
      some { s with writing := some ⟨memory, data, count, Fd.writeStart data count⟩ }
    else none
  | .round kernel => s.writing.map fun w => s.round w kernel
  | .shut => if s.writing.isNone then some { s with closed := true } else none
  | .reader a =>
    if a.Draws s.queue s.closed then
      (step s.reader a).map fun reader => { s with reader, queue := s.queue.drop a.chunk.length }
    else none

/-- What has happened to the stream. -/
def ChannelLabel.ofReader : ChannelLabel → Option Label
  | .reader a => some a
  | _         => none

def readerLabels (labels : List ChannelLabel) : List Label :=
  labels.filterMap ChannelLabel.ofReader

/-- All that the kernel has taken of the writer. -/
def Channel.sent (s : Channel) : List UInt8 :=
  s.calls.flatMap Call.taken ++ (s.writing.map Writing.taken).getD []

/-! ### The invariant -/

/-- A first part of the block has been taken, and all of it when the call returns its length,
    which is the only number it returns that is positive. -/
structure Call.Accounted (c : Call) : Prop where
  part : c.taken <+: c.block
  all : c.ret = c.block.length → c.taken = c.block
  positive : 0 < c.ret → c.ret = c.block.length

structure ChannelOk (labels : List ChannelLabel) (s : Channel) : Prop where
  history : History (readerLabels labels) s.reader
  bytes : chunks (readerLabels labels) ++ s.queue = s.sent
  calls : ∀ c ∈ s.calls, c.Accounted
  writing : ∀ w, s.writing = some w → Fd.Sending w.data w.count w.loop
  silent : s.closed = true → s.writing = none
  ended : s.reader.pc = .onError .readEof → s.closed = true ∧ s.queue = []

variable {labels : List ChannelLabel} {s s' : Channel} {w : Writing} {kernel : Fd.Kernel}

theorem readerLabels_snoc (labels : List ChannelLabel) (a : ChannelLabel) :
    readerLabels (labels ++ [a]) = readerLabels labels ++ a.ofReader.toList := by
  cases a <;> simp [readerLabels, ChannelLabel.ofReader]

/-! ### The writer -/

/-- What the call has returned is accounted for. -/
theorem accounted_leave {r : Fd.WritevResult} (hw : Fd.Sending w.data w.count w.loop)
    (hround : Fd.writeRound kernel w.loop = .leave r) :
    Call.Accounted ⟨w.block, r.sent.map w.memory, r.ret⟩ := by
  have hsent := hw.leave hround
  have hlen : w.block.length = w.count := by simp [Writing.block]
  cases herr : r.errno with
  | none =>
    obtain ⟨hret, hall⟩ := hsent.all herr
    have htaken : r.sent.map w.memory = w.block := by rw [hall]; rfl
    exact ⟨by simp [htaken], fun _ => htaken, fun _ => by simp [hret, hlen]⟩
  | some e =>
    obtain ⟨_, hret, hpart⟩ := hsent.some_of e herr
    have htaken : r.sent.map w.memory <+: w.block := hpart.map w.memory
    refine ⟨htaken, ?_, ?_⟩
    · -- Only the empty block has its length returned with an error, and nothing of it is taken.
      intro hall
      have hnil : w.block = [] := by
        apply List.eq_nil_of_length_eq_zero
        have : (-(e : Int)) = w.block.length := hret.symm.trans hall
        omega
      simpa [hnil] using htaken
    · intro hpos
      have : r.ret = -(e : Int) := hret
      simp only at hpos
      omega

/-- A round puts on its way what the kernel takes in it. -/
theorem sent_again {loop : Fd.WriteState} (hround : Fd.writeRound kernel w.loop = .again loop) :
    w.taken ++ (loop.sent.drop w.loop.sent.length).map w.memory =
      Writing.taken { w with loop } := by
  obtain ⟨_, ⟨n, _, rfl⟩ | ⟨_, rfl⟩⟩ := Fd.writeRound_again hround
  · simp [Writing.taken, Fd.WriteState.take]
  · simp [Writing.taken, Fd.WriteState.interrupted]

/-- What a call has sent when it returns is what its loop had sent. -/
theorem sent_leave {r : Fd.WritevResult} (hround : Fd.writeRound kernel w.loop = .leave r) :
    r.sent.map w.memory = w.taken := by
  obtain ⟨_, rfl⟩ | ⟨_, e, _, _, rfl⟩ := Fd.writeRound_leave hround <;> rfl

theorem readerLabels_writer {a : ChannelLabel} (ha : a.ofReader = none) :
    readerLabels (labels ++ [a]) = readerLabels labels := by
  rw [readerLabels_snoc, ha, Option.toList_none, List.append_nil]

/-- While a call is under way, the writer has not shut its end, and the stream has not come to the
    end of the file. -/
theorem ChannelOk.of_writing (hs : ChannelOk labels s) (hw : s.writing = some w) :
    s.closed = false ∧ s.reader.pc ≠ .onError .readEof := by
  have hopen : s.closed ≠ true := by
    intro hclosed
    simp [hs.silent hclosed] at hw
  exact ⟨by simpa using hopen, fun hpc => hopen (hs.ended hpc).1⟩

theorem ChannelOk.call (hs : ChannelOk labels s) (memory : Nat → UInt8) (data count : Nat)
    (hidle : s.writing = none) (hopen : s.closed = false) :
    ChannelOk (labels ++ [.call memory data count])
      { s with writing := some ⟨memory, data, count, Fd.writeStart data count⟩ } where
  history := by
    rw [readerLabels_writer rfl]
    exact hs.history
  bytes := by
    rw [readerLabels_writer rfl, hs.bytes]
    simp [Channel.sent, hidle, Writing.taken, Fd.writeStart]
  calls := hs.calls
  writing := by
    rintro w ⟨⟩
    exact Fd.sending_start data count
  silent := by simp [hopen]
  ended := hs.ended

theorem ChannelOk.round (hs : ChannelOk labels s) (hw : s.writing = some w) :
    ChannelOk (labels ++ [.round kernel]) (s.round w kernel) := by
  obtain ⟨hopen, hpc⟩ := hs.of_writing hw
  have hbytes := hs.bytes
  rw [Channel.sent, hw] at hbytes
  have hlabels : readerLabels (labels ++ [.round kernel]) = readerLabels labels :=
    readerLabels_writer rfl
  unfold Channel.round
  cases hround : Fd.writeRound kernel w.loop with
  | again loop =>
    refine ⟨hlabels ▸ hs.history, ?_, hs.calls, ?_, ?_, fun hend => absurd hend hpc⟩
    · rw [hlabels, ← List.append_assoc, hbytes]
      simp [Channel.sent, ← sent_again hround]
    · rintro w' ⟨⟩
      exact (hs.writing w hw).again hround
    · simp [hopen]
  | leave r =>
    refine ⟨hlabels ▸ hs.history, ?_, ?_, nofun, fun _ => rfl, fun hend => absurd hend hpc⟩
    · rw [hlabels, hbytes]
      simp [Channel.sent, sent_leave hround]
    · intro c hc
      rcases List.mem_append.mp hc with hc | hc
      · exact hs.calls c hc
      · obtain rfl := List.mem_singleton.mp hc
        exact accounted_leave (hs.writing w hw) hround

theorem ChannelOk.shut (hs : ChannelOk labels s) (hidle : s.writing = none) :
    ChannelOk (labels ++ [.shut]) { s with closed := true } where
  history := by
    rw [readerLabels_writer rfl]
    exact hs.history
  bytes := by
    rw [readerLabels_writer rfl]
    exact hs.bytes
  calls := hs.calls
  writing := hs.writing
  silent := fun _ => hidle
  ended := fun hend => ⟨rfl, (hs.ended hend).2⟩

/-! ### The stream -/

/-- A stream comes to report the end of the file by reading it. -/
theorem ended_of_step {r r' : State} {a : Label} (h : step r a = some r')
    (hpc : r'.pc = .onError .readEof) : ∃ count, a = .read count .eof := by
  cases a with
  | event =>
    obtain ⟨_, rfl⟩ := step_event.mp h
    unfold readBufferAvailable at hpc
    split_ifs at hpc
    cases hpc
  | process =>
    obtain ⟨_, rfl⟩ := step_process.mp h
    dsimp only at hpc
    split at hpc <;> cases hpc
  | action act =>
    obtain ⟨_, self, _, rfl⟩ := step_action.mp h
    cases hpc
  | read count reply =>
    obtain ⟨_, rfl⟩ := step_read.mp h
    cases reply with
    | eof => exact ⟨count, rfl⟩
    | data bytes =>
      unfold readDone whileLen at hpc
      dsimp only at hpc
      split_ifs at hpc
    | failed e =>
      unfold readDone at hpc
      dsimp only at hpc
      split_ifs at hpc
      cases hpc
  | onRead block acts ret =>
    obtain ⟨_, self, _, ⟨_, rfl⟩ | ⟨_, rfl⟩⟩ := step_onRead h
    · unfold onReadDone whileLen at hpc
      dsimp only at hpc
      split_ifs at hpc
    · cases hpc
  | onError error acts ret =>
    obtain ⟨_, self, _, rfl⟩ := step_onError.mp h
    unfold onErrorDone readBufferAvailable at hpc
    cases error with
    | readFull =>
      split_ifs at hpc
      cases hpc
    | readEof => split_ifs at hpc
    | readError => split_ifs at hpc

/-- What a label brings in is taken from the bytes on their way. -/
theorem chunk_draws {queue : List UInt8} {closed : Bool} {a : Label} (h : a.Draws queue closed) :
    a.chunk ++ queue.drop a.chunk.length = queue := by
  have hnone : ([] : List UInt8) ++ queue.drop 0 = queue := rfl
  cases a with
  | read count reply =>
    cases reply with
    | data bytes =>
      obtain ⟨rest, rfl⟩ : bytes <+: queue := h
      simp [Label.chunk]
    | eof => exact hnone
    | failed e => exact hnone
  | event => exact hnone
  | process => exact hnone
  | action act => exact hnone
  | onRead block acts ret => exact hnone
  | onError error acts ret => exact hnone

theorem ChannelOk.reader (hs : ChannelOk labels s) {a : Label} {reader : State}
    (hdraws : a.Draws s.queue s.closed) (hstep : Stream.step s.reader a = some reader) :
    ChannelOk (labels ++ [.reader a])
      { s with reader, queue := s.queue.drop a.chunk.length } := by
  have hlabels : readerLabels (labels ++ [.reader a]) = readerLabels labels ++ [a] :=
    readerLabels_snoc labels _
  refine ⟨?_, ?_, hs.calls, hs.writing, hs.silent, ?_⟩
  · rw [hlabels]
    exact hs.history.step hstep
  · rw [hlabels, chunks_snoc, List.append_assoc, chunk_draws hdraws]
    exact hs.bytes
  · intro hend
    obtain ⟨count, rfl⟩ := ended_of_step hstep hend
    obtain ⟨hnil, hclosed⟩ : s.queue = [] ∧ s.closed = true := hdraws
    exact ⟨hclosed, by simp [hnil]⟩

/-! ### Runs -/

/-- **Step lemma.**  Every step of either end keeps the invariant. -/
theorem ChannelOk.step {a : ChannelLabel} (hs : ChannelOk labels s)
    (h : channelStep s a = some s') : ChannelOk (labels ++ [a]) s' := by
  cases a with
  | call memory data count =>
    obtain ⟨⟨hidle, hopen⟩, hs'⟩ := Option.ite_none_right_eq_some.mp h
    obtain rfl := Option.some.inj hs'
    exact hs.call memory data count (by simpa using hidle) hopen
  | round kernel =>
    obtain ⟨w, hw, rfl⟩ := Option.map_eq_some_iff.mp h
    exact hs.round hw
  | shut =>
    obtain ⟨hidle, hs'⟩ := Option.ite_none_right_eq_some.mp h
    obtain rfl := Option.some.inj hs'
    exact hs.shut (by simpa using hidle)
  | reader a =>
    obtain ⟨hdraws, hs'⟩ := Option.ite_none_right_eq_some.mp h
    obtain ⟨reader, hreader, rfl⟩ := Option.map_eq_some_iff.mp hs'
    exact hs.reader hdraws hreader

theorem channelOk_fresh {fd : Int} {buf : Mem} {n : Nat} {reader : State}
    (h : start fd buf n = some reader) : ChannelOk [] (.fresh reader) where
  history := history_start h
  bytes := rfl
  calls := nofun
  writing := nofun
  silent := nofun
  ended := by
    obtain ⟨_, rfl⟩ := start_eq_some.mp h
    nofun

/-- **Every byte arrives once and in order.**  In every run of a writer and a stream, whatever the
    kernel takes of each block, however the two ends take turns, and however the callbacks start,
    stop and close the stream:
    what `on_read` has consumed, what is in the read buffer and what is on its way make up what
    the kernel has taken of the writer.  Of every block a first part has been taken, and all of it
    when `sancus_write` has returned its length; so if all calls have, nothing is under way and
    all has been read, the stream has been given all blocks.  And `on_error` is called for the end
    of the file only when the stream has got everything. -/
theorem channel_delivers (fd : Int) (buf : Mem) (n : Nat) (reader : State)
    (labels : List ChannelLabel) (s : Channel) (hstart : start fd buf n = some reader)
    (hrun : Machine.run channelStep (.fresh reader) labels = some s) :
    consumed (readerLabels labels) ++ s.reader.stream.readBuffer.contents ++ s.queue = s.sent ∧
      (∀ c ∈ s.calls, c.Accounted) ∧
      ((∀ c ∈ s.calls, c.ret = c.block.length) → s.writing = none → s.queue = [] →
        consumed (readerLabels labels) ++ s.reader.stream.readBuffer.contents =
          s.calls.flatMap Call.block) ∧
      ∀ acts ret r, Stream.step s.reader (.onError .readEof acts ret) = some r →
        s.closed = true ∧
          consumed (readerLabels labels) ++ s.reader.stream.readBuffer.contents = s.sent := by
  have hs : ChannelOk labels s :=
    Machine.run_invariant (channelOk_fresh hstart) (fun _ _ _ _ ht hstep => ht.step hstep) hrun
  have hbytes : consumed (readerLabels labels) ++ s.reader.stream.readBuffer.contents ++ s.queue =
      s.sent := by
    rw [hs.history.bytes]
    exact hs.bytes
  refine ⟨hbytes, hs.calls, ?_, ?_⟩
  · intro hall hidle hnil
    rw [hnil, List.append_nil] at hbytes
    rw [hbytes, Channel.sent, hidle]
    simp only [Option.map_none, Option.getD_none, List.append_nil]
    exact List.flatMap_congr fun c hc => (hs.calls c hc).all (hall c hc)
  · intro acts ret r hstep
    obtain ⟨hpc, _⟩ := step_onError.mp hstep
    obtain ⟨hclosed, hnil⟩ := hs.ended hpc
    rw [hnil, List.append_nil] at hbytes
    exact ⟨hclosed, hbytes⟩

/-- A kernel that takes two bytes at a time. -/
def takesTwo : Fd.Kernel where
  reply _ room := .took (min 2 room)
  took_le {i room n} h := by
    obtain rfl := Fd.Reply.took.inj h
    exact Nat.min_le_right 2 room
  took_pos {i room n} h hpos := by
    obtain rfl := Fd.Reply.took.inj h
    omega

/-- The bytes 5, 6 and 7 are written, two at first, which are read before the third is taken; the
    writer shuts its end, and `on_error` is called. -/
def threeBytes : List ChannelLabel :=
  [.call (fun i => UInt8.ofNat i) 5 3, .round takesTwo, .reader .event,
    .reader (.read 4 (.data [5, 6])), .round takesTwo, .reader (.onRead [5, 6] [] 0),
    .round takesTwo, .shut, .reader .event, .reader (.read 2 (.data [7])),
    .reader (.onRead [5, 6, 7] [] 2), .reader .event, .reader (.read 1 .eof)]

/-- The rule for that run. -/
theorem channel_delivers_three :
    ∃ reader s, start 3 (Mem.fresh fun _ => 0) 4 = some reader ∧
      Machine.run channelStep (.fresh reader) threeBytes = some s ∧
      consumed (readerLabels threeBytes) ++ s.reader.stream.readBuffer.contents = s.sent ∧
      s.sent = [5, 6, 7] := by
  have hcalls : ((start 3 (Mem.fresh fun _ => 0) 4).bind fun reader =>
      (Machine.run channelStep (.fresh reader) threeBytes).map fun s =>
        (s.sent, (Stream.step s.reader (.onError .readEof [] true)).isSome)) =
      some ([5, 6, 7], true) := by
    decide +kernel
  obtain ⟨reader, hstart, hcalls⟩ := Option.bind_eq_some_iff.mp hcalls
  obtain ⟨s, hrun, hsent⟩ := Option.map_eq_some_iff.mp hcalls
  obtain ⟨hsent, hended⟩ := Prod.mk.inj hsent
  obtain ⟨r, hr⟩ := Option.isSome_iff_exists.mp hended
  have hall := channel_delivers 3 (Mem.fresh fun _ => 0) 4 reader threeBytes s hstart hrun
  exact ⟨reader, s, hstart, hrun, (hall.2.2.2 [] true r hr).2, hsent⟩

end Sancus.Stream
