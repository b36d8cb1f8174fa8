import Sancus.Stream.ReadFull

namespace Sancus.Stream

open CModel

/-!
# Streams — what one read event comes to

An event is answered by a visit of `read_cb`, which calls `read(2)`, `on_read` and
`on_error` until it returns.  However the calls answer, the visit is short, reads the
descriptor once, and shows the application all that is in the buffer.

* `Label.Inside` / `Label.Again` — the calls of a visit, and those that are made again;
* `left` — the calls that a visit can still make: `step_spends` takes one from it;
* `step_tryRead` — a visit comes to `read(2)` before anything else, or not at all;
* `leftover` — what the last `on_read` did not take: `step_leftover`;
* `visit_progress` — the three together, for every visit of every run.
-/

/-- A call that `read_cb` makes before it returns. -/
def Label.Inside : Label → Prop
  | .read _ _ | .onRead _ _ _ | .onError _ _ _ => True
  | .event | .process | .action _              => False

/-- `read(2)` has been interrupted. -/
def Label.Interrupted (a : Label) : Prop := ∃ count, a = .read count (.failed EINTR)

/-- The answer takes `read_cb` back to the call it has just made. -/
def Label.again : Label → Bool
  | .read _ (.failed errno)    => errno = EINTR
  | .onError .readFull _ false => true
  | _                          => false

/-- What a call counts for in the length of a visit. -/
def Label.cost (a : Label) : Nat := if a.again then 0 else 1

/-- How many calls a visit can still make, those made again not counted. -/
def left (s : State) : Nat :=
  match s.pc with
  | .idle                     => 0
  | .tryRead                  => 1 + s.stream.readBuffer.size
  | .onError _ | .processing  => 1
  | .onRead                   => s.stream.readBuffer.len

/-- What the last call of `on_read` did not take of the block it was shown. -/
def leftover (labels : List Label) : List UInt8 :=
  labels.foldl (fun rest a => match a with
    | .onRead block _ ret => block.drop ret.toNat
    | _                   => rest) []

variable {s s' : State} {a : Label} {labels : List Label}

/-! ### The length of a visit -/

/-- `read_cb` can go on for as long as there are bytes to show. -/
theorem left_whileLen (self : SancusStream) : left (whileLen self) ≤ self.readBuffer.len := by
  unfold whileLen left
  split_ifs <;> simp

theorem left_readBufferAvailable {self : SancusStream}
    (h : sancusBufferAvailable self.readBuffer = 0) : left (readBufferAvailable self) = 1 := by
  rw [readBufferAvailable, if_pos h]
  rfl

/-- A positive answer of `on_read` leaves fewer bytes to show. -/
theorem len_skip {self : SancusStream} (hvalid : self.readBuffer.Valid) {ret : Int} (hret : 0 < ret)
    (hlen : self.readBuffer.len ≠ 0) :
    (skip self ret).readBuffer.len + 1 ≤ self.readBuffer.len := by
  have hdrop := congrArg List.length (contents_skip hvalid ret.toNat).2
  rw [List.length_drop, Buffer.contents_length, Buffer.contents_length] at hdrop
  have hpos : 0 < ret.toNat := by omega
  unfold skip
  dsimp only
  omega

/-- A buffer with room is not of size 0. -/
theorem size_of_available {b : Buffer} (hvalid : b.Valid) (h : sancusBufferAvailable b ≠ 0) :
    1 ≤ b.size := by
  rw [available_eq hvalid] at h
  omega

/-- After `on_read` has answered, one call fewer is left. -/
theorem left_onReadDone {self : SancusStream} (hvalid : self.readBuffer.Valid)
    (hlen : self.readBuffer.len ≠ 0) (ret : Int) :
    1 + left (onReadDone self ret) ≤ self.readBuffer.len := by
  unfold onReadDone
  split_ifs with hret hzero
  · have hshorter := len_skip hvalid hret hlen
    dsimp only
    split_ifs
    · have hless := left_whileLen (skip self ret)
      omega
    · show 1 + 0 ≤ _
      omega
  · show 1 + 0 ≤ _
    omega
  · show 1 + 0 ≤ _
    omega

/-- After `read(2)` has answered: an interrupted call leaves what there was, another takes one. -/
theorem spends_readDone {count : Nat} {reply : ReadReply}
    (hroom : 1 ≤ s.stream.readBuffer.size)
    (hvalid' : ((Label.read count reply).effect s.stream.readBuffer).Valid) :
    (Label.read count reply).cost + left (readDone s.stream reply) ≤
      1 + s.stream.readBuffer.size := by
  cases reply with
  | data bytes =>
    have hshow := left_whileLen
      { s.stream with readBuffer := sancusBufferReadDone s.stream.readBuffer bytes }
    have hfits : (sancusBufferReadDone s.stream.readBuffer bytes).base +
        (sancusBufferReadDone s.stream.readBuffer bytes).len ≤ s.stream.readBuffer.size :=
      hvalid'.1
    show 1 + left (whileLen _) ≤ _
    dsimp only at hshow
    omega
  | eof =>
    show 1 + 1 ≤ _
    omega
  | failed errno =>
    by_cases hintr : errno = EINTR
    · subst hintr
      show 0 + (1 + s.stream.readBuffer.size) ≤ _
      omega
    · have hcost : (Label.read count (.failed errno)).cost = 1 := by
        simp [Label.cost, Label.again, hintr]
      have hless : left (readDone s.stream (.failed errno)) ≤ 1 := by
        simp only [readDone, if_neg hintr]
        split_ifs <;> simp [left]
      omega

/-- **Step lemma.**  Every call of a visit is one of those that were left. -/
theorem step_spends (hvalid : s.stream.readBuffer.Valid) (hpc : PcOk s) (ha : a.Inside)
    (h : step s a = some s') : a.cost + left s' ≤ left s := by
  cases a with
  | event => exact ha.elim
  | process => exact ha.elim
  | action _ => exact ha.elim
  | read count reply =>
    have hvalid' := (effect_contents hvalid h).1
    obtain ⟨⟨hread, _⟩, rfl⟩ := step_read.mp h
    unfold PcOk at hpc
    rw [hread] at hpc
    have hleft : left s = 1 + s.stream.readBuffer.size := by rw [left, hread]
    rw [hleft]
    exact spends_readDone (size_of_available hvalid hpc) hvalid'
  | onRead block acts ret =>
    obtain ⟨_, self, hacts, ⟨hread, rfl⟩ | ⟨hread, rfl⟩⟩ := step_onRead h
    · unfold PcOk at hpc
      rw [hread, ← readBuffer_runActions hacts] at hpc
      rw [← readBuffer_runActions hacts] at hvalid
      have hleft : left s = self.readBuffer.len := by
        rw [left, hread, readBuffer_runActions hacts]
      rw [hleft]
      exact left_onReadDone hvalid hpc ret
    · rw [show left s = 1 by rw [left, hread]]
      rfl
  | onError error acts ret =>
    obtain ⟨herror, self, hacts, rfl⟩ := step_onError.mp h
    rw [show left s = 1 by rw [left, herror]]
    unfold PcOk at hpc
    rw [herror] at hpc
    unfold onErrorDone
    cases ret with
    | true =>
      cases error <;> rfl
    | false =>
      cases error with
      | readFull =>
        -- No callback has made room, so there is one call again.
        rw [← readBuffer_runActions hacts] at hpc
        show 0 + left (readBufferAvailable self) ≤ 1
        rw [left_readBufferAvailable hpc]
      | readEof => rfl
      | readError => rfl

/-! ### The order of the calls -/

/-- **Step lemma.**  A call leads to `read(2)` only from there, when it was interrupted. -/
theorem step_tryRead (hpc : PcOk s) (ha : a.Inside) (h : step s a = some s')
    (hread : s'.pc = .tryRead) : s.pc = .tryRead ∧ a.Interrupted := by
  cases a with
  | event => exact ha.elim
  | process => exact ha.elim
  | action _ => exact ha.elim
  | read count reply =>
    obtain ⟨⟨hpc', _⟩, rfl⟩ := step_read.mp h
    refine ⟨hpc', count, ?_⟩
    cases reply with
    | data bytes =>
      unfold readDone whileLen at hread
      dsimp only at hread
      split_ifs at hread
    | eof => cases hread
    | failed errno =>
      unfold readDone at hread
      dsimp only at hread
      split_ifs at hread with hintr
      rw [hintr]
  | onRead block acts ret =>
    obtain ⟨_, self, _, ⟨_, rfl⟩ | ⟨_, rfl⟩⟩ := step_onRead h
    · unfold onReadDone whileLen at hread
      dsimp only at hread
      split_ifs at hread
    · cases hread
  | onError error acts ret =>
    obtain ⟨herror, self, hacts, rfl⟩ := step_onError.mp h
    unfold PcOk at hpc
    rw [herror] at hpc
    unfold onErrorDone at hread
    split_ifs at hread
    cases error with
    | readFull =>
      -- `on_error` has made no room, so `read_buffer_available` calls it again.
      rw [← readBuffer_runActions hacts] at hpc
      dsimp only at hread
      rw [readBufferAvailable, if_pos hpc] at hread
      cases hread
    | readEof => cases hread
    | readError => cases hread

/-- Before a visit comes to `read(2)`, it has only been interrupted there. -/
theorem interrupted_of_tryRead (hpc : PcOk s) (hinside : ∀ a ∈ labels, a.Inside)
    (h : Machine.run step s labels = some s') :
    s'.pc = .tryRead → ∀ a ∈ labels, a.Interrupted := by
  induction labels using List.reverseRecOn generalizing s' with
  | nil => exact fun _ _ hb => absurd hb List.not_mem_nil
  | append_singleton as a ih =>
    intro hread
    obtain ⟨u, hu, ha⟩ := Machine.run_snoc.mp h
    have hpcu : PcOk u := Machine.run_keeps hpc (fun _ _ _ ht hstep => pcOk_step ht hstep) hu
    have hleads := step_tryRead hpcu (hinside a (by simp)) ha hread
    have hbefore := ih (fun b hb => hinside b (by simp [hb])) hu hleads.1
    intro b hb
    rcases List.mem_append.mp hb with hb | hb
    · exact hbefore b hb
    · rw [List.mem_singleton.mp hb]
      exact hleads.2

/-! ### What is left to the next visit -/

theorem leftover_snoc (labels : List Label) (a : Label) : leftover (labels ++ [a]) = match a with
    | .onRead block _ ret => block.drop ret.toNat
    | _                   => leftover labels := by
  simp [leftover]

/-- What the last `on_read` did not take is in the buffer, unless more has just been read. -/
structure Shown (labels : List Label) (s : State) : Prop where
  valid : s.stream.readBuffer.Valid
  pc : PcOk s
  shown : s.pc ≠ .onRead → s.stream.readBuffer.contents = leftover labels

/-- A read that brings something is followed by `on_read`. -/
theorem pc_readDone_data {self : SancusStream} {bytes : List UInt8}
    (hvalid : self.readBuffer.Valid)
    (h : (ReadReply.data bytes).Possible (sancusBufferAvailable self.readBuffer)) :
    (readDone self (.data bytes)).pc = .onRead := by
  have hlen : (sancusBufferReadDone self.readBuffer bytes).len ≠ 0 := by
    rw [Ne, ← Buffer.contents_eq_nil, (contents_readDone hvalid h.2).2, List.append_eq_nil_iff]
    exact fun hnil => h.1.ne' (List.length_eq_zero_iff.mpr hnil.2)
  show (whileLen _).pc = .onRead
  rw [whileLen, if_neg hlen]

/-- **Step lemma.** -/
theorem Shown.step (hs : Shown labels s) (h : step s a = some s') :
    Shown (labels ++ [a]) s' := by
  have heffect := step_readBuffer h
  have hvalid := (effect_contents hs.valid h).1
  rw [← heffect] at hvalid
  refine ⟨hvalid, pcOk_step hs.pc h, ?_⟩
  intro hpc
  rw [leftover_snoc, heffect]
  cases a with
  | read count reply =>
    obtain ⟨⟨hread, rfl, hpossible⟩, rfl⟩ := step_read.mp h
    have hshown := hs.shown (by rw [hread]; nofun)
    cases reply with
    | data bytes => exact absurd (pc_readDone_data hs.valid hpossible) hpc
    | eof => exact hshown
    | failed errno => exact hshown
  | onRead block acts ret =>
    obtain ⟨rfl, _⟩ := step_onRead h
    unfold Label.effect
    dsimp only
    split_ifs with hret
    · exact (contents_skip hs.valid ret.toNat).2
    · rw [Int.toNat_of_nonpos (by omega), List.drop_zero]
  | event =>
    obtain ⟨hidle, _⟩ := step_event.mp h
    exact hs.shown (by rw [hidle]; nofun)
  | process =>
    obtain ⟨hidle, _⟩ := step_process.mp h
    exact hs.shown (by rw [hidle]; nofun)
  | action act =>
    obtain ⟨hidle, _⟩ := step_action.mp h
    exact hs.shown (by rw [hidle]; nofun)
  | onError error acts ret =>
    obtain ⟨herror, _⟩ := step_onError.mp h
    exact hs.shown (by rw [herror]; nofun)

/-- **Run lemma.** -/
theorem shown_run {fd : Int} {buf : Mem} {n : Nat} {s₀ : State}
    (h₀ : start fd buf n = some s₀) (h : Machine.run Stream.step s₀ labels = some s) :
    Shown labels s := by
  have hstart := history_start h₀
  refine Machine.run_invariant ⟨hstart.valid, hstart.pc, fun _ => ?_⟩
    (fun _ _ _ _ hs hstep => hs.step hstep) h
  simpa [consumed, chunks, leftover] using hstart.bytes

/-! ### Visits -/

/-- **What one read event comes to.**  In every run of a stream with a buffer of `n` bytes,
    take an event and the calls that `read_cb` makes for it, however they answer and whether or
    not they start, stop or close the stream, as long as they leave its buffer alone.  Without
    those that it makes again they are at most one and the size of the buffer; only
    interrupted reads come before a read; and when `read_cb` has returned, the buffer holds
    what the last `on_read` did not take: everything read has been shown to it. -/
theorem visit_progress (fd : Int) (buf : Mem) (n : Nat) (s₀ s : State) (pre calls : List Label)
    (h₀ : start fd buf n = some s₀)
    (h : Machine.run step s₀ (pre ++ .event :: calls) = some s)
    (hcalls : ∀ a ∈ calls, a.Inside) :
    (calls.map Label.cost).sum ≤ 1 + n % 2 ^ 32 ∧
      (∀ before count reply after, calls = before ++ .read count reply :: after →
        ∀ a ∈ before, a.Interrupted) ∧
      (s.pc = .idle → s.stream.readBuffer.contents = leftover (pre ++ .event :: calls)) := by
  obtain ⟨t, ht, hvisit⟩ := Machine.exists_run_of_append h
  obtain ⟨u, hu, hrun⟩ := Option.bind_eq_some_iff.mp hvisit
  have hsnoc : Machine.run step s₀ (pre ++ [.event]) = some u := Machine.run_snoc.mpr ⟨t, ht, hu⟩
  have hshown := shown_run h₀ hsnoc
  refine ⟨?_, ?_, ?_⟩
  · have hsize : u.stream.readBuffer.size = n % 2 ^ 32 :=
      Machine.run_keeps (I := Sized n) (sized_start h₀)
        (fun _ _ _ hs hstep => sized_step hs hstep) hsnoc
    have hstart : left u ≤ 1 + n % 2 ^ 32 := by
      obtain ⟨_, rfl⟩ := step_event.mp hu
      rw [← hsize]
      unfold readBufferAvailable
      split_ifs
      · exact Nat.le_add_right _ _
      · exact le_rfl
    have hkeeps : ∀ t a t', t.stream.readBuffer.Valid ∧ PcOk t → a.Inside → step t a = some t' →
        (t'.stream.readBuffer.Valid ∧ PcOk t') ∧ a.cost + left t' ≤ left t := by
      intro t a t' hok ha hstep
      have hvalid := (effect_contents hok.1 hstep).1
      rw [← step_readBuffer hstep] at hvalid
      exact ⟨⟨hvalid, pcOk_step hok.2 hstep⟩, step_spends hok.1 hok.2 ha hstep⟩
    have hspent := Machine.run_spends ⟨hshown.valid, hshown.pc⟩ hkeeps hcalls hrun
    omega
  · rintro before count reply after rfl
    obtain ⟨v, hv, hrest⟩ := Machine.exists_run_of_append hrun
    obtain ⟨w, hw, _⟩ := Option.bind_eq_some_iff.mp hrest
    obtain ⟨⟨hread, _⟩, _⟩ := step_read.mp hw
    exact interrupted_of_tryRead hshown.pc (fun a ha => hcalls a (by simp [ha])) hv hread
  · intro hidle
    exact (shown_run h₀ h).shown (by rw [hidle]; nofun)

/-- A visit that is interrupted once, and shows the two bytes it reads one by one. -/
theorem visit_progress_two :
    ∃ s₀ s, start 3 (Mem.fresh fun _ => 0) 4 = some s₀ ∧
      Machine.run step s₀ [.action .start, .event, .read 4 (.failed EINTR), .read 4 (.data [7, 8]),
        .onRead [7, 8] [] 1, .onRead [8] [] 1] = some s ∧
      s.pc = .idle ∧ s.stream.readBuffer.contents = [] := by
  refine ⟨_, _, rfl, rfl, rfl, ?_⟩
  exact (visit_progress 3 (Mem.fresh fun _ => 0) 4 _ _ [.action .start]
    [.read 4 (.failed EINTR), .read 4 (.data [7, 8]), .onRead [7, 8] [] 1, .onRead [8] [] 1]
    rfl rfl (by simp [Label.Inside])).2.2 rfl

end Sancus.Stream
