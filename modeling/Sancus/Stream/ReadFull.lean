import Sancus.Stream.History

namespace Sancus.Stream

open CModel

/-!
# Streams — what `READ_FULL` means

`read_cb` reports `READ_FULL` when there is no room at the tail of the buffer.  Room in
front of the contents is only won back by a skip that finds less than a tenth of the
buffer at the tail, so a later read can use up the tail and leave it there.

* `FullMeansFull` — what a report is to mean, in the states where one is made;
* `fullMeansFull_iff_noRoom` — it does when every event without room at the tail finds
  none in front of the contents either;
* `tailRoom` — the room at the tail, added up from what was read and skipped;
* `StaysBehind` / `Strands` — the skips that leave the contents where they are, and the runs
  in which what such a skip has freed is never won back;
* `Ledger` — the invariant: room is in front of the contents after such a skip only;
* `readFull_iff` — the reports mean full exactly in the runs that strand no room.
-/

variable {s s' : State} {a : Label} {labels : List Label}

/-! ### The meaning of `READ_FULL` -/

/-- At the points of a run where the stream waits: `on_error` is called with `READ_FULL` only
    when the contents fill a buffer of `n` bytes, and `read(2)` only with room. -/
def FullMeansFull (n : Nat) (s : State) : Prop :=
  (s.pc = .onError .readFull → s.stream.readBuffer.len = n) ∧
    (s.pc = .tryRead → sancusBufferAvailable s.stream.readBuffer ≠ 0)

/-- A read event that finds no room at the tail finds none in front of the contents, the
    buffer being of a size that fits an `unsigned`. -/
def NoRoomAtAll (n : Nat) (s : State) (a : Label) : Prop :=
  a = .event → s.stream.readBuffer.base + s.stream.readBuffer.len = n % 2 ^ 32 →
    s.stream.readBuffer.base = 0 ∧ n < 2 ^ 32

/-- The size of the buffer is the one it was bound with. -/
def Sized (n : Nat) (s : State) : Prop := s.stream.readBuffer.size = n % 2 ^ 32

theorem sized_step {n : Nat} (hs : Sized n s) (h : step s a = some s') : Sized n s' := by
  unfold Sized at hs ⊢
  rw [step_readBuffer h, ← hs]
  unfold Label.effect
  split
  · rfl
  · split_ifs
    · exact size_skip _ _
    · rfl
  · rfl

theorem sized_start {fd : Int} {buf : Mem} {n : Nat} {s₀ : State}
    (h : start fd buf n = some s₀) : Sized n s₀ := by
  obtain ⟨_, rfl⟩ := start_eq_some.mp h
  rfl

theorem available_eq_zero_iff {n : Nat} (hvalid : s.stream.readBuffer.Valid) (hs : Sized n s) :
    sancusBufferAvailable s.stream.readBuffer = 0 ↔
      s.stream.readBuffer.base + s.stream.readBuffer.len = n % 2 ^ 32 := by
  have hle := hvalid.1
  rw [available_eq hvalid, ← hs]
  omega

/-- `on_error` is waited for at `READ_FULL` after an event, or after it has answered. -/
theorem step_readFull (h : step s a = some s') (hpc : s'.pc = .onError .readFull) :
    (a = .event ∨ s.pc = .onError .readFull) ∧ s'.stream.readBuffer = s.stream.readBuffer := by
  cases a with
  | event => exact ⟨.inl rfl, step_readBuffer h⟩
  | process =>
    obtain ⟨_, rfl⟩ := step_process.mp h
    dsimp only at hpc
    split_ifs at hpc
  | action act =>
    obtain ⟨_, self, _, rfl⟩ := step_action.mp h
    cases hpc
  | read count reply =>
    -- A read is followed by `on_read`, by another read, or by another kind of error.
    obtain ⟨_, rfl⟩ := step_read.mp h
    cases reply with
    | data bytes =>
      rw [readDone, whileLen] at hpc
      split_ifs at hpc
    | eof => cases hpc
    | failed e =>
      rw [readDone] at hpc
      split_ifs at hpc
      cases hpc
  | onRead block acts ret =>
    obtain ⟨_, self, _, ⟨_, rfl⟩ | ⟨_, rfl⟩⟩ := step_onRead h
    · unfold onReadDone whileLen at hpc
      dsimp only at hpc
      split_ifs at hpc
    · cases hpc
  | onError error acts ret =>
    -- `on_error` has returned 0, and the buffer is still as it was when it was called.
    refine ⟨.inr ?_, step_readBuffer h⟩
    obtain ⟨hpc', self, _, rfl⟩ := step_onError.mp h
    unfold onErrorDone at hpc
    split_ifs at hpc
    cases error with
    | readFull => exact hpc'
    | readEof => cases hpc
    | readError => cases hpc

/-- What holds in every state of a run that meets the condition. -/
structure FullInv (n : Nat) (s : State) : Prop where
  valid : s.stream.readBuffer.Valid
  pc : PcOk s
  sized : Sized n s
  full : s.pc = .onError .readFull → s.stream.readBuffer.len = n

theorem fullInv_start {fd : Int} {buf : Mem} {n : Nat} {s₀ : State}
    (h : start fd buf n = some s₀) : FullInv n s₀ where
  valid := (history_start h).valid
  pc := (history_start h).pc
  sized := sized_start h
  full hpc := by
    obtain ⟨_, rfl⟩ := start_eq_some.mp h
    cases hpc

/-- **Step lemma.**  A step that meets the condition keeps the meaning of `READ_FULL`. -/
theorem FullInv.step {n : Nat} (hs : FullInv n s) (ha : NoRoomAtAll n s a)
    (h : step s a = some s') : FullInv n s' := by
  have hvalid : s'.stream.readBuffer.Valid := by
    rw [step_readBuffer h]
    exact (effect_contents hs.valid h).1
  have hpc' := pcOk_step hs.pc h
  refine ⟨hvalid, hpc', sized_step hs.sized h, ?_⟩
  intro hpc
  obtain ⟨hcause, hsame⟩ := step_readFull h hpc
  rcases hcause with rfl | hfull
  · -- The event found no room at the tail, so by the condition the base is 0.
    unfold PcOk at hpc'
    rw [hpc, hsame] at hpc'
    have hend := (available_eq_zero_iff hs.valid hs.sized).mp hpc'
    obtain ⟨hbase, hn⟩ := ha rfl hend
    rw [hsame, ← Nat.mod_eq_of_lt hn, ← hend, hbase, Nat.zero_add]
  · rw [hsame]
    exact hs.full hfull

theorem FullInv.fullMeansFull {n : Nat} (hs : FullInv n s) : FullMeansFull n s := by
  refine ⟨hs.full, ?_⟩
  intro hpc
  have hok := hs.pc
  unfold PcOk at hok
  rwa [hpc] at hok

/-- In every run of a stream, the reports mean full if and only if every event that finds no
    room at the tail finds the contents at the head. -/
theorem fullMeansFull_iff_noRoom {fd : Int} {buf : Mem} {n : Nat} {s₀ : State}
    (h₀ : start fd buf n = some s₀) (h : Machine.run step s₀ labels = some s) :
    Machine.Throughout step (FullMeansFull n) s₀ labels ↔
      Machine.Along step (NoRoomAtAll n) s₀ labels := by
  constructor
  · intro hfull pre a post t heq ht ha hend
    subst ha
    -- The state after the event is one of the run, and reports `READ_FULL`.
    have hs := history_run h₀ ht
    have hsized : Sized n t := Machine.run_keeps (I := Sized n) (sized_start h₀)
      (fun _ _ _ hs hstep => sized_step hs hstep) ht
    obtain ⟨u, hu, hrest⟩ := Machine.exists_run_of_append (heq ▸ h)
    obtain rfl := Option.some.inj (ht.symm.trans hu)
    obtain ⟨v, hv, _⟩ := Option.bind_eq_some_iff.mp hrest
    obtain ⟨hpc, rfl⟩ := step_event.mp hv
    have hzero := (available_eq_zero_iff hs.valid hsized).mpr hend
    have hstate := hfull (pre ++ [.event]) post _ (by rw [heq]; simp)
      (Machine.run_snoc.mpr ⟨t, ht, hv⟩)
    have hlen : t.stream.readBuffer.len = n := by
      rw [readBufferAvailable, if_pos hzero] at hstate
      exact hstate.1 rfl
    have hlt := Nat.mod_lt n (Nat.two_pow_pos 32)
    have hle := Nat.mod_le n (2 ^ 32)
    omega
  · intro hcond pre post t heq ht
    exact (Machine.throughout_of_along (I := FullInv n) (P := NoRoomAtAll n) (fullInv_start h₀)
      (fun _ _ _ hs ha hstep => hs.step ha hstep) hcond pre post t heq ht).fullMeansFull

/-! ### Room at the tail, from what was read and skipped -/

/-- The label consumes some of the contents. -/
def Label.Takes : Label → Prop
  | .onRead _ _ ret => 0 < ret
  | _               => False

/-- The room at the tail of a buffer of `size` bytes after a label, when it was `room` before.
    All that is left of a block is moved to the head when less than a tenth is free. -/
def roomAfter (size room : Nat) : Label → Nat
  | .read _ (.data bytes) => room - bytes.length
  | .onRead block _ ret   =>
    if 0 < ret then
      if block.length ≤ ret.toNat then size
      else if room < size / 10 then size - (block.length - ret.toNat)
      else room
    else room
  | _ => room

/-- The room at the tail after the labels. -/
def tailRoom (size : Nat) (labels : List Label) : Nat := labels.foldl (roomAfter size) size

/-- The label consumes a part of the contents only, with a tenth of the buffer free at the
    tail: the rest stays where it is. -/
def StaysBehind (size room : Nat) : Label → Prop
  | .onRead block _ ret => 0 < ret ∧ ret.toNat < block.length ∧ size / 10 ≤ room
  | _                   => False

instance (a : Label) : Decidable a.Takes := by
  cases a <;> unfold Label.Takes <;> infer_instance

instance (size room : Nat) (a : Label) : Decidable (StaysBehind size room a) := by
  cases a <;> unfold StaysBehind <;> infer_instance

/-- The last label of the run that consumes anything leaves the rest where it is. -/
def Loose (size : Nat) (labels : List Label) : Prop :=
  ∃ pre a mid, labels = pre ++ a :: mid ∧ StaysBehind size (tailRoom size pre) a ∧
    ∀ b ∈ mid, ¬ b.Takes

/-- After such a label the reads that follow use up the room at the tail, before anything
    else is consumed, and then the stream is readable again. -/
def Strands (size : Nat) (labels : List Label) : Prop :=
  ∃ pre a mid post, labels = pre ++ a :: (mid ++ .event :: post) ∧
    StaysBehind size (tailRoom size pre) a ∧ (∀ b ∈ mid, ¬ b.Takes) ∧
      tailRoom size pre ≤ (chunks mid).length

theorem tailRoom_snoc (size : Nat) (labels : List Label) (a : Label) :
    tailRoom size (labels ++ [a]) = roomAfter size (tailRoom size labels) a := by
  simp [tailRoom]

variable {size room : Nat}

theorem StaysBehind.takes (h : StaysBehind size room a) : a.Takes := by
  cases a with
  | onRead block acts ret => exact h.1
  | _ => exact h.elim

/-- Such a label leaves the room at the tail as it is. -/
theorem StaysBehind.roomAfter (h : StaysBehind size room a) :
    Stream.roomAfter size room a = room := by
  cases a with
  | onRead block acts ret =>
    obtain ⟨hret, hpart, hroom⟩ := h
    rw [Stream.roomAfter, if_pos hret, if_neg (by omega), if_neg (by omega)]
  | _ => exact h.elim

/-- A label that consumes nothing takes what it reads off the room. -/
theorem roomAfter_of_not_takes (h : ¬ a.Takes) : roomAfter size room a = room - a.chunk.length := by
  cases a with
  | read count reply => cases reply <;> rfl
  | onRead block acts ret => exact if_neg h
  | _ => rfl

/-- Where nothing is consumed, the room is used up by what is read. -/
theorem tailRoom_append {pre mid : List Label} (h : ∀ b ∈ mid, ¬ b.Takes) :
    tailRoom size (pre ++ mid) = tailRoom size pre - (chunks mid).length := by
  induction mid using List.reverseRecOn with
  | nil => simp [chunks]
  | append_singleton mid b ih =>
    have hmid := ih fun c hc => h c (List.mem_append_left _ hc)
    have hb := h b (List.mem_append_right _ (List.mem_singleton_self b))
    rw [← List.append_assoc, tailRoom_snoc, roomAfter_of_not_takes hb, hmid, chunks_snoc,
      List.length_append, Nat.sub_sub]

/-- The room stranded is found by an event: there is none left at the tail. -/
theorem strands_iff : Strands size labels ↔ ∃ pre post, labels = pre ++ .event :: post ∧
    Loose size pre ∧ tailRoom size pre = 0 := by
  have hroom : ∀ {pre mid : List Label} {a : Label}, StaysBehind size (tailRoom size pre) a →
      (∀ b ∈ mid, ¬ b.Takes) →
        tailRoom size (pre ++ a :: mid) = tailRoom size pre - (chunks mid).length := by
    intro pre mid a ha hmid
    have happend : pre ++ a :: mid = (pre ++ [a]) ++ mid := by simp
    rw [happend, tailRoom_append hmid, tailRoom_snoc, ha.roomAfter]
  constructor
  · rintro ⟨pre, a, mid, post, rfl, ha, hmid, hle⟩
    refine ⟨pre ++ a :: mid, post, by simp, ⟨pre, a, mid, rfl, ha, hmid⟩, ?_⟩
    rw [hroom ha hmid]
    omega
  · rintro ⟨_, post, rfl, ⟨pre, a, mid, rfl, ha, hmid⟩, hzero⟩
    refine ⟨pre, a, mid, post, by simp, ha, hmid, ?_⟩
    rw [hroom ha hmid] at hzero
    omega

/-- What the last label makes of the front of the buffer. -/
theorem loose_snoc : Loose size (labels ++ [a]) ↔
    StaysBehind size (tailRoom size labels) a ∨ ¬ a.Takes ∧ Loose size labels := by
  constructor
  · rintro ⟨pre, b, mid, heq, hb, hmid⟩
    induction mid using List.reverseRecOn with
    | nil =>
      obtain ⟨rfl, hab⟩ := List.append_inj' heq rfl
      obtain rfl := List.singleton_inj.mp hab
      exact .inl hb
    | append_singleton mid c _ =>
      have hsplit : labels ++ [a] = (pre ++ b :: mid) ++ [c] := by simp [heq]
      obtain ⟨rfl, hac⟩ := List.append_inj' hsplit rfl
      obtain rfl := List.singleton_inj.mp hac
      exact .inr ⟨hmid a (by simp), pre, b, mid, rfl, hb, fun d hd => hmid d (by simp [hd])⟩
  · rintro (ha | ⟨ha, pre, b, mid, rfl, hb, hmid⟩)
    · exact ⟨labels, a, [], rfl, ha, by simp⟩
    · refine ⟨pre, b, mid ++ [a], by simp, hb, ?_⟩
      intro c hc
      rcases List.mem_append.mp hc with hc | hc
      · exact hmid c hc
      · rwa [List.mem_singleton.mp hc]

/-! ### The ledger of a run -/

/-- The room at the tail is what the labels add up to, and there is room in front of the
    contents exactly when the last label that consumed anything left the rest where it is. -/
structure Ledger (size : Nat) (labels : List Label) (s : State) : Prop where
  valid : s.stream.readBuffer.Valid
  sized : s.stream.readBuffer.size = size
  room : sancusBufferAvailable s.stream.readBuffer = tailRoom size labels
  front : 0 < s.stream.readBuffer.base ↔ Loose size labels

theorem ledger_start {fd : Int} {buf : Mem} {n : Nat} {s₀ : State}
    (h : start fd buf n = some s₀) : Ledger (toUnsigned 32 n) [] s₀ := by
  have hvalid := (history_start h).valid
  obtain ⟨_, rfl⟩ := start_eq_some.mp h
  refine ⟨hvalid, rfl, available_eq hvalid, ?_⟩
  refine iff_of_false (Nat.lt_irrefl 0) ?_
  rintro ⟨pre, a, mid, heq, _⟩
  simp at heq

/-- **What a skip leaves in front and behind.**  All is consumed, or the rest is moved to the
    head for want of room, or it stays. -/
theorem skip_cases {b : Buffer} {step : Nat} (hvalid : b.Valid) (hstep : 0 < step) :
    (b.len ≤ step ∧ (sancusBufferSkip b step).1.base = 0 ∧
        sancusBufferAvailable (sancusBufferSkip b step).1 = b.size) ∨
      (step < b.len ∧ sancusBufferAvailable b < b.size / 10 ∧
        (sancusBufferSkip b step).1.base = 0 ∧
          sancusBufferAvailable (sancusBufferSkip b step).1 = b.size - (b.len - step)) ∨
      (step < b.len ∧ b.size / 10 ≤ sancusBufferAvailable b ∧
        0 < (sancusBufferSkip b step).1.base ∧
          sancusBufferAvailable (sancusBufferSkip b step).1 = sancusBufferAvailable b) := by
  have hroom := available_eq hvalid
  have hroom' := available_eq (contents_skip hvalid step).1
  obtain ⟨hle, hlt⟩ := hvalid
  by_cases hall : b.len ≤ step
  · have hreset : (sancusBufferSkip b step).1 = sancusBufferReset b := by
      rw [sancusBufferSkip, if_pos hall]
    rw [hreset] at hroom' ⊢
    exact .inl ⟨hall, rfl, hroom'⟩
  · right
    -- Dropping from the front does not change where the contents end.
    have hadvance : sancusBufferAdvance b step = ⟨b.buf, b.base + step, b.len - step, b.size⟩ :=
      if_pos hstep
    have hsame : sancusBufferAvailable ⟨b.buf, b.base + step, b.len - step, b.size⟩ =
        sancusBufferAvailable b := by
      have hend : b.base + step + (b.len - step) = b.base + b.len := by omega
      have hroom₁ := available_eq (b := ⟨b.buf, b.base + step, b.len - step, b.size⟩)
        ⟨le_of_eq_of_le hend hle, hlt⟩
      rw [hroom, hroom₁, hend]
    have hskip : (sancusBufferSkip b step).1 =
        if sancusBufferAvailable b < b.size / 10 then
          sancusBufferRebase ⟨b.buf, b.base + step, b.len - step, b.size⟩
        else ⟨b.buf, b.base + step, b.len - step, b.size⟩ := by
      rw [sancusBufferSkip, if_neg hall, hadvance]
      simp only [hsame]
    by_cases htenth : sancusBufferAvailable b < b.size / 10
    · have hrebase : (sancusBufferSkip b step).1 = ⟨b.buf.memmove 0 (b.base + step)
          (b.len - step), 0, b.len - step, b.size⟩ := by
        rw [hskip, if_pos htenth, sancusBufferRebase, if_pos (Nat.add_pos_right _ hstep),
          if_pos (Nat.sub_pos_of_lt (Nat.lt_of_not_le hall))]
      rw [hrebase] at hroom' ⊢
      exact .inl ⟨Nat.lt_of_not_le hall, htenth, rfl, by rw [hroom']; simp⟩
    · rw [hskip, if_neg htenth]
      exact .inr ⟨Nat.lt_of_not_le hall, Nat.le_of_not_lt htenth, Nat.add_pos_right _ hstep, hsame⟩

/-- **Step lemma.**  Every step keeps the ledger. -/
theorem Ledger.step (hs : Ledger size labels s) (h : step s a = some s') :
    Ledger size (labels ++ [a]) s' := by
  have heffect := step_readBuffer h
  have hvalid : s'.stream.readBuffer.Valid := by
    rw [heffect]
    exact (effect_contents hs.valid h).1
  have hkeep : ¬ a.Takes → s'.stream.readBuffer.base = s.stream.readBuffer.base →
      s'.stream.readBuffer.size = s.stream.readBuffer.size →
      s'.stream.readBuffer.len = s.stream.readBuffer.len + a.chunk.length →
        Ledger size (labels ++ [a]) s' := by
    intro htakes hbase hsize hlen
    refine ⟨hvalid, hsize.trans hs.sized, ?_, ?_⟩
    · rw [tailRoom_snoc, roomAfter_of_not_takes htakes, ← hs.room, available_eq hvalid,
        available_eq hs.valid, hbase, hlen, hsize]
      omega
    · have hno : ¬ StaysBehind size (tailRoom size labels) a := fun ha => htakes ha.takes
      rw [loose_snoc, hbase, hs.front]
      simp [hno, htakes]
  cases a with
  | read count reply =>
    cases reply with
    | data bytes =>
      obtain ⟨⟨_, rfl, _, hfit⟩, _⟩ := step_read.mp h
      have hlt := hs.valid.2
      rw [available_eq hs.valid] at hfit
      refine hkeep id (by rw [heffect]; rfl) (by rw [heffect]; rfl) ?_
      rw [heffect, Label.effect, sancusBufferReadDone, toUnsigned_of_lt (by omega)]
      rfl
    | eof => exact hkeep id (by rw [heffect]; rfl) (by rw [heffect]; rfl) (by rw [heffect]; rfl)
    | failed e =>
      exact hkeep id (by rw [heffect]; rfl) (by rw [heffect]; rfl) (by rw [heffect]; rfl)
  | onRead block acts ret =>
    obtain ⟨rfl, _⟩ := step_onRead h
    by_cases hret : 0 < ret
    · -- What a skip does to the room is what the label says, by the length of the block.
      have hskip : s'.stream.readBuffer = (sancusBufferSkip s.stream.readBuffer ret.toNat).1 := by
        rw [heffect, Label.effect, if_pos hret]
      have hblock : (s.stream.readBuffer.contents).length = s.stream.readBuffer.len :=
        Buffer.contents_length _
      have htakes : (Label.onRead s.stream.readBuffer.contents acts ret).Takes := hret
      have hroom := hs.room
      have hsized := hs.sized
      refine ⟨hvalid, by rw [hskip, size_skip, hs.sized], ?_, ?_⟩
      · rw [tailRoom_snoc, roomAfter, if_pos hret, hskip, hblock, ← hroom, ← hsized]
        rcases skip_cases hs.valid (Int.pos_iff_toNat_pos.mp hret) with
          ⟨hall, _, havail⟩ | ⟨hpart, htenth, _, havail⟩ | ⟨hpart, htenth, _, havail⟩
        · rw [if_pos hall, havail]
        · rw [if_neg (by omega), if_pos htenth, havail]
        · rw [if_neg (by omega), if_neg (by omega), havail]
      · rw [loose_snoc, hskip, StaysBehind, hblock, ← hroom, ← hsized]
        rcases skip_cases hs.valid (Int.pos_iff_toNat_pos.mp hret) with
          ⟨hall, hbase, _⟩ | ⟨hpart, htenth, hbase, _⟩ | ⟨hpart, htenth, hbase, _⟩
        · rw [hbase]
          simp [htakes]
          omega
        · rw [hbase]
          simp [htakes]
          omega
        · exact iff_of_true hbase (.inl ⟨hret, hpart, htenth⟩)
    · have hsame : s'.stream.readBuffer = s.stream.readBuffer := by
        rw [heffect, Label.effect, if_neg hret]
      exact hkeep hret (by rw [hsame]) (by rw [hsame]) (by rw [hsame]; rfl)
  | event => exact hkeep id (by rw [heffect]; rfl) (by rw [heffect]; rfl) (by rw [heffect]; rfl)
  | process => exact hkeep id (by rw [heffect]; rfl) (by rw [heffect]; rfl) (by rw [heffect]; rfl)
  | action act =>
    exact hkeep id (by rw [heffect]; rfl) (by rw [heffect]; rfl) (by rw [heffect]; rfl)
  | onError error acts ret =>
    exact hkeep id (by rw [heffect]; rfl) (by rw [heffect]; rfl) (by rw [heffect]; rfl)

/-- **Run lemma.** -/
theorem ledger_run {fd : Int} {buf : Mem} {n : Nat} {s₀ : State}
    (h₀ : start fd buf n = some s₀) (h : Machine.run Stream.step s₀ labels = some s) :
    Ledger (toUnsigned 32 n) labels s :=
  Machine.run_invariant (ledger_start h₀) (fun _ _ _ _ hs hstep => hs.step hstep) h

/-- **When `READ_FULL` means full.**  In every run of a stream with a buffer of `n` bytes,
    `read_cb` reports `READ_FULL` only when the contents fill the buffer, and never calls
    `read(2)` without room, if and only if the buffer keeps the size it was given, or is never
    found without room at the tail, and no room is stranded: no part of the contents is consumed
    with a tenth of the buffer free, the rest of it then filled up by reads before anything
    more is consumed, and the stream readable again. -/
theorem readFull_iff (fd : Int) (buf : Mem) (n : Nat) (s₀ s : State) (labels : List Label)
    (h₀ : start fd buf n = some s₀) (h : Machine.run step s₀ labels = some s) :
    Machine.Throughout step (FullMeansFull n) s₀ labels ↔
      (n < 2 ^ 32 ∨ ∀ pre post, labels = pre ++ .event :: post →
        tailRoom (toUnsigned 32 n) pre ≠ 0) ∧
      ¬ Strands (toUnsigned 32 n) labels := by
  -- What an event finds at the tail and in front of the contents is in the ledger.
  have hevent : ∀ pre post t, labels = pre ++ .event :: post → Machine.run step s₀ pre = some t →
      (t.stream.readBuffer.base + t.stream.readBuffer.len = n % 2 ^ 32 ↔
        tailRoom (toUnsigned 32 n) pre = 0) ∧
      (t.stream.readBuffer.base = 0 ↔ ¬ Loose (toUnsigned 32 n) pre) := by
    intro pre post t _ ht
    have hledger := ledger_run h₀ ht
    rw [← available_eq_zero_iff hledger.valid hledger.sized, hledger.room, ← hledger.front]
    omega
  rw [fullMeansFull_iff_noRoom h₀ h, strands_iff]
  constructor
  · intro hcond
    have hfound : ∀ pre post, labels = pre ++ .event :: post →
        tailRoom (toUnsigned 32 n) pre = 0 → ¬ Loose (toUnsigned 32 n) pre ∧ n < 2 ^ 32 := by
      intro pre post heq hzero
      obtain ⟨t, ht, _⟩ := Machine.exists_run_of_append (heq ▸ h)
      obtain ⟨hroom, hfront⟩ := hevent pre post t heq ht
      obtain ⟨hbase, hn⟩ := hcond pre .event post t heq ht rfl (hroom.mpr hzero)
      exact ⟨hfront.mp hbase, hn⟩
    constructor
    · by_contra hno
      push Not at hno
      obtain ⟨hn, pre, post, heq, hzero⟩ := hno
      exact absurd (hfound pre post heq hzero).2 (by omega)
    · rintro ⟨pre, post, heq, hloose, hzero⟩
      exact (hfound pre post heq hzero).1 hloose
  · rintro ⟨hsize, hstrands⟩ pre a post t heq ht rfl hend
    obtain ⟨hroom, hfront⟩ := hevent pre post t heq ht
    have hzero := hroom.mp hend
    refine ⟨hfront.mpr fun hloose => hstrands ⟨pre, post, heq, hloose, hzero⟩, ?_⟩
    exact hsize.resolve_right fun hno => hno pre post heq hzero

/-- A run of a 10-byte buffer: ten bytes are read and three of them are consumed, which moves
    the rest to the head; three more are read, and the stream is readable again. -/
def movedRun : List Label :=
  [.action .start, .event, .read 10 (.data [1, 2, 3, 4, 5, 6, 7, 8, 9, 10]),
    .onRead [1, 2, 3, 4, 5, 6, 7, 8, 9, 10] [] 3, .onRead [4, 5, 6, 7, 8, 9, 10] [] 0, .event,
    .read 3 (.data [11, 12, 13]), .onRead [4, 5, 6, 7, 8, 9, 10, 11, 12, 13] [] 0, .event]

/-- A run of a 10-byte buffer: five bytes are read and one of them is consumed, then five more
    are read and none is consumed, and the stream is readable again. -/
def refusedRun : List Label :=
  [.action .start, .event, .read 10 (.data [1, 2, 3, 4, 5]), .onRead [1, 2, 3, 4, 5] [] 1,
    .onRead [2, 3, 4, 5] [] 0, .event, .read 5 (.data [6, 7, 8, 9, 10]),
    .onRead [2, 3, 4, 5, 6, 7, 8, 9, 10] [] 0, .event]

/-- Of these two runs, the first strands no room and reports full only when it is, and the
    second strands the byte that was consumed. -/
theorem readFull_iff_runs :
    ∃ s₀, start 3 (Mem.fresh fun _ => 0) 10 = some s₀ ∧
      Machine.Throughout step (FullMeansFull 10) s₀ movedRun ∧
        ¬ Machine.Throughout step (FullMeansFull 10) s₀ refusedRun := by
  refine ⟨_, rfl, ?_, ?_⟩
  · rw [readFull_iff 3 (Mem.fresh fun _ => 0) 10 _ _ movedRun rfl rfl]
    refine ⟨.inl (by decide), ?_⟩
    rintro ⟨pre, a, mid, post, heq, ha, _⟩
    -- No label of the run leaves a rest behind: the one skip finds no room at the tail.
    have hnone : ∀ i, ∀ h : i < movedRun.length,
        ¬ StaysBehind 10 (tailRoom 10 (movedRun.take i)) (movedRun.get ⟨i, h⟩) := by decide
    have hlt : pre.length < movedRun.length := by simp [heq]
    refine hnone pre.length hlt ?_
    have hsize : toUnsigned 32 10 = 10 := by decide
    simpa [heq, hsize] using ha
  · rw [readFull_iff 3 (Mem.fresh fun _ => 0) 10 _ _ refusedRun rfl rfl]
    rintro ⟨_, hstrands⟩
    refine hstrands ⟨refusedRun.take 3, _, (refusedRun.drop 4).take 4, [], rfl, ?_, ?_, ?_⟩
    · decide
    · decide
    · decide

/-- **`READ_FULL` with a byte free.**  At the end of that run the buffer holds 9 bytes behind
    one that was consumed, and `read_cb` reports it full. -/
theorem readFull_with_room :
    ∃ s₀ s, start 3 (Mem.fresh fun _ => 0) 10 = some s₀ ∧
      Machine.run step s₀ refusedRun = some s ∧ s.pc = .onError .readFull ∧
        s.stream.readBuffer.len = 9 ∧
          ¬ Machine.Throughout step (FullMeansFull 10) s₀ refusedRun := by
  refine ⟨_, _, rfl, rfl, rfl, rfl, ?_⟩
  intro hfull
  have hlen := (hfull refusedRun [] _ (List.append_nil _).symm rfl).1 rfl
  exact absurd hlen (by decide)

end Sancus.Stream
