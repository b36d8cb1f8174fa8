import Sancus.Fd.Writev

namespace Sancus.Fd

open CModel

/-!
# File descriptors — the plain write

`sancus_write` calls `write` until the block is written.  It is the loop of `sancus_writev` with
one segment and no consume loop, and the two come to the same.

* `WriteState` / `writeRound` — the loop, sent bytes being recorded by address;
* `sancusWrite` — the function;
* `Sending` — the invariant: what has been sent, and what is left, make up the block;
* `write_sends` — what is sent, when the function returns, and that the gathered write of the same
  block does exactly the same.
-/

/-- The variables of the loop: what is left of the block, the bytes written, and the calls made
    and addresses sent so far. -/
structure WriteState where
  data : Nat
  count : Nat
  wt : Int
  calls : Nat
  sent : List Nat

/-- The state after a call that took `n` bytes. -/
def WriteState.take (s : WriteState) (n : Nat) : WriteState where
  data := s.data + n
  count := s.count - n
  wt := s.wt + n
  calls := s.calls + 1
  sent := s.sent ++ (List.range' s.data s.count).take n

/-- The state after a call that was interrupted. -/
def WriteState.interrupted (s : WriteState) : WriteState := { s with calls := s.calls + 1 }

/-- One round of `while (count)`. -/
def writeRound (kernel : Kernel) (s : WriteState) : Round WriteState WritevResult :=
  if s.count = 0 then .leave ⟨s.wt, none, s.sent⟩
  else
    match kernel.reply s.calls s.count with
    | .took n   => .again (s.take n)
    | .failed e => if e = EINTR then .again s.interrupted else .leave ⟨-e, some e, s.sent⟩

def writeStart (data count : Nat) : WriteState := ⟨data, count, 0, 0, []⟩

/-- `sancus_write` with a bound on the calls it makes. -/
def sancusWrite (fuel : Nat) (kernel : Kernel) (data count : Nat) : Option WritevResult :=
  Loop.run (writeRound kernel) fuel (writeStart data count)

/-! ### What is sent -/

variable {kernel : Kernel} {data count n : Nat} {s s' : WriteState}

/-- What has been sent is the first part of the block, and what is left is the rest of it. -/
structure Sending (data count : Nat) (s : WriteState) : Prop where
  block : s.sent ++ List.range' s.data s.count = List.range' data count
  written : s.wt = s.sent.length

theorem sending_start (data count : Nat) : Sending data count (writeStart data count) :=
  ⟨rfl, rfl⟩

theorem Sending.take (h : Sending data count s) (hn : n ≤ s.count) :
    Sending data count (s.take n) where
  block := by
    rw [← h.block]
    show s.sent ++ _ ++ List.range' (s.data + n) (s.count - n) = _
    obtain ⟨k, hk⟩ := Nat.exists_eq_add_of_le hn
    rw [hk, Nat.add_sub_cancel_left, ← List.range'_append_1, List.append_assoc,
      List.take_left' List.length_range']
  written := by
    show s.wt + n = ((s.sent ++ (List.range' s.data s.count).take n).length : Int)
    rw [h.written, List.length_append, List.length_take_of_le (by simpa using hn)]
    rfl

/-- What a round that goes round again has done. -/
theorem writeRound_again (h : writeRound kernel s = .again s') : s.count ≠ 0 ∧
    ((∃ n, kernel.reply s.calls s.count = .took n ∧ s' = s.take n) ∨
      kernel.reply s.calls s.count = .failed EINTR ∧ s' = s.interrupted) := by
  unfold writeRound at h
  split at h
  · cases h
  · next hcount =>
    refine ⟨hcount, ?_⟩
    cases hreply : kernel.reply s.calls s.count with
    | took n =>
      rw [hreply] at h
      exact .inl ⟨n, rfl, (Round.again.inj h).symm⟩
    | failed e =>
      rw [hreply] at h
      dsimp only at h
      split at h
      · next he => exact .inr ⟨by rw [he], (Round.again.inj h).symm⟩
      · cases h

/-- What one that leaves returns. -/
theorem writeRound_leave {r : WritevResult} (h : writeRound kernel s = .leave r) :
    s.count = 0 ∧ r = ⟨s.wt, none, s.sent⟩ ∨
      s.count ≠ 0 ∧ ∃ e, kernel.reply s.calls s.count = .failed e ∧ e ≠ EINTR ∧
        r = ⟨-e, some e, s.sent⟩ := by
  unfold writeRound at h
  split at h
  · next hcount => exact .inl ⟨hcount, (Round.leave.inj h).symm⟩
  · next hcount =>
    split at h
    · cases h
    · next e hreply =>
      split at h
      · cases h
      · next he => exact .inr ⟨hcount, e, hreply, he, (Round.leave.inj h).symm⟩

theorem Sending.again (h : Sending data count s) (hround : writeRound kernel s = .again s') :
    Sending data count s' := by
  obtain ⟨_, ⟨n, hn, rfl⟩ | ⟨_, rfl⟩⟩ := writeRound_again hround
  · exact h.take (kernel.took_le hn)
  · exact ⟨h.block, h.written⟩

/-- What has been sent when the function returns. -/
structure Sent (data count : Nat) (r : WritevResult) : Prop where
  all : r.errno = none → r.ret = count ∧ r.sent = List.range' data count
  some_of : ∀ e, r.errno = some e → e ≠ EINTR ∧ r.ret = -e ∧ r.sent <+: List.range' data count

theorem Sending.leave {r : WritevResult} (h : Sending data count s)
    (hround : writeRound kernel s = .leave r) : Sent data count r := by
  rcases writeRound_leave hround with ⟨hcount, rfl⟩ | ⟨_, e, _, he, rfl⟩
  · have hblock : s.sent = List.range' data count := by
      rw [← h.block, hcount]
      exact (List.append_nil _).symm
    refine ⟨fun _ => ⟨?_, hblock⟩, nofun⟩
    show s.wt = count
    rw [h.written, hblock, List.length_range']
  · refine ⟨nofun, ?_⟩
    rintro _ ⟨⟩
    exact ⟨he, rfl, _, h.block⟩

/-! ### When it returns -/

/-- Every interruption is followed by a call that is not interrupted. -/
def Settles (kernel : Kernel) : Prop :=
  ∀ calls room, ∃ j, kernel.reply (calls + j) room ≠ .failed EINTR

theorem writeRound_took (hcount : s.count ≠ 0) (h : kernel.reply s.calls s.count = .took n) :
    writeRound kernel s = .again (s.take n) := by
  rw [writeRound, if_neg hcount, h]

theorem writeRound_interrupted (hcount : s.count ≠ 0)
    (h : kernel.reply s.calls s.count = .failed EINTR) :
    writeRound kernel s = .again s.interrupted := by
  rw [writeRound, if_neg hcount, h]
  exact if_pos rfl

/-- A call that is not interrupted takes a byte or makes the loop return. -/
theorem write_returns_of_reply (hcount : s.count ≠ 0)
    (hreply : kernel.reply s.calls s.count ≠ .failed EINTR)
    (ih : ∀ t : WriteState, t.count < s.count → ∃ r, Loop.Returns (writeRound kernel) t r) :
    ∃ r, Loop.Returns (writeRound kernel) s r := by
  cases hcall : kernel.reply s.calls s.count with
  | took n =>
    have hpos : 0 < n := kernel.took_pos hcall (Nat.pos_of_ne_zero hcount)
    have hlt : (s.take n).count < s.count := by
      show s.count - n < s.count
      omega
    obtain ⟨r, hr⟩ := ih _ hlt
    exact ⟨r, .again (writeRound_took hcount hcall) hr⟩
  | failed e =>
    have he : e ≠ EINTR := fun he => hreply (he ▸ hcall)
    exact ⟨_, .leave (by rw [writeRound, if_neg hcount, hcall]; exact if_neg he)⟩

/-- Induction on what is left, and on the interrupted calls that come next. -/
theorem write_returns (hsettles : Settles kernel) (s : WriteState) :
    ∃ r, Loop.Returns (writeRound kernel) s r := by
  induction hcount : s.count using Nat.strongRecOn generalizing s with
  | ind m ih =>
    by_cases hzero : s.count = 0
    · exact ⟨_, .leave (if_pos hzero)⟩
    · obtain ⟨j, hj⟩ := hsettles s.calls s.count
      induction j generalizing s with
      | zero =>
        exact write_returns_of_reply hzero hj fun t ht => ih _ (hcount ▸ ht) t rfl
      | succ j ihj =>
        by_cases hreply : kernel.reply s.calls s.count = .failed EINTR
        · have hj' : kernel.reply (s.interrupted.calls + j) s.interrupted.count ≠
              .failed EINTR := by
            show kernel.reply (s.calls + 1 + j) s.count ≠ _
            rwa [Nat.add_right_comm, Nat.add_assoc]
          obtain ⟨r, hr⟩ := ihj s.interrupted hcount hzero hj'
          exact ⟨r, .again (writeRound_interrupted hzero hreply) hr⟩
        · exact write_returns_of_reply hzero hreply fun t ht => ih _ (hcount ▸ ht) t rfl

/-! ### The gathered write of one segment -/

/-- The state of the gathered write that corresponds: the segment is gone when nothing of it is
    left. -/
def WriteState.gathered (s : WriteState) : WritevState where
  iov := if s.count = 0 then [] else [⟨s.data, s.count⟩]
  wt := s.wt
  calls := s.calls
  sent := s.sent

theorem gathered_iov (hcount : s.count ≠ 0) : s.gathered.iov = [⟨s.data, s.count⟩] :=
  if_neg hcount

theorem gathered_total (hcount : s.count ≠ 0) : total s.gathered.iov = s.count := by
  simp [gathered_iov hcount, total]

/-- Taking bytes of the block is taking them of its segment. -/
theorem gathered_take (hcount : s.count ≠ 0) (hn : n ≤ s.count) :
    s.gathered.take n = (s.take n).gathered := by
  have hiov : consume n n [⟨s.data, s.count⟩] =
      if s.count - n = 0 then [] else [⟨s.data + n, s.count - n⟩] := by
    rcases Nat.eq_zero_or_pos n with rfl | hpos
    · simp [consume, hcount]
    · rcases Nat.eq_or_lt_of_le hn with rfl | hlt
      · simp [consume, hcount]
      · have hinside : ¬ (⟨s.data, s.count⟩ : Iovec).iov_len ≤ n := not_le.mpr hlt
        rw [if_neg (by omega), consume, if_neg (by omega), if_neg hinside]
  have haddrs : addrs [⟨s.data, s.count⟩] = List.range' s.data s.count := by simp [addrs]
  rw [WritevState.take, gathered_iov hcount, hiov, haddrs]
  rfl

/-- The two loops have the same rounds. -/
theorem sancusWrite_eq_gathered (fuel : Nat) (s : WriteState) :
    Loop.run (writevRound kernel) fuel s.gathered = Loop.run (writeRound kernel) fuel s := by
  apply Loop.run_of_simulates WriteState.gathered
  · intro s s' hround
    obtain ⟨hcount, ⟨n, hn, rfl⟩ | ⟨hintr, rfl⟩⟩ := writeRound_again hround
    · rw [← gathered_take hcount (kernel.took_le hn)]
      apply writevRound_took
      · simp [gathered_iov hcount]
      · rw [gathered_total hcount]
        exact hn
    · apply writevRound_interrupted
      · simp [gathered_iov hcount]
      · rw [gathered_total hcount]
        exact hintr
  · intro s r hround
    rcases writeRound_leave hround with ⟨hcount, rfl⟩ | ⟨hcount, e, hreply, he, rfl⟩
    · exact if_pos (if_pos hcount)
    · have hreply' : kernel.reply s.gathered.calls (total s.gathered.iov) = .failed e := by
        rw [gathered_total hcount]
        exact hreply
      rw [writevRound, if_neg (by simp [gathered_iov hcount]), hreply']
      exact if_neg he

/-- **The plain write.**  For every kernel and block: when `sancus_write` returns without an error
    it has sent the block, in order and once, and returns its length; when a call fails, with
    another error than an interruption, it has sent a first part of it.  It returns if the
    interruptions end.  And the gathered write of the block as one segment makes the same calls,
    sends the same and returns the same, unless the block is empty. -/
theorem write_sends (kernel : Kernel) (data count : Nat) :
    (∀ fuel r, sancusWrite fuel kernel data count = some r → Sent data count r) ∧
      (Settles kernel → ∃ fuel r, sancusWrite fuel kernel data count = some r) ∧
      (0 < count → ∀ fuel,
        sancusWritev fuel kernel [⟨data, count⟩] 1 = sancusWrite fuel kernel data count) := by
  refine ⟨?_, ?_, ?_⟩
  · intro fuel r hrun
    exact (Loop.returns_of_run hrun).post (I := Sending data count)
      (fun _ _ h hround => h.again hround) (fun _ _ h hround => h.leave hround)
      (sending_start data count)
  · intro hsettles
    obtain ⟨r, hr⟩ := write_returns hsettles (writeStart data count)
    obtain ⟨fuel, hfuel⟩ := hr.exists_run
    exact ⟨fuel, r, hfuel⟩
  · intro hcount fuel
    have hstart : writevStart [⟨data, count⟩] = (writeStart data count).gathered := by
      have hne : (writeStart data count).count ≠ 0 := Nat.pos_iff_ne_zero.mp hcount
      rw [WriteState.gathered, if_neg hne]
      rfl
    show Loop.run (writevRound kernel) fuel (writevStart [⟨data, count⟩]) = _
    rw [hstart, sancusWrite_eq_gathered]
    rfl

end Sancus.Fd
