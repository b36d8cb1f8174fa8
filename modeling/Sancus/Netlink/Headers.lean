import Sancus.Netlink.Datagram

namespace Sancus.Netlink

open CModel

/-!
# Netlink — where the headers of the receive loop lie

The state of the loop after any number of rounds, as a function of the bytes received and
the callback: what has been counted off the bytes remaining is the sum of the aligned
lengths, and the pointer is sixteen times as far.

* `consumed` / `headerAt` / `offered` — the walk of the loop, header by header;
* `GoesRound` — the loop goes round as often as that;
* `visits_iff` — the states the loop visits are those of the walk;
* `StaysInside` — no header and no message is looked for behind the datagram;
* `extract_stays_inside_iff` — the datagrams for which the loop keeps to that.
-/

variable {m : Mem} {self : Receiver} {s s' : ExtractState} {recvbytes k : Nat}

/-! ### The walk, header by header -/

/-- The bytes counted off for the first `k` headers. -/
def consumed (m : Mem) : Nat → Nat
  | 0     => 0
  | k + 1 => consumed m k + sancusNlAlign (nlmsgLen m (sizeofNlmsghdr * consumed m k))

/-- The offset of header `k`. -/
def headerAt (m : Mem) (k : Nat) : Nat := sizeofNlmsghdr * consumed m k

/-- Those of the first `k` headers that are not control messages. -/
def offered (m : Mem) (k : Nat) : List Nat :=
  ((List.range k).map (headerAt m)).filter (isDeliverable m)

theorem offered_succ_of_deliverable (hdel : isDeliverable m (headerAt m k) = true) :
    offered m (k + 1) = offered m k ++ [headerAt m k] := by
  rw [offered, List.range_succ, List.map_append, List.filter_append, ← offered]
  simp [hdel]

theorem offered_succ_of_control (hdel : ¬ isDeliverable m (headerAt m k) = true) :
    offered m (k + 1) = offered m k := by
  rw [offered, List.range_succ, List.map_append, List.filter_append, ← offered]
  simp [hdel]

/-- The variables of the loop when it has passed `k` headers. -/
def stateAt (m : Mem) (recvbytes k : Nat) : ExtractState where
  nlh := headerAt m k
  len := toInt32 recvbytes - consumed m k
  ret := if offered m k = [] then 0 else 1
  delivered := offered m k

/-- Header `k` passes both checks of the loop. -/
def PassesAt (m : Mem) (self : Receiver) (recvbytes k : Nat) : Prop :=
  Passes m (intToUnsigned 32 self.portid) (headerAt m k) (toInt32 recvbytes - consumed m k)

/-- Header `k` is handed to `on_message`. -/
def HandedOver (m : Mem) (self : Receiver) (recvbytes k : Nat) : Prop :=
  PassesAt m self recvbytes k ∧ isDeliverable m (headerAt m k) = true

/-- The first `k` headers pass both checks, and none of them is refused. -/
def GoesRound (m : Mem) (self : Receiver) (recvbytes k : Nat) : Prop :=
  ∀ j < k, PassesAt m self recvbytes j ∧
    (isDeliverable m (headerAt m j) = true → self.onMessage (offered m (j + 1)) = true)

theorem GoesRound.zero : GoesRound m self recvbytes 0 := fun _ h => absurd h (Nat.not_lt_zero _)

theorem GoesRound.succ : GoesRound m self recvbytes (k + 1) ↔ GoesRound m self recvbytes k ∧
    PassesAt m self recvbytes k ∧
      (isDeliverable m (headerAt m k) = true → self.onMessage (offered m (k + 1)) = true) :=
  Nat.forall_lt_succ_right

/-! ### The loop follows it -/

@[simp] theorem stateAt_zero (m : Mem) (recvbytes : Nat) :
    stateAt m recvbytes 0 = extractStart recvbytes := by
  simp [stateAt, extractStart, headerAt, consumed, offered]

/-- A round over a header that is not refused steps to the next one. -/
theorem next_stateAt (hdel : isDeliverable m (headerAt m k) = true) :
    (stateAt m recvbytes k).next m 1 (offered m k ++ [headerAt m k]) =
      stateAt m recvbytes (k + 1) := by
  simp only [ExtractState.next, sancusNlMsgNext, stateAt, offered_succ_of_deliverable hdel,
    headerAt, consumed, Nat.mul_add]
  congr 1
  · push_cast
    omega
  · simp

theorem next_stateAt_control (hdel : ¬ isDeliverable m (headerAt m k) = true) :
    (stateAt m recvbytes k).next m (stateAt m recvbytes k).ret (offered m k) =
      stateAt m recvbytes (k + 1) := by
  simp only [ExtractState.next, sancusNlMsgNext, stateAt, offered_succ_of_control hdel,
    headerAt, consumed, Nat.mul_add]
  congr 1
  push_cast
  omega

/-- What a round does with a header that passes both checks. -/
theorem extractRound_of_passes (h : Passes m (intToUnsigned 32 self.portid) s.nlh s.len) :
    extractRound m self s =
      if isDeliverable m s.nlh = true then
        if self.onMessage (s.delivered ++ [s.nlh]) then
          .again (s.next m 1 (s.delivered ++ [s.nlh]))
        else .leave ⟨0, none, s.delivered ++ [s.nlh]⟩
      else .again (s.next m s.ret s.delivered) := by
  rw [extractRound, if_pos h.1, if_pos h.2]
  simp only [isDeliverable, decide_eq_true_eq]

/-- **Step lemma.**  What a round does at header `k`. -/
theorem extractRound_stateAt :
    extractRound m self (stateAt m recvbytes k) = .again s' ↔
      (PassesAt m self recvbytes k ∧
        (isDeliverable m (headerAt m k) = true → self.onMessage (offered m (k + 1)) = true)) ∧
      s' = stateAt m recvbytes (k + 1) := by
  have hdelivered : isDeliverable m (headerAt m k) = true ↔
      NLMSG_MIN_TYPE ≤ nlmsgType m (stateAt m recvbytes k).nlh := by
    rw [isDeliverable, decide_eq_true_eq]
    rfl
  constructor
  · intro h
    obtain ⟨hok, hport, ⟨htype, hcb, hs'⟩ | ⟨htype, hs'⟩⟩ := extractRound_again h
    · have hdel := hdelivered.mpr htype
      refine ⟨⟨⟨hok, hport⟩, fun _ => ?_⟩, hs'.trans (next_stateAt hdel)⟩
      rw [offered_succ_of_deliverable hdel]
      exact hcb
    · have hdel : ¬ isDeliverable m (headerAt m k) = true := by
        rw [hdelivered]
        omega
      exact ⟨⟨⟨hok, hport⟩, fun hd => absurd hd hdel⟩, hs'.trans (next_stateAt_control hdel)⟩
  · rintro ⟨⟨hpass, hcb⟩, rfl⟩
    rw [extractRound_of_passes (s := stateAt m recvbytes k) hpass]
    by_cases hdel : isDeliverable m (headerAt m k) = true
    · have hgo := hcb hdel
      rw [offered_succ_of_deliverable hdel] at hgo
      exact (if_pos hdel).trans ((if_pos hgo).trans (congrArg _ (next_stateAt hdel)))
    · exact (if_neg hdel).trans (congrArg _ (next_stateAt_control hdel))

/-- **Run lemma.**  The states the loop visits are those of the walk. -/
theorem visits_iff : Loop.Visits (extractRound m self) (extractStart recvbytes) s ↔
    ∃ k, GoesRound m self recvbytes k ∧ s = stateAt m recvbytes k := by
  constructor
  · intro h
    refine h.invariant (I := fun s => ∃ k, GoesRound m self recvbytes k ∧
      s = stateAt m recvbytes k) ?_ ⟨0, GoesRound.zero, (stateAt_zero m recvbytes).symm⟩
    rintro _ b ⟨k, hk, rfl⟩ hb
    obtain ⟨hgo, rfl⟩ := extractRound_stateAt.mp hb
    exact ⟨k + 1, GoesRound.succ.mpr ⟨hk, hgo⟩, rfl⟩
  · rintro ⟨k, hk, rfl⟩
    induction k with
    | zero =>
      rw [stateAt_zero]
      exact .refl _
    | succ k ih =>
      obtain ⟨hk, hgo⟩ := GoesRound.succ.mp hk
      exact (ih hk).tail (extractRound_stateAt.mpr ⟨hgo, rfl⟩)

/-! ### How the loop ends -/

/-- The loop gets to a message that `on_message` refuses. -/
def Refuses (m : Mem) (self : Receiver) (recvbytes : Nat) : Prop :=
  ∃ k, GoesRound m self recvbytes k ∧ HandedOver m self recvbytes k ∧
    self.onMessage (offered m (k + 1)) = false

/-- The loop passes control messages only, and then gets to a header that fails
    `sancus_nl_msg_ok`. -/
def OnlyControl (m : Mem) (self : Receiver) (recvbytes : Nat) : Prop :=
  ∃ k, (∀ j < k, PassesAt m self recvbytes j ∧ ¬ isDeliverable m (headerAt m j) = true) ∧
    ¬ sancusNlMsgOk m (headerAt m k) (toInt32 recvbytes - consumed m k) = true

theorem offered_eq_nil : offered m k = [] ↔ ∀ j < k, ¬ isDeliverable m (headerAt m j) = true := by
  simp [offered, List.filter_eq_nil_iff]

theorem onlyControl_iff : OnlyControl m self recvbytes ↔
    ∃ k, GoesRound m self recvbytes k ∧ offered m k = [] ∧
      ¬ sancusNlMsgOk m (headerAt m k) (toInt32 recvbytes - consumed m k) = true := by
  constructor
  · rintro ⟨k, hk, hend⟩
    refine ⟨k, ?_, offered_eq_nil.mpr fun j hj => (hk j hj).2, hend⟩
    intro j hj
    exact ⟨(hk j hj).1, fun hdel => absurd hdel (hk j hj).2⟩
  · rintro ⟨k, hk, hoff, hend⟩
    exact ⟨k, fun j hj => ⟨(hk j hj).1, offered_eq_nil.mp hoff j hj⟩, hend⟩

/-- A datagram with a message that is refused is not one of control messages only. -/
theorem Refuses.not_onlyControl (h : Refuses m self recvbytes) :
    ¬ OnlyControl m self recvbytes := by
  obtain ⟨k, hk, hover, _⟩ := h
  rintro ⟨l, hl, hend⟩
  rcases Nat.lt_trichotomy k l with hkl | rfl | hlk
  · exact (hl k hkl).2 hover.2
  · exact hend hover.1.1
  · exact hend (hk l hlk).1.1

/-- The loop leaves with what the header it gets to decides. -/
theorem extractRound_leave {r : ExtractResult} (h : extractRound m self s = .leave r) :
    (Passes m (intToUnsigned 32 self.portid) s.nlh s.len ∧ isDeliverable m s.nlh = true ∧
        self.onMessage (s.delivered ++ [s.nlh]) = false ∧ r.ret = 0) ∨
      (sancusNlMsgOk m s.nlh s.len = true ∧ r.ret = -1) ∨
      (¬ sancusNlMsgOk m s.nlh s.len = true ∧ r.ret = s.ret) := by
  by_cases hok : sancusNlMsgOk m s.nlh s.len = true
  · by_cases hport : sancusNlMsgPortidOk m s.nlh (intToUnsigned 32 self.portid) = true
    · rw [extractRound_of_passes ⟨hok, hport⟩] at h
      split at h
      · next hdel =>
        split at h
        · cases h
        · next hcb =>
          obtain rfl := Round.leave.inj h
          exact .inl ⟨⟨hok, hport⟩, hdel, by simpa using hcb, rfl⟩
      · cases h
    · rw [extractRound, if_pos hok, if_neg hport] at h
      obtain rfl := Round.leave.inj h
      exact .inr (.inl ⟨hok, rfl⟩)
  · rw [extractRound, if_neg hok] at h
    obtain rfl := Round.leave.inj h
    exact .inr (.inr ⟨hok, rfl⟩)

/-- **When 0 is returned.**  Either a message is refused, or none has been handed over. -/
theorem extract_ret_zero_iff :
    (∃ fuel r, extractNetlinkMessage fuel m self recvbytes = some r ∧ r.ret = 0) ↔
      Refuses m self recvbytes ∨ OnlyControl m self recvbytes := by
  rw [onlyControl_iff]
  constructor
  · rintro ⟨fuel, r, hfuel, hret⟩
    obtain ⟨s, hs, hleave⟩ :=
      Loop.returns_iff_visits.mp (extractNetlinkMessage_returns.mp ⟨fuel, hfuel⟩)
    obtain ⟨k, hk, rfl⟩ := visits_iff.mp hs
    rcases extractRound_leave hleave with ⟨hpass, hdel, hcb, _⟩ | ⟨_, hret'⟩ | ⟨hend, hret'⟩
    · refine .inl ⟨k, hk, ⟨hpass, hdel⟩, ?_⟩
      rw [offered_succ_of_deliverable hdel]
      exact hcb
    · omega
    · refine .inr ⟨k, hk, ?_, hend⟩
      by_contra hoff
      have hone : (stateAt m recvbytes k).ret = 1 := if_neg hoff
      omega
  · intro h
    have hreturns : ∃ r, Loop.Returns (extractRound m self) (extractStart recvbytes) r ∧
        r.ret = 0 := by
      rcases h with ⟨k, hk, ⟨hpass, hdel⟩, hcb⟩ | ⟨k, hk, hoff, hend⟩
      · rw [offered_succ_of_deliverable hdel] at hcb
        have hno : ¬ self.onMessage (offered m k ++ [headerAt m k]) = true := by
          rw [hcb]
          exact Bool.false_ne_true
        have hleave : extractRound m self (stateAt m recvbytes k) =
            .leave ⟨0, none, offered m k ++ [headerAt m k]⟩ := by
          rw [extractRound_of_passes (s := stateAt m recvbytes k) hpass]
          exact (if_pos hdel).trans (if_neg hno)
        exact ⟨_, Loop.returns_iff_visits.mpr
          ⟨stateAt m recvbytes k, visits_iff.mpr ⟨k, hk, rfl⟩, hleave⟩, rfl⟩
      · exact ⟨_, Loop.returns_iff_visits.mpr
          ⟨stateAt m recvbytes k, visits_iff.mpr ⟨k, hk, rfl⟩, if_neg hend⟩, if_pos hoff⟩
    obtain ⟨r, hr, hret⟩ := hreturns
    obtain ⟨fuel, hfuel⟩ := extractNetlinkMessage_returns.mpr hr
    exact ⟨fuel, r, hfuel, hret⟩

/-! ### Inside the datagram -/

/-- The messages handed to `on_message` by the end of a round. -/
def roundDelivered : Round ExtractState ExtractResult → List Nat
  | .again s => s.delivered
  | .leave r => r.delivered

/-- A round hands its message over when the header passes both checks and has no control
    type. -/
theorem roundDelivered_extractRound :
    roundDelivered (extractRound m self s) = s.delivered ++ [s.nlh] ↔
      Passes m (intToUnsigned 32 self.portid) s.nlh s.len ∧ isDeliverable m s.nlh = true := by
  rw [extractRound, Passes, isDeliverable, decide_eq_true_eq]
  split_ifs <;> simp_all [roundDelivered, ExtractState.next]

/-- Every header that is read lies in the datagram: a round reads one when a header's worth
    of bytes is still counted as remaining.  And so does every message handed over. -/
structure StaysInside (m : Mem) (self : Receiver) (recvbytes : Nat) : Prop where
  header : ∀ s, Loop.Visits (extractRound m self) (extractStart recvbytes) s →
    (sizeofNlmsghdr : Int) ≤ s.len → s.nlh + sizeofNlmsghdr ≤ recvbytes
  message : ∀ s, Loop.Visits (extractRound m self) (extractStart recvbytes) s →
    roundDelivered (extractRound m self s) = s.delivered ++ [s.nlh] →
      sizeofNlmsghdr ≤ nlmsgLen m s.nlh ∧ s.nlh + nlmsgLen m s.nlh ≤ recvbytes

/-- **When the loop stays inside the datagram.**  For every buffer of at most 8192 bytes, port
    id and callback: exactly when, at each header the loop gets to, nothing has been counted
    off yet, or fewer than 16 bytes remain, or sixteen times what has been counted off leaves
    room for a header; and, where the message is handed over, its length is not negative as an
    `int` and sixteen times what has been counted off leaves room for it too. -/
theorem extract_stays_inside_iff (m : Mem) (self : Receiver) (recvbytes : Nat)
    (hbuf : recvbytes ≤ 8192) :
    StaysInside m self recvbytes ↔ ∀ k, GoesRound m self recvbytes k →
      (consumed m k = 0 ∨ recvbytes < consumed m k + 16 ∨ 16 * consumed m k + 16 ≤ recvbytes) ∧
      (HandedOver m self recvbytes k → nlmsgLen m (headerAt m k) < 2 ^ 31 ∧
        (consumed m k = 0 ∨ 16 * consumed m k + nlmsgLen m (headerAt m k) ≤ recvbytes)) := by
  have hlen : ∀ k, (stateAt m recvbytes k).len = recvbytes - consumed m k := by
    intro k
    rw [← toInt32_of_lt (show recvbytes < 2 ^ 31 by omega)]
    rfl
  have hnlh : ∀ k, (stateAt m recvbytes k).nlh = 16 * consumed m k := fun _ => rfl
  have hhanded : ∀ k, roundDelivered (extractRound m self (stateAt m recvbytes k)) =
      (stateAt m recvbytes k).delivered ++ [(stateAt m recvbytes k).nlh] ↔
        HandedOver m self recvbytes k := fun k => roundDelivered_extractRound
  constructor
  · rintro ⟨hheader, hmessage⟩ k hk
    have hv := visits_iff.mpr ⟨k, hk, rfl⟩
    constructor
    · have h := hheader _ hv
      rw [hlen, hnlh, sizeofNlmsghdr] at h
      omega
    · intro hh
      obtain ⟨_, hle⟩ := hmessage _ hv ((hhanded k).mpr hh)
      have hat : (stateAt m recvbytes k).nlh = headerAt m k := rfl
      rw [hat, headerAt, sizeofNlmsghdr] at hle
      rw [headerAt, sizeofNlmsghdr]
      omega
  · intro h
    constructor
    · intro s hv h16
      obtain ⟨k, hk, rfl⟩ := visits_iff.mp hv
      have hk := (h k hk).1
      rw [hlen, sizeofNlmsghdr] at h16
      rw [hnlh, sizeofNlmsghdr]
      omega
    · intro s hv hs
      obtain ⟨k, hk, rfl⟩ := visits_iff.mp hv
      have hh := (hhanded k).mp hs
      obtain ⟨hlt, hroom⟩ := (h k hk).2 hh
      -- the check has compared the length with the bytes remaining, as numbers
      have hok := sancusNlMsgOk_iff.mp hh.1.1
      rw [toInt32_of_lt hlt, toInt32_of_lt (show recvbytes < 2 ^ 31 by omega)] at hok
      have hat : (stateAt m recvbytes k).nlh = headerAt m k := rfl
      rw [hat]
      refine ⟨hok.2.1, ?_⟩
      have hnlh : headerAt m k = 16 * consumed m k := rfl
      omega

/-- Two datagrams of two messages: after the first message the pointer strays into the payload
    of the second where that is long enough, and past the datagram where it is not. -/
theorem extract_stays_inside_iff_pairs :
    StaysInside (Mem.ofBytes (datagram [headerOnly, zeroPayload])) ⟨0, fun _ => true⟩ 292 ∧
      ¬ StaysInside (Mem.ofBytes (datagram [headerOnly, headerOnly])) ⟨0, fun _ => true⟩ 32 := by
  constructor
  · rw [extract_stays_inside_iff _ _ 292 (by decide)]
    -- The payload is zero, which is no length of a message: the loop ends at the second header.
    have hend : ¬ PassesAt (Mem.ofBytes (datagram [headerOnly, zeroPayload])) ⟨0, fun _ => true⟩
        292 1 := fun h => absurd h.1 (by decide +kernel)
    intro k hk
    have hle : k ≤ 1 := by
      by_contra h
      exact hend (hk 1 (by omega)).1
    obtain rfl | rfl : k = 0 ∨ k = 1 := by omega
    · exact ⟨.inl rfl, fun _ => ⟨by decide +kernel, .inl rfl⟩⟩
    · exact ⟨.inr (.inr (by decide +kernel)), fun h => absurd h.1 hend⟩
  · rw [extract_stays_inside_iff _ _ 32 (by decide)]
    intro h
    have hround : GoesRound (Mem.ofBytes (datagram [headerOnly, headerOnly])) ⟨0, fun _ => true⟩
        32 1 := GoesRound.succ.mpr ⟨GoesRound.zero, ⟨by decide, by decide⟩, fun _ => rfl⟩
    have hfirst := (h 1 hround).1
    revert hfirst
    decide

/-- **A header read behind the datagram.**  After the first of two messages of 16 bytes the
    second is looked for at offset 256. -/
theorem extract_reads_past_datagram :
    ¬ StaysInside (Mem.ofBytes (datagram [headerOnly, headerOnly])) ⟨0, fun _ => true⟩ 32 := by
  rintro ⟨hheader, _⟩
  have hround : GoesRound (Mem.ofBytes (datagram [headerOnly, headerOnly])) ⟨0, fun _ => true⟩ 32
      1 := GoesRound.succ.mpr ⟨GoesRound.zero, ⟨by decide, by decide⟩, fun _ => rfl⟩
  have hinside := hheader _ (visits_iff.mpr ⟨1, hround, rfl⟩) (by decide)
  revert hinside
  decide

end Sancus.Netlink
