import Sancus.CModel.Loop
import Sancus.Netlink.Msg

namespace Sancus.Netlink

open CModel

/-!
# Netlink — the receive loop

`extract_netlink_message` walks the bytes `recvmsg` left in the receive buffer and
hands each message to the `on_message` callback.  The loop is a `CModel.Loop`, since
on a hostile buffer it need not end.

* `extractRound` — one round of the `while` loop;
* `extractRound_again` — what a round that goes round again has done;
* `extract_progresses_iff` — the loop ends, each round consuming a header's worth of
  bytes, exactly when no header it passes has a stalling length.
-/

/-- `ESRCH`, set when a message carries a foreign port id. -/
def ESRCH : Nat := 3

/-- The fields of `struct sancus_nl_receiver` the loop uses.  The callback is a function
    of the messages delivered so far, the last of them the one it is called with. -/
structure Receiver where
  portid : Int
  onMessage : List Nat → Bool

/-- The variables of the loop: the message pointer, the bytes remaining, the value to be
    returned and the pointers handed to `on_message` so far. -/
structure ExtractState where
  nlh : Nat
  len : Int
  ret : Int
  delivered : List Nat
  deriving DecidableEq

/-- What `extract_netlink_message` returns, the `errno` it sets and what it delivered. -/
structure ExtractResult where
  ret : Int
  errno : Option Nat
  delivered : List Nat
  deriving DecidableEq

/-- The state after `nlh = sancus_nl_msg_next(nlh, &len)`. -/
def ExtractState.next (m : Mem) (s : ExtractState) (ret : Int) (delivered : List Nat) :
    ExtractState where
  nlh := (sancusNlMsgNext m s.nlh s.len).1
  len := (sancusNlMsgNext m s.nlh s.len).2
  ret := ret
  delivered := delivered

/-- One round of `while (sancus_nl_msg_ok(nlh, len))`. -/
def extractRound (m : Mem) (self : Receiver) (s : ExtractState) :
    Round ExtractState ExtractResult :=
  if sancusNlMsgOk m s.nlh s.len then
    if sancusNlMsgPortidOk m s.nlh (intToUnsigned 32 self.portid) then
      if NLMSG_MIN_TYPE ≤ nlmsgType m s.nlh then
        if self.onMessage (s.delivered ++ [s.nlh]) then
          .again (s.next m 1 (s.delivered ++ [s.nlh]))
        else .leave ⟨0, none, s.delivered ++ [s.nlh]⟩
      else .again (s.next m s.ret s.delivered)
    else .leave ⟨-1, some ESRCH, s.delivered⟩
  else .leave ⟨s.ret, none, s.delivered⟩

/-- The loop variables on entry, `recvbytes` bytes having been received. -/
def extractStart (recvbytes : Nat) : ExtractState := ⟨0, toInt32 recvbytes, 0, []⟩

/-- `extract_netlink_message` with a bound on the rounds of its loop. -/
def extractNetlinkMessage (fuel : Nat) (m : Mem) (self : Receiver) (recvbytes : Nat) :
    Option ExtractResult :=
  Loop.run (extractRound m self) fuel (extractStart recvbytes)

variable {m : Mem} {self : Receiver} {s s' : ExtractState} {recvbytes : Nat}

/-- The function returns what its loop leaves with. -/
theorem extractNetlinkMessage_returns {r : ExtractResult} :
    (∃ fuel, extractNetlinkMessage fuel m self recvbytes = some r) ↔
      Loop.Returns (extractRound m self) (extractStart recvbytes) r :=
  Loop.returns_iff_run.symm

/-- **What a round that goes round again has done.**  The header passed both checks, was
    delivered and accepted if it is not a control message, and was stepped over. -/
theorem extractRound_again (h : extractRound m self s = .again s') :
    sancusNlMsgOk m s.nlh s.len = true ∧
      sancusNlMsgPortidOk m s.nlh (intToUnsigned 32 self.portid) = true ∧
      ((NLMSG_MIN_TYPE ≤ nlmsgType m s.nlh ∧ self.onMessage (s.delivered ++ [s.nlh]) = true ∧
          s' = s.next m 1 (s.delivered ++ [s.nlh])) ∨
        (nlmsgType m s.nlh < NLMSG_MIN_TYPE ∧ s' = s.next m s.ret s.delivered)) := by
  rw [extractRound] at h
  split at h
  · next hok =>
    split at h
    · next hport =>
      refine ⟨hok, hport, ?_⟩
      split at h
      · next htype =>
        split at h
        · next hcb => exact .inl ⟨htype, hcb, (Round.again.inj h).symm⟩
        · cases h
      · next htype => exact .inr ⟨by omega, (Round.again.inj h).symm⟩
    · cases h
  · cases h

/-- Every round that goes round again takes the aligned length off the bytes remaining. -/
theorem extractRound_again_len (h : extractRound m self s = .again s') :
    s'.len = s.len - sancusNlAlign (nlmsgLen m s.nlh) := by
  obtain ⟨_, _, ⟨_, _, rfl⟩ | ⟨_, rfl⟩⟩ := extractRound_again h <;> rfl

/-! ### Termination -/

/-- The loop passes over at least a header's worth of bytes in every round, and ends. -/
def Progresses (m : Mem) (self : Receiver) (recvbytes : Nat) : Prop :=
  (∀ s s', Loop.Visits (extractRound m self) (extractStart recvbytes) s →
      extractRound m self s = .again s' → s'.len + sizeofNlmsghdr ≤ s.len) ∧
    ∃ fuel r, extractNetlinkMessage fuel m self recvbytes = some r

/-- A length field that compares as a negative `int` and whose aligned low 16 bits are less
    than a header: the loop steps over it by less than it has checked. -/
def Stalling (nlmsgLen : Nat) : Prop := 2 ^ 31 ≤ nlmsgLen ∧ (nlmsgLen + 3) % 65536 < 16

instance (n : Nat) : Decidable (Stalling n) := inferInstanceAs (Decidable (_ ∧ _))

/-- **Step lemma.**  With at most a buffer's worth of bytes remaining, a round consumes a
    header's worth exactly when the length it passes is not a stalling one. -/
theorem extractRound_progress_iff (h : extractRound m self s = .again s') (hlen : s.len ≤ 8192) :
    s'.len + sizeofNlmsghdr ≤ s.len ↔ ¬ Stalling (nlmsgLen m s.nlh) := by
  rw [extractRound_again_len h, sancusNlAlign_eq, Stalling, sizeofNlmsghdr]
  rcases sancusNlMsgOk_cases (extractRound_again h).1 with ⟨h16, hle⟩ | hbig
  · -- The message fits, so its length is between 16 and 8192 and aligns to itself or more.
    omega
  · -- The length was compared as a negative number: only its low 16 bits are subtracted.
    omega

/-- The bytes remaining never grow. -/
theorem extract_visits_len (h : Loop.Visits (extractRound m self) (extractStart recvbytes) s) :
    s.len ≤ toInt32 recvbytes := by
  have hstep : ∀ a b : ExtractState, a.len ≤ toInt32 recvbytes →
      extractRound m self a = .again b → b.len ≤ toInt32 recvbytes := by
    intro a b ha hab
    rw [extractRound_again_len hab]
    omega
  exact h.invariant (I := fun s => s.len ≤ toInt32 recvbytes) hstep le_rfl

/-- **The receive loop ends exactly when no length stalls it.**  On any buffer of at most
    8192 bytes every round consumes a header's worth of bytes, so that the loop ends, if
    and only if no header it passes has a stalling length. -/
theorem extract_progresses_iff (m : Mem) (self : Receiver) (recvbytes : Nat)
    (hbuf : recvbytes ≤ 8192) :
    Progresses m self recvbytes ↔
      ∀ s s', Loop.Visits (extractRound m self) (extractStart recvbytes) s →
        extractRound m self s = .again s' → ¬ Stalling (nlmsgLen m s.nlh) := by
  have hstart : toInt32 recvbytes ≤ 8192 := by
    rw [toInt32_of_lt (by omega)]; exact_mod_cast hbuf
  have hiff : ∀ s s', Loop.Visits (extractRound m self) (extractStart recvbytes) s →
      extractRound m self s = .again s' →
      (s'.len + sizeofNlmsghdr ≤ s.len ↔ ¬ Stalling (nlmsgLen m s.nlh)) :=
    fun s s' hv h => extractRound_progress_iff h (le_trans (extract_visits_len hv) hstart)
  constructor
  · rintro ⟨hdec, _⟩ s s' hv h
    exact (hiff s s' hv h).mp (hdec s s' hv h)
  · intro hno
    have hdec : ∀ s s', Loop.Visits (extractRound m self) (extractStart recvbytes) s →
        extractRound m self s = .again s' → s'.len + sizeofNlmsghdr ≤ s.len :=
      fun s s' hv h => (hiff s s' hv h).mpr (hno s s' hv h)
    -- The measure is the bytes remaining; a round is entered with at least 16 of them.
    have hmeasure : ∀ s s', Loop.Visits (extractRound m self) (extractStart recvbytes) s →
        extractRound m self s = .again s' →
        Loop.Visits (extractRound m self) (extractStart recvbytes) s' ∧
          s'.len.toNat < s.len.toNat := by
      intro s s' hv h
      have hge := (sancusNlMsgOk_iff.mp (extractRound_again h).1).1
      have hlt := hdec s s' hv h
      rw [sizeofNlmsghdr] at hlt
      exact ⟨hv.tail h, by omega⟩
    obtain ⟨r, hr⟩ :=
      Loop.returns_of_measure (fun s : ExtractState => s.len.toNat) hmeasure (.refl _)
    obtain ⟨fuel, hfuel⟩ := extractNetlinkMessage_returns.mpr hr
    exact ⟨hdec, fuel, r, hfuel⟩

/-- A 16-byte datagram whose only header claims `0x80000000` bytes. -/
def hostileHeader : Mem := Mem.fresh fun i => if i = 3 then 0x80 else if i = 4 then 0x10 else 0

/-- Headers of type `NLMSG_MIN_TYPE` and 16 bytes, one behind the other. -/
def headersOnly : Mem := Mem.fresh fun i => if i % 16 = 0 ∨ i % 16 = 4 then 0x10 else 0

/-- On two messages of 16 bytes the loop makes two rounds and ends; on a header that claims
    `2 ^ 31` bytes it does not progress. -/
theorem extract_progresses_iff_headers :
    Progresses headersOnly ⟨0, fun _ => true⟩ 32 ∧
      ¬ Progresses hostileHeader ⟨0, fun _ => true⟩ 16 := by
  constructor
  · rw [extract_progresses_iff _ _ 32 (by decide)]
    intro s s' hv h
    -- The rounds begin at the first header, at the one the pointer strays to, and at the end.
    have hrounds : s ∈ [extractStart 32, ⟨256, 16, 1, [0]⟩, ⟨512, 0, 1, [0, 256]⟩] := by
      refine hv.invariant (I := fun s => s ∈ _) ?_ (by simp)
      intro a b ha hab
      simp only [List.mem_cons, List.not_mem_nil, or_false] at ha
      obtain rfl | rfl | rfl := ha
      · have hround : extractRound headersOnly ⟨0, fun _ => true⟩ (extractStart 32) =
            .again ⟨256, 16, 1, [0]⟩ := by decide
        simp [← Round.again.inj (hround.symm.trans hab)]
      · have hround : extractRound headersOnly ⟨0, fun _ => true⟩ ⟨256, 16, 1, [0]⟩ =
            .again ⟨512, 0, 1, [0, 256]⟩ := by decide
        simp [← Round.again.inj (hround.symm.trans hab)]
      · have hround : extractRound headersOnly ⟨0, fun _ => true⟩ ⟨512, 0, 1, [0, 256]⟩ =
            .leave ⟨1, none, [0, 256]⟩ := by decide
        exact absurd (hround.symm.trans hab) (by simp)
    simp only [List.mem_cons, List.not_mem_nil, or_false] at hrounds
    obtain rfl | rfl | rfl := hrounds <;> decide
  · rw [extract_progresses_iff _ _ 16 (by decide)]
    intro hno
    have hround : extractRound hostileHeader ⟨0, fun _ => true⟩ (extractStart 16) =
        .again ⟨0, 16, 1, [0]⟩ := by decide
    exact hno _ _ (.refl _) hround (by decide)

/-- **An infinite loop.**  A length of `2 ^ 31` is negative as an `int`, so the header passes
    the check, and aligns to zero, so the loop delivers the same message for ever. -/
theorem extract_hostile_header_stalls : ¬ Progresses hostileHeader ⟨0, fun _ => true⟩ 16 := by
  rintro ⟨_, fuel, r, hfuel⟩
  have hr := extractNetlinkMessage_returns.mp ⟨fuel, hfuel⟩
  refine Loop.not_returns_of_invariant (I := fun s => s.nlh = 0 ∧ s.len = 16) ?_ ⟨rfl, rfl⟩ r hr
  -- Every round from this state delivers the message again and comes back to it.
  rintro ⟨nlh, len, ret, d⟩ ⟨rfl, rfl⟩
  refine ⟨⟨0, 16, 1, d ++ [0]⟩, ?_, rfl, rfl⟩
  have hok : sancusNlMsgOk hostileHeader 0 16 = true := by decide
  have hport : sancusNlMsgPortidOk hostileHeader 0 (intToUnsigned 32 0) = true := by decide
  have htype : NLMSG_MIN_TYPE ≤ nlmsgType hostileHeader 0 := by decide
  have hnext : sancusNlMsgNext hostileHeader 0 16 = (0, 16) := by decide
  simp only [extractRound, hok, hport, htype, if_true, ExtractState.next, hnext]

end Sancus.Netlink
