import Mathlib.Data.List.Sort
import Sancus.Netlink.Receive

namespace Sancus.Netlink

open CModel

/-!
# Netlink — delivery of a multi-message datagram

What `extract_netlink_message` should deliver from a datagram of well-formed messages,
and what it does deliver.

* `NlMessage` — a message as the kernel lays it out, padded to four bytes;
* `deliverable` — where the messages that are to be delivered start;
* `Stride` — the headers the message pointer of the loop really passes: each step of
  `sancus_nl_msg_next` is sixteen times the aligned length;
* `returns_of_stride` / `stride_of_returns` — the loop delivers the headers of that walk
  whose type is not a control type, up to the first refused one;
* `strayStart` — where the pointer stands after the first message; it stays on offsets
  that are this far on and a multiple of 64 (`Stride.offsets`);
* `extract_delivers_single` — hence a datagram of one message is delivered as it should
  be, what starts before that place or off those multiples is lost, and where the whole
  datagram ends before it, only the number of messages counts.
-/

/-! ### Well-formed messages -/

/-- The number of padding bytes after a message of `n` bytes. -/
def padLen (n : Nat) : Nat := (4 - n % 4) % 4

/-- A message whose `nlmsg_len` is its real length, and the padding that follows it. -/
structure NlMessage where
  body : List UInt8
  padding : List UInt8
  header_fits : sizeofNlmsghdr ≤ body.length
  len_field : leNat (body.take 4) = body.length
  padded : padding.length = padLen body.length

namespace NlMessage

/-- The bytes of a message in a datagram. -/
def wire (w : NlMessage) : List UInt8 := w.body ++ w.padding

/-- `nlmsg_type`. -/
def type (w : NlMessage) : Nat := leNat ((w.body.drop 4).take 2)

/-- `nlmsg_pid`. -/
def pid (w : NlMessage) : Nat := leNat ((w.body.drop 12).take 4)

theorem wire_length (w : NlMessage) : w.wire.length = (w.body.length + 3) / 4 * 4 := by
  rw [wire, List.length_append, w.padded, padLen]
  omega

theorem wire_length_ge (w : NlMessage) : 16 ≤ w.wire.length := by
  have h := w.header_fits
  rw [sizeofNlmsghdr] at h
  rw [wire_length]
  omega

end NlMessage

/-- The bytes of a datagram: its messages one after the other. -/
def datagram (ws : List NlMessage) : List UInt8 := ws.flatMap NlMessage.wire

/-- The bytes of a datagram sit in memory at `off`. -/
def Holds (m : Mem) (off : Nat) (ws : List NlMessage) : Prop :=
  m.load off (datagram ws).length = datagram ws

/-- Where the messages that are to be delivered start, the first message being at `off`. -/
def deliverable (off : Nat) : List NlMessage → List Nat
  | [] => []
  | w :: ws =>
    if NLMSG_MIN_TYPE ≤ w.type then off :: deliverable (off + w.wire.length) ws
    else deliverable (off + w.wire.length) ws

variable {m : Mem} {off : Nat} {w : NlMessage} {ws : List NlMessage}

@[simp] theorem datagram_cons_length (w : NlMessage) (ws : List NlMessage) :
    (datagram (w :: ws)).length = w.wire.length + (datagram ws).length := by
  simp [datagram]

theorem Holds.cons (h : Holds m off (w :: ws)) :
    m.load off w.wire.length = w.wire ∧ Holds m (off + w.wire.length) ws := by
  rw [Holds, datagram_cons_length, Mem.load_add] at h
  exact List.append_inj h (by simp)

theorem Holds.body (h : Holds m off (w :: ws)) : m.load off w.body.length = w.body := by
  have hw : w.wire.length = w.body.length + w.padding.length := List.length_append
  have htake := congrArg (List.take w.body.length) h.cons.1
  rw [hw, Mem.load_add, List.take_left' (Mem.load_length m off w.body.length)] at htake
  rw [htake, NlMessage.wire, List.take_left' rfl]

/-- A `k`-byte field at offset `i` of a message of the datagram reads as those bytes of the
    message. -/
theorem Holds.field {i k : Nat} (h : Holds m off (w :: ws)) (hik : i + k ≤ w.body.length) :
    m.loadLe (off + i) k = leNat ((w.body.drop i).take k) := by
  rw [Mem.loadLe, ← m.load_drop_take off hik, h.body]

theorem Holds.nlmsgLen (h : Holds m off (w :: ws)) : nlmsgLen m off = w.body.length := by
  have h4 : 0 + 4 ≤ w.body.length := le_trans (by decide) w.header_fits
  have hf := h.field h4
  rw [List.drop_zero, w.len_field] at hf
  exact hf

theorem Holds.nlmsgType (h : Holds m off (w :: ws)) : nlmsgType m off = w.type :=
  h.field (le_trans (by decide) w.header_fits)

theorem Holds.nlmsgPid (h : Holds m off (w :: ws)) : nlmsgPid m off = w.pid :=
  h.field (le_trans (by decide) w.header_fits)

/-- The aligned length of a message that fits the buffer is the room it takes on the wire. -/
theorem Holds.align (h : Holds m off (w :: ws)) (hbuf : (datagram (w :: ws)).length ≤ 8192) :
    sancusNlAlign (Netlink.nlmsgLen m off) = w.wire.length := by
  have hlen := w.wire_length
  rw [datagram_cons_length] at hbuf
  rw [h.nlmsgLen, sancusNlAlign_of_le (by omega), hlen]

/-- Every message of a datagram passes the check of the bytes remaining. -/
theorem Holds.ok (h : Holds m off (w :: ws)) (hbuf : (datagram (w :: ws)).length ≤ 8192) :
    sancusNlMsgOk m off (datagram (w :: ws)).length = true := by
  have hlen := w.wire_length
  have h16 : 16 ≤ w.body.length := w.header_fits
  rw [datagram_cons_length] at hbuf
  rw [sancusNlMsgOk_iff, h.nlmsgLen, toInt32_of_lt (by omega), datagram_cons_length]
  omega

/-! ### Where deliverable messages start -/

theorem le_of_mem_deliverable {p : Nat} (h : p ∈ deliverable off ws) : off ≤ p := by
  induction ws generalizing off with
  | nil => simp [deliverable] at h
  | cons w ws ih =>
    rw [deliverable] at h
    split at h
    · rcases List.mem_cons.mp h with rfl | h
      · exact le_rfl
      · exact le_trans (Nat.le_add_right _ _) (ih h)
    · exact le_trans (Nat.le_add_right _ _) (ih h)

/-- A deliverable message lies inside the datagram. -/
theorem lt_of_mem_deliverable {p : Nat} (h : p ∈ deliverable off ws) :
    p < off + (datagram ws).length := by
  induction ws generalizing off with
  | nil => simp [deliverable] at h
  | cons w ws ih =>
    have h16 := w.wire_length_ge
    have htail : p ∈ deliverable (off + w.wire.length) ws →
        p < off + (datagram (w :: ws)).length := by
      intro hp
      have hlt := ih hp
      rw [datagram_cons_length]
      omega
    rw [deliverable] at h
    split at h
    · rcases List.mem_cons.mp h with rfl | h
      · rw [datagram_cons_length]
        omega
      · exact htail h
    · exact htail h

theorem deliverable_pairwise (off : Nat) (ws : List NlMessage) :
    (deliverable off ws).Pairwise (· < ·) := by
  induction ws generalizing off with
  | nil => exact List.Pairwise.nil
  | cons w ws ih =>
    rw [deliverable]
    split
    · apply List.Pairwise.cons
      · -- The messages behind the first one start at least a header further on.
        intro p hp
        have hle := le_of_mem_deliverable hp
        have h16 := w.wire_length_ge
        omega
      · exact ih _
    · exact ih _

/-- **A pointer to exactly the message's bytes.**  Where a deliverable message starts, memory
    holds that message. -/
theorem deliverable_body {p : Nat} (h : Holds m off ws) (hp : p ∈ deliverable off ws) :
    ∃ w ∈ ws, NLMSG_MIN_TYPE ≤ w.type ∧ m.load p w.body.length = w.body := by
  induction ws generalizing off with
  | nil => simp [deliverable] at hp
  | cons w ws ih =>
    have htail : p ∈ deliverable (off + w.wire.length) ws →
        ∃ w' ∈ w :: ws, NLMSG_MIN_TYPE ≤ w'.type ∧ m.load p w'.body.length = w'.body := by
      intro hp
      obtain ⟨w', hw', hrest⟩ := ih h.cons.2 hp
      exact ⟨w', List.mem_cons_of_mem w hw', hrest⟩
    rw [deliverable] at hp
    split at hp
    · next htype =>
      rcases List.mem_cons.mp hp with rfl | hp
      · exact ⟨w, List.mem_cons_self .., htype, h.body⟩
      · exact htail hp
    · exact htail hp

/-! ### The walk of the message pointer -/

/-- The header at `nlh` passes both checks of the loop. -/
def Passes (m : Mem) (portid : Nat) (nlh : Nat) (len : Int) : Prop :=
  sancusNlMsgOk m nlh len = true ∧ sancusNlMsgPortidOk m nlh portid = true

/-- The headers `nlh`, `sancus_nl_msg_next(nlh)`, ... that the loop passes with `len` bytes
    remaining, when they are finitely many. -/
inductive Stride (m : Mem) (portid : Nat) : Nat → Int → List Nat → Prop
  | stop {nlh : Nat} {len : Int} (h : ¬ Passes m portid nlh len) : Stride m portid nlh len []
  | pass {nlh : Nat} {len : Int} {ps : List Nat} (h : Passes m portid nlh len)
      (ht : Stride m portid (sancusNlMsgNext m nlh len).1 (sancusNlMsgNext m nlh len).2 ps) :
      Stride m portid nlh len (nlh :: ps)

/-- The header at `nlh` is one that is delivered. -/
def isDeliverable (m : Mem) (nlh : Nat) : Bool := decide (NLMSG_MIN_TYPE ≤ nlmsgType m nlh)

/-- The pointers an `on_message` is called with when `ps` are offered after `d`: up to and
    including the first one it refuses. -/
def upToRefusal (onMessage : List Nat → Bool) (d : List Nat) : List Nat → List Nat
  | [] => d
  | p :: ps => if onMessage (d ++ [p]) then upToRefusal onMessage (d ++ [p]) ps else d ++ [p]

theorem upToRefusal_true (d ps : List Nat) : upToRefusal (fun _ => true) d ps = d ++ ps := by
  induction ps generalizing d with
  | nil => simp [upToRefusal]
  | cons p ps ih => simp [upToRefusal, ih]

/-- Nothing is delivered that is not offered. -/
theorem mem_upToRefusal {onMessage : List Nat → Bool} {p : Nat} {d ps : List Nat}
    (h : p ∈ upToRefusal onMessage d ps) : p ∈ d ∨ p ∈ ps := by
  induction ps generalizing d with
  | nil => exact .inl h
  | cons q ps ih =>
    have hsnoc : p ∈ d ++ [q] → p ∈ d ∨ p ∈ q :: ps := by
      intro hp
      rw [List.mem_append, List.mem_singleton] at hp
      rcases hp with hp | rfl
      · exact .inl hp
      · exact .inr List.mem_cons_self
    rw [upToRefusal] at h
    split at h
    · rcases ih h with h | h
      · exact hsnoc h
      · exact .inr (List.mem_cons_of_mem _ h)
    · exact hsnoc h

variable {portid : Nat} {nlh : Nat} {len : Int} {ps qs : List Nat}

theorem Stride.unique (h : Stride m portid nlh len ps) (h' : Stride m portid nlh len qs) :
    ps = qs := by
  induction h generalizing qs with
  | stop h =>
    cases h' with
    | stop _ => rfl
    | pass h₂ _ => exact absurd h₂ h
  | pass h _ ih =>
    cases h' with
    | stop h₂ => exact absurd h h₂
    | pass _ ht₂ => rw [ih ht₂]

/-- The pointer of a walk that ends moves strictly forward. -/
theorem Stride.pairwise (h : Stride m portid nlh len ps) :
    ps.Pairwise (· < ·) ∧ ∀ p ∈ ps, nlh ≤ p := by
  induction h with
  | stop _ => simp
  | @pass nlh len ps h ht ih =>
    obtain ⟨hpw, hge⟩ := ih
    -- an aligned length of zero would make the walk from `nlh` its own tail
    have hpos : 0 < sancusNlAlign (nlmsgLen m nlh) := by
      by_contra h0
      have hz : sancusNlAlign (nlmsgLen m nlh) = 0 := by omega
      have hsame : sancusNlMsgNext m nlh len = (nlh, len) := by simp [sancusNlMsgNext, hz]
      rw [hsame] at ht
      have hself : Stride m portid nlh len (nlh :: ps) := .pass h (by rw [hsame]; exact ht)
      have hlen := congrArg List.length (ht.unique hself)
      simp at hlen
    have hlt : ∀ p ∈ ps, nlh < p := by
      intro p hp
      have hnext := hge p hp
      simp only [sancusNlMsgNext, sizeofNlmsghdr] at hnext
      omega
    refine ⟨hpw.cons hlt, ?_⟩
    intro p hp
    rcases List.mem_cons.mp hp with rfl | hp
    · exact le_rfl
    · exact le_of_lt (hlt p hp)

/-- The pointer only comes to offsets that differ from the first by a multiple of 64: the
    aligned length is a multiple of four and counts headers of sixteen bytes. -/
theorem Stride.offsets (h : Stride m portid nlh len ps) : ∀ p ∈ ps, p % 64 = nlh % 64 := by
  induction h with
  | stop _ => simp
  | @pass nlh len ps h ht ih =>
    intro p hp
    rcases List.mem_cons.mp hp with rfl | hp
    · rfl
    · have halign := sancusNlAlign_mod (nlmsgLen m nlh)
      have hnext := ih p hp
      simp only [sancusNlMsgNext, sizeofNlmsghdr] at hnext
      omega

/-! ### The loop follows the walk -/

/-- **The loop delivers its walk.**  When the walk ends the loop returns, having called
    `on_message` with the deliverable headers of the walk up to the first refused one. -/
theorem returns_of_stride (self : Receiver) (s : ExtractState)
    (h : Stride m (intToUnsigned 32 self.portid) s.nlh s.len ps) :
    ∃ r, Loop.Returns (extractRound m self) s r ∧
      r.delivered = upToRefusal self.onMessage s.delivered (ps.filter (isDeliverable m)) := by
  obtain ⟨nlh, len, ret, d⟩ := s
  dsimp only at h ⊢
  -- Induction on the walk; what is returned and delivered so far changes with every round.
  induction h generalizing ret d with
  | @stop nlh len h =>
    -- The walk stops at one of the two checks, and so does the loop.
    by_cases hok : sancusNlMsgOk m nlh len = true
    · have hport : ¬ sancusNlMsgPortidOk m nlh (intToUnsigned 32 self.portid) = true :=
        fun hp => h ⟨hok, hp⟩
      exact ⟨_, .leave (by simp only [extractRound, hok, hport]; rfl), rfl⟩
    · exact ⟨_, .leave (by simp only [extractRound, hok]; rfl), rfl⟩
  | @pass nlh len ps h ht ih =>
    obtain ⟨hok, hport⟩ := h
    by_cases htype : NLMSG_MIN_TYPE ≤ nlmsgType m nlh
    · -- A deliverable header: the callback decides whether the loop goes on.
      have hf : (nlh :: ps).filter (isDeliverable m) = nlh :: ps.filter (isDeliverable m) := by
        simp [isDeliverable, htype]
      rw [hf, upToRefusal]
      by_cases hcb : self.onMessage (d ++ [nlh]) = true
      · obtain ⟨r, hr, hd⟩ := ih 1 (d ++ [nlh])
        refine ⟨r, .again ?_ hr, by rw [hd, if_pos hcb]⟩
        simp only [extractRound, hok, hport, htype, hcb, if_true, ExtractState.next]
      · refine ⟨_, .leave (r := ⟨0, none, d ++ [nlh]⟩) ?_, by rw [if_neg hcb]⟩
        simp only [extractRound, hok, hport, htype, hcb, if_true]
        rfl
    · -- A control message is passed over, and is no part of what is deliverable.
      have hf : (nlh :: ps).filter (isDeliverable m) = ps.filter (isDeliverable m) := by
        simp [isDeliverable, htype]
      rw [hf]
      obtain ⟨r, hr, hd⟩ := ih ret d
      refine ⟨r, .again ?_ hr, hd⟩
      simp only [extractRound, hok, hport, htype, if_true, if_false, ExtractState.next]

/-- If the loop ends with a callback that accepts everything, its walk ends. -/
theorem stride_of_returns {z : Int} {s : ExtractState} {r : ExtractResult}
    (h : Loop.Returns (extractRound m ⟨z, fun _ => true⟩) s r) :
    ∃ ps, Stride m (intToUnsigned 32 z) s.nlh s.len ps := by
  induction h with
  | @leave s r h =>
    -- With such a callback the loop only leaves at a header that fails a check.
    refine ⟨[], .stop ?_⟩
    intro hp
    rw [extractRound, if_pos hp.1, if_pos hp.2] at h
    split at h <;> simp at h
  | @again s s' r h _ ih =>
    obtain ⟨ps, hps⟩ := ih
    obtain ⟨hok, hport, ⟨_, _, rfl⟩ | ⟨_, rfl⟩⟩ := extractRound_again h
    · exact ⟨s.nlh :: ps, .pass ⟨hok, hport⟩ hps⟩
    · exact ⟨s.nlh :: ps, .pass ⟨hok, hport⟩ hps⟩

/-! ### Delivery of a whole datagram -/

/-- `on_message` is called with each deliverable message of the datagram, in order, up to
    the first one it refuses, and with a pointer to the bytes of that message — whatever
    callback it is. -/
def DeliversInOrder (m : Mem) (portid : Int) (ws : List NlMessage) : Prop :=
  ∀ onMessage : List Nat → Bool, ∃ fuel r,
    extractNetlinkMessage fuel m ⟨portid, onMessage⟩ (datagram ws).length = some r ∧
      r.delivered = upToRefusal onMessage [] (deliverable 0 ws) ∧
        ∀ p ∈ r.delivered, ∃ w ∈ ws, NLMSG_MIN_TYPE ≤ w.type ∧ m.load p w.body.length = w.body

/-- The port ids of all messages are accepted. -/
def PortidsOk (portid : Int) (ws : List NlMessage) : Prop :=
  ∀ w ∈ ws, w.pid ≠ 0 → intToUnsigned 32 portid ≠ 0 → w.pid = intToUnsigned 32 portid

/-- What follows the first message: the walk that sets out sixteen times its length further
    on passes exactly the deliverable ones among the messages that follow it. -/
def StrayWalkAgrees (m : Mem) (portid : Nat) : List NlMessage → Prop
  | [] => True
  | w :: ws => ∃ ps,
      Stride m portid (sizeofNlmsghdr * w.wire.length) (datagram ws).length ps ∧
        ∀ p, p ∈ ps ∧ NLMSG_MIN_TYPE ≤ nlmsgType m p ↔ p ∈ deliverable w.wire.length ws

/-- Delivery in order is a property of the walk alone. -/
theorem delivers_iff_stride {z : Int} (hbuf : (datagram ws).length ≤ 8192) (hm : Holds m 0 ws) :
    DeliversInOrder m z ws ↔ ∃ ps,
      Stride m (intToUnsigned 32 z) 0 (datagram ws).length ps ∧
        ps.filter (isDeliverable m) = deliverable 0 ws := by
  have hlen : (extractStart (datagram ws).length).len = (datagram ws).length :=
    toInt32_of_lt (by omega)
  constructor
  · intro h
    obtain ⟨fuel, r, hfuel, hd, _⟩ := h fun _ => true
    have hr := extractNetlinkMessage_returns.mp ⟨fuel, hfuel⟩
    obtain ⟨ps, hps⟩ := stride_of_returns hr
    obtain ⟨r', hr', hd'⟩ := returns_of_stride ⟨z, fun _ => true⟩ _ hps
    rw [hr.unique hr', hd', upToRefusal_true, upToRefusal_true] at hd
    rw [hlen] at hps
    exact ⟨ps, hps, hd⟩
  · rintro ⟨ps, hps, hd⟩ onMessage
    rw [← hlen] at hps
    obtain ⟨r, hr, hr'⟩ := returns_of_stride ⟨z, onMessage⟩ (extractStart (datagram ws).length) hps
    have hdelivered : r.delivered = upToRefusal onMessage [] (deliverable 0 ws) :=
      hr'.trans (by rw [hd]; rfl)
    obtain ⟨fuel, hfuel⟩ := extractNetlinkMessage_returns.mpr hr
    refine ⟨fuel, r, hfuel, hdelivered, ?_⟩
    intro p hp
    rw [hdelivered] at hp
    rcases mem_upToRefusal hp with hp | hp
    · exact absurd hp List.not_mem_nil
    · exact deliverable_body hm hp

/-- The walk over a datagram passes its first message and then strays. -/
theorem delivers_cons_iff {z : Int} (hbuf : (datagram (w :: ws)).length ≤ 8192)
    (hm : Holds m 0 (w :: ws)) (hport : PortidsOk z (w :: ws)) :
    DeliversInOrder m z (w :: ws) ↔ StrayWalkAgrees m (intToUnsigned 32 z) (w :: ws) := by
  have hpass : Passes m (intToUnsigned 32 z) 0 (datagram (w :: ws)).length := by
    refine ⟨hm.ok hbuf, ?_⟩
    rw [sancusNlMsgPortidOk, hm.nlmsgPid]
    split
    · next h => exact beq_iff_eq.mpr (hport w (List.mem_cons_self ..) h.1 h.2)
    · rfl
  have hnext : sancusNlMsgNext m 0 (datagram (w :: ws)).length
      = (sizeofNlmsghdr * w.wire.length, ((datagram ws).length : Int)) := by
    rw [sancusNlMsgNext, hm.align hbuf, datagram_cons_length, Nat.zero_add]
    congr 1
    omega
  have htype : isDeliverable m 0 = decide (NLMSG_MIN_TYPE ≤ w.type) := by
    rw [isDeliverable, hm.nlmsgType]
  -- the first header is delivered on both sides, so it is the tails that are compared
  have htail : ∀ ps, (0 :: ps).filter (isDeliverable m) = deliverable 0 (w :: ws) ↔
      ps.filter (isDeliverable m) = deliverable w.wire.length ws := by
    intro ps
    rw [List.filter_cons, htype, deliverable, Nat.zero_add]
    by_cases h : NLMSG_MIN_TYPE ≤ w.type <;> simp [h]
  rw [delivers_iff_stride hbuf hm, StrayWalkAgrees]
  constructor
  · rintro ⟨_, hps, hd⟩
    cases hps with
    | stop h => exact absurd hpass h
    | @pass _ _ ps _ ht =>
      rw [hnext] at ht
      refine ⟨ps, ht, ?_⟩
      intro p
      rw [← (htail ps).mp hd, List.mem_filter, isDeliverable, decide_eq_true_eq]
  · rintro ⟨ps, hps, hmem⟩
    refine ⟨0 :: ps, .pass hpass (by rw [hnext]; exact hps), (htail ps).mpr ?_⟩
    -- Both lists are increasing, so having the same members makes them equal.
    apply (hps.pairwise.1.filter _).eq_of_mem_iff (deliverable_pairwise _ _)
    intro p
    rw [← hmem p, List.mem_filter, isDeliverable, decide_eq_true_eq]

/-! ### What is delivered -/

/-- Where the message pointer stands after the first message of a datagram. -/
def strayStart : List NlMessage → Nat
  | [] => 0
  | w :: _ => sizeofNlmsghdr * w.wire.length

/-- A datagram of at most one message is delivered as it should be: nothing remains when the
    pointer has strayed. -/
theorem delivers_single {z : Int} (hone : ws.length ≤ 1) (hbuf : (datagram ws).length ≤ 8192)
    (hm : Holds m 0 ws) (hport : PortidsOk z ws) : DeliversInOrder m z ws := by
  have hstop : ∀ nlh, Stride m (intToUnsigned 32 z) nlh (datagram []).length [] :=
    fun nlh => .stop fun h => by simp [Passes, sancusNlMsgOk_iff, datagram] at h
  cases ws with
  | nil => exact (delivers_iff_stride hbuf hm).mpr ⟨[], hstop 0, rfl⟩
  | cons w ws =>
    obtain rfl : ws = [] := List.length_eq_zero_iff.mp (by simpa using hone)
    refine (delivers_cons_iff hbuf hm hport).mpr ⟨[], hstop _, ?_⟩
    intro p
    simp [deliverable]

/-- **A message the walk oversteps is lost.**  Behind the first message, what starts before
    `strayStart`, or at an offset that is no multiple of 64, is never delivered. -/
theorem message_lost {z : Int} {p : Nat} (hbuf : (datagram ws).length ≤ 8192)
    (hm : Holds m 0 ws) (hport : PortidsOk z ws) (hp : p ∈ deliverable 0 ws) (h0 : 0 < p)
    (hstray : p < strayStart ws ∨ p % 64 ≠ 0) : ¬ DeliversInOrder m z ws := by
  cases ws with
  | nil => simp [deliverable] at hp
  | cons w ws =>
    have hbehind : p ∈ deliverable w.wire.length ws := by
      rw [deliverable, Nat.zero_add] at hp
      split at hp
      · exact (List.mem_cons.mp hp).resolve_left (by omega)
      · exact hp
    rw [delivers_cons_iff hbuf hm hport]
    rintro ⟨ps, hps, hmem⟩
    -- Were it delivered, the walk would pass it, and so would have to come to its offset.
    have hpass := ((hmem p).mpr hbehind).1
    have hge := hps.pairwise.2 p hpass
    have hoff := hps.offsets p hpass
    have halign := w.wire_length
    rw [strayStart] at hstray
    rw [sizeofNlmsghdr] at hge hoff hstray
    omega

/-- The second message starts before the stray pointer: with a deliverable one, only a datagram
    of a single message is delivered. -/
theorem delivers_iff_single {z : Int} (hsecond : ∀ w, ws[1]? = some w → NLMSG_MIN_TYPE ≤ w.type)
    (hbuf : (datagram ws).length ≤ 8192) (hm : Holds m 0 ws) (hport : PortidsOk z ws) :
    DeliversInOrder m z ws ↔ ws.length ≤ 1 := by
  refine ⟨?_, fun hone => delivers_single hone hbuf hm hport⟩
  intro hd
  match ws with
  | [] => simp
  | [_] => simp
  | w :: w' :: ws =>
    have h16 := w.wire_length_ge
    have hp : w.wire.length ∈ deliverable 0 (w :: w' :: ws) := by
      have htype := hsecond w' rfl
      rw [deliverable, deliverable, Nat.zero_add, if_pos htype]
      split <;> simp
    have hlt : w.wire.length < strayStart (w :: w' :: ws) := by
      rw [strayStart, sizeofNlmsghdr]
      omega
    exact absurd hd (message_lost hbuf hm hport hp (by omega) (.inl hlt))

/-- A message of type `NLMSG_MIN_TYPE` that is a header only. -/
def headerOnly : NlMessage where
  body := leBytes 4 16 ++ leBytes 2 NLMSG_MIN_TYPE ++ List.replicate 10 0
  padding := []
  header_fits := by decide
  len_field := by decide
  padded := by decide

/-- **What lies behind the datagram is delivered.**  Where the pointer strays past the whole
    datagram, a header that happens to lie there is handed to `on_message`. -/
theorem stray_header_delivered {z : Int} {w' : NlMessage}
    (hbuf : (datagram (w :: w' :: ws)).length ≤ 8192) (hm : Holds m 0 (w :: w' :: ws))
    (hstray : Holds m (strayStart (w :: w' :: ws)) [headerOnly])
    (hend : (datagram (w :: w' :: ws)).length ≤ strayStart (w :: w' :: ws))
    (hport : PortidsOk z (w :: w' :: ws)) : ¬ DeliversInOrder m z (w :: w' :: ws) := by
  rw [delivers_cons_iff hbuf hm hport]
  rintro ⟨ps, hps, hmem⟩
  have h16 := w'.wire_length_ge
  have hpid : nlmsgPid m (strayStart (w :: w' :: ws)) = 0 := hstray.nlmsgPid.trans (by decide)
  have hbody : nlmsgLen m (strayStart (w :: w' :: ws)) = 16 := hstray.nlmsgLen.trans (by decide)
  have htype : nlmsgType m (strayStart (w :: w' :: ws)) = NLMSG_MIN_TYPE :=
    hstray.nlmsgType.trans (by decide)
  have hpass : Passes m (intToUnsigned 32 z) (strayStart (w :: w' :: ws))
      (datagram (w' :: ws)).length := by
    refine ⟨?_, by simp [sancusNlMsgPortidOk, hpid]⟩
    rw [sancusNlMsgOk_iff, hbody, toInt32_of_lt (by decide), datagram_cons_length]
    omega
  cases hps with
  | stop h => exact absurd hpass h
  | pass _ _ =>
    have hin := lt_of_mem_deliverable ((hmem _).mp ⟨List.mem_cons_self, htype.ge⟩)
    rw [datagram_cons_length] at hend
    rw [strayStart] at hend
    omega

/-- `NLMSG_NOOP`, a control message that is a header only. -/
def noop : NlMessage where
  body := leBytes 4 16 ++ leBytes 2 1 ++ List.replicate 10 0
  padding := []
  header_fits := by decide
  len_field := by decide
  padded := by decide

/-- A message of type `NLMSG_MIN_TYPE` with a payload of 260 zero bytes. -/
def zeroPayload : NlMessage where
  body := leBytes 4 276 ++ leBytes 2 NLMSG_MIN_TYPE ++ List.replicate 270 0
  padding := []
  header_fits := by decide +kernel
  len_field := by decide +kernel
  padded := by decide +kernel

end Sancus.Netlink
