import Sancus.CModel.Memory
import Sancus.CModel.Integer

namespace Sancus.Netlink

open CModel

/-!
# Netlink — message headers and alignment

A message is read from the memory of a buffer, a pointer to it being the byte offset
from the start of that buffer.  The accessors follow `struct nlmsghdr` of
`<linux/netlink.h>`: a 32-bit length, a 16-bit type, 16-bit flags, a 32-bit sequence
number and the 32-bit port id of the sender.

* `sancusNlAlign` — the alignment macro, whose mask keeps 16 bits only;
* `sancusNlMsgOk` / `sancusNlMsgNext` / `sancusNlMsgPortidOk` — the three functions
  that walk a multipart message;
* `sancusNlMsgPutHeader` / `sancusNlMsgPutExtraHeader` — the start of a new message.
-/

/-! ### `struct nlmsghdr` -/

/-- `sizeof(struct nlmsghdr)`. -/
def sizeofNlmsghdr : Nat := 16

/-- The first message type that is not a control message. -/
def NLMSG_MIN_TYPE : Nat := 0x10

def nlmsgLen (m : Mem) (nlh : Nat) : Nat := m.loadLe nlh 4
def nlmsgType (m : Mem) (nlh : Nat) : Nat := m.loadLe (nlh + 4) 2
def nlmsgPid (m : Mem) (nlh : Nat) : Nat := m.loadLe (nlh + 12) 4

/-! ### Alignment -/

def SANCUS_NL_ALIGNTO : Nat := 4

/-- `SANCUS_NL_ALIGN(len)`: the cast to `unsigned` keeps 32 bits and the mask, written
    for 16-bit lengths, keeps the low 16. -/
def sancusNlAlign (len : Nat) : Nat :=
  toUnsigned 32 (len + (SANCUS_NL_ALIGNTO - 1)) &&& (0xffff - SANCUS_NL_ALIGNTO + 1)

/-- `SANCUS_NL_MSG_HDRLEN`. -/
def SANCUS_NL_MSG_HDRLEN : Nat := sancusNlAlign sizeofNlmsghdr

/-- Masking with `0xfffc` keeps the multiple of four in the low 16 bits. -/
private theorem and_fffc (x : Nat) : x &&& 0xfffc = x % 65536 / 4 * 4 := by
  have hmask : (0xfffc : Nat) = (2 ^ 14 - 1) * 2 ^ 2 := by decide
  have hrhs : x % 65536 / 4 * 4 = x % 2 ^ 16 / 2 ^ 2 * 2 ^ 2 := rfl
  rw [hmask, hrhs]
  apply Nat.eq_of_testBit_eq
  intro i
  rw [Nat.testBit_and, Nat.testBit_mul_two_pow, Nat.testBit_mul_two_pow,
    Nat.testBit_two_pow_sub_one, Nat.testBit_div_two_pow, Nat.testBit_mod_two_pow]
  by_cases h₂ : 2 ≤ i
  · have hi : i - 2 + 2 = i := by omega
    by_cases h₁₆ : i < 16
    · simp [h₂, hi, h₁₆, show i - 2 < 14 by omega]
    · simp [h₂, hi, h₁₆, show ¬ i - 2 < 14 by omega]
  · simp [h₂]

/-- **The macro in arithmetic.**  It rounds up to a multiple of four, modulo `2 ^ 16`. -/
theorem sancusNlAlign_eq (len : Nat) : sancusNlAlign len = (len + 3) % 65536 / 4 * 4 := by
  show toUnsigned 32 (len + 3) &&& 0xfffc = _
  rw [and_fffc, toUnsigned]
  omega

/-- Up to 65532 the macro rounds up to the next multiple of four. -/
theorem sancusNlAlign_of_le {len : Nat} (h : len ≤ 65532) :
    sancusNlAlign len = (len + 3) / 4 * 4 := by
  rw [sancusNlAlign_eq]; omega

theorem sancusNlAlign_lt (len : Nat) : sancusNlAlign len ≤ 65532 := by
  rw [sancusNlAlign_eq]; omega

theorem sancusNlAlign_mod (len : Nat) : sancusNlAlign len % 4 = 0 := by
  rw [sancusNlAlign_eq]; omega

/-- A multiple of four below `2 ^ 16` is already aligned. -/
theorem sancusNlAlign_self {len : Nat} (h : len < 65536) (h4 : len % 4 = 0) :
    sancusNlAlign len = len := by
  rw [sancusNlAlign_eq]; omega

@[simp] theorem SANCUS_NL_MSG_HDRLEN_eq : SANCUS_NL_MSG_HDRLEN = 16 := by decide

/-! ### Walking a multipart message -/

/-- `sancus_nl_msg_ok`: is there room for the message at `nlh` in the `len` remaining
    bytes?  The third comparison is between `int`s. -/
def sancusNlMsgOk (m : Mem) (nlh : Nat) (len : Int) : Bool :=
  decide ((sizeofNlmsghdr : Int) ≤ len) && decide (sizeofNlmsghdr ≤ nlmsgLen m nlh) &&
    decide (toInt32 (nlmsgLen m nlh) ≤ len)

/-- `sancus_nl_msg_next`: the header that follows `nlh` and the bytes then remaining.
    The length is added to a `struct nlmsghdr *`, so it counts headers, not bytes. -/
def sancusNlMsgNext (m : Mem) (nlh : Nat) (len : Int) : Nat × Int :=
  (nlh + sizeofNlmsghdr * sancusNlAlign (nlmsgLen m nlh), len - sancusNlAlign (nlmsgLen m nlh))

/-- `sancus_nl_msg_portid_ok`: a zero port id on either side accepts every message. -/
def sancusNlMsgPortidOk (m : Mem) (nlh : Nat) (portid : Nat) : Bool :=
  if nlmsgPid m nlh ≠ 0 ∧ portid ≠ 0 then nlmsgPid m nlh == portid else true

/-! ### Writing a message -/

/-- `sancus_nl_msg_get_payload_offset`. -/
def sancusNlMsgGetPayloadOffset (nlh offset : Nat) : Nat :=
  nlh + SANCUS_NL_MSG_HDRLEN + sancusNlAlign offset

/-- `sancus_nl_msg_get_payload_tail`. -/
def sancusNlMsgGetPayloadTail (m : Mem) (nlh : Nat) : Nat := nlh + sancusNlAlign (nlmsgLen m nlh)

/-- `sancus_nl_msg_put_header`. -/
def sancusNlMsgPutHeader (m : Mem) (buf : Nat) : Mem :=
  let len := sancusNlAlign sizeofNlmsghdr
  (m.memset buf 0 len).storeLe buf 4 len

/-- `sancus_nl_msg_put_extra_header`.  The length field is read again after the memory
    behind it has been cleared. -/
def sancusNlMsgPutExtraHeader (m : Mem) (nlh size : Nat) : Mem :=
  let len := sancusNlAlign size
  let m₁ := m.memset (nlh + nlmsgLen m nlh) 0 len
  m₁.storeLe nlh 4 (nlmsgLen m₁ nlh + len)

/-! ### The checks in arithmetic -/

theorem sancusNlMsgOk_iff {m : Mem} {nlh : Nat} {len : Int} :
    sancusNlMsgOk m nlh len = true ↔
      16 ≤ len ∧ 16 ≤ nlmsgLen m nlh ∧ toInt32 (nlmsgLen m nlh) ≤ len := by
  simp only [sancusNlMsgOk, Bool.and_eq_true, decide_eq_true_eq, and_assoc]
  rfl

/-- A message that passes the check is either one that fits, or one whose length field is
    from `2 ^ 31` on and compares as a negative `int`. -/
theorem sancusNlMsgOk_cases {m : Mem} {nlh : Nat} {len : Int}
    (h : sancusNlMsgOk m nlh len = true) :
    (16 ≤ nlmsgLen m nlh ∧ (nlmsgLen m nlh : Int) ≤ len) ∨ 2 ^ 31 ≤ nlmsgLen m nlh := by
  obtain ⟨_, h16, hle⟩ := sancusNlMsgOk_iff.mp h
  rcases Nat.lt_or_ge (nlmsgLen m nlh) (2 ^ 31) with hlt | hge
  · rw [toInt32_of_lt hlt] at hle
    exact .inl ⟨h16, hle⟩
  · exact .inr hge

/-- A new message is its header. -/
theorem nlmsgLen_putHeader (m : Mem) (buf : Nat) : nlmsgLen (sancusNlMsgPutHeader m buf) buf = 16 :=
  Mem.loadLe_storeLe _ buf 4 16

/-- An extra header lengthens a message that has the room for it. -/
theorem nlmsgLen_putExtraHeader (m : Mem) (nlh size : Nat) (h16 : 16 ≤ nlmsgLen m nlh)
    (hlt : nlmsgLen m nlh + sancusNlAlign size < 2 ^ 32) :
    nlmsgLen (sancusNlMsgPutExtraHeader m nlh size) nlh = nlmsgLen m nlh + sancusNlAlign size := by
  have hkeep : nlmsgLen (m.memset (nlh + nlmsgLen m nlh) 0 (sancusNlAlign size)) nlh =
      nlmsgLen m nlh := Mem.loadLe_store_of_disjoint _ (by omega)
  unfold sancusNlMsgPutExtraHeader
  show Mem.loadLe _ nlh 4 = _
  rw [Mem.loadLe_storeLe, hkeep]
  exact Nat.mod_eq_of_lt hlt

end Sancus.Netlink
