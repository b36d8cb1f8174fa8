import Sancus.Netlink.Attr

namespace Sancus.Netlink

open CModel

/-!
# Netlink — where an attribute is written

The check of `__sancus_nl_attr_put_check`, the copy, the 16-bit `nla_len` and the new
`nlmsg_len` are four computations over an alignment that keeps 16 bits.  They agree in
the range in which neither the message nor the attribute reaches `2 ^ 16` bytes.

* `AttrWrite` — a call of any of the writers, on any payload length it can be given;
* `Bounded` — the call is refused, or writes its attribute inside the buffer;
* `putNocheck_bounded`, `putNocheck_not_bounded_of_long`,
  `putNocheck_not_bounded_of_payload` — in the range, and out of it on either side;
* `attr_write_bounded_iff` — the writers are bounded exactly when the check refuses the
  call or the lengths are in the range.
-/

/-! ### Calls of all writers -/

/-- A call of `sancus_nl_attr_put` or of one of the typed writers. -/
inductive AttrWrite where
  | put (type len : UInt16) (data : DataParam)
  | typed (p : Put)

namespace AttrWrite

/-- Make the call; `none` when an assertion fails. -/
def run (m : Mem) (nlh buflen : Nat) : AttrWrite → Option (Bool × Mem)
  | put type len data => some (sancusNlAttrPut m nlh buflen type len data)
  | typed p           => p.run m nlh buflen

/-- The length of the payload. -/
def len : AttrWrite → Nat
  | put _ len _ => len.toNat
  | typed p     => p.payload.length

/-- Every writer is the common part, applied to the length of its payload. -/
theorem run_eq (w : AttrWrite) (m : Mem) (nlh buflen : Nat) (h : w.len ≤ 0xffff) :
    ∃ type len data, len.toNat = w.len ∧
      w.run m nlh buflen = some (sancusNlAttrPutCheck m nlh buflen type len data) := by
  cases w with
  | put type len data => exact ⟨type, len, _, rfl, rfl⟩
  | typed p =>
    obtain ⟨data, _, hrun⟩ := p.run_eq m nlh buflen h
    refine ⟨p.type, UInt16.ofNat p.payload.length, data, ?_, hrun⟩
    exact UInt16.toNat_ofNat_of_lt' (Nat.lt_succ_of_le h)

end AttrWrite

/-! ### The bound -/

/-- The offsets a put may store to: the length field of the message, and what the buffer has
    from the end of the message on. -/
def Allowed (m : Mem) (nlh buflen i : Nat) : Prop :=
  nlh ≤ i ∧ i < nlh + 4 ∨ nlh + nlmsgLen m nlh ≤ i ∧ i < nlh + buflen

/-- What a put that succeeds may do to a message of a buffer that starts with the bytes
    `byte`: store to allowed offsets only, and lengthen the message by the aligned size of
    the attribute, inside the buffer. -/
structure Extends (m m' : Mem) (nlh buflen payloadLen : Nat) : Prop where
  stores : ∀ i ∈ m'.stored, Allowed m nlh buflen i
  len_eq : nlmsgLen m' nlh = nlmsgLen m nlh + attrSize payloadLen
  len_le : nlmsgLen m' nlh ≤ buflen

/-- A call returns false and leaves the message alone, or returns true and extends it. -/
def Bounded (m : Mem) (nlh buflen : Nat) (w : AttrWrite) : Prop :=
  ∃ ok m', w.run m nlh buflen = some (ok, m') ∧
    (ok = false ∧ m' = m ∨ ok = true ∧ Extends m m' nlh buflen w.len)

variable {byte : Nat → UInt8} {nlh buflen : Nat} {type len : UInt16} {data : Nat → UInt8}

/-- The offsets a put on a fresh memory stores to. -/
theorem mem_putNocheck_stored {i : Nat} :
    i ∈ (sancusNlAttrPutNocheck (Mem.fresh byte) nlh type len data).stored ↔
      nlh ≤ i ∧ i < nlh + 4 ∨
        sancusNlMsgGetPayloadTail (Mem.fresh byte) nlh ≤ i ∧
          i < sancusNlMsgGetPayloadTail (Mem.fresh byte) nlh + 4 + len.toNat := by
  simp only [putNocheck_stored, List.mem_append, List.mem_range'_1, Mem.fresh_stored,
    List.not_mem_nil, or_false]
  omega

/-- **In the range.**  When the message ends below `2 ^ 16` and so does the attribute, the
    four computations agree. -/
theorem putNocheck_bounded (h16 : 16 ≤ nlmsgLen (Mem.fresh byte) nlh)
    (hmod : nlmsgLen (Mem.fresh byte) nlh % 4 = 0)
    (hmsg : nlmsgLen (Mem.fresh byte) nlh < 65536) (hlen : len.toNat ≤ 65528)
    (hfit : nlmsgLen (Mem.fresh byte) nlh + 4 + sancusNlAlign len.toNat ≤ buflen) :
    Extends (Mem.fresh byte) (sancusNlAttrPutNocheck (Mem.fresh byte) nlh type len data) nlh buflen
      len.toNat := by
  have htail : sancusNlMsgGetPayloadTail (Mem.fresh byte) nlh =
      nlh + nlmsgLen (Mem.fresh byte) nlh := by
    rw [sancusNlMsgGetPayloadTail, sancusNlAlign_self hmsg hmod]
  have hnew : nlmsgLen (sancusNlAttrPutNocheck (Mem.fresh byte) nlh type len data) nlh =
      nlmsgLen (Mem.fresh byte) nlh + attrSize len.toNat := by
    rw [putNocheck_nlmsgLen (by omega), sancusNlAlign_of_le (by omega), attrSize]
    omega
  rw [sancusNlAlign_of_le (by omega)] at hfit
  have hsize : attrSize len.toNat = 4 + (len.toNat + 3) / 4 * 4 := by
    rw [attrSize]
    omega
  refine ⟨?_, hnew, by omega⟩
  intro i hi
  rw [mem_putNocheck_stored, htail] at hi
  unfold Allowed
  omega

/-- **A message from `2 ^ 16` bytes on.**  Its aligned tail lies inside the message. -/
theorem putNocheck_not_bounded_of_long (hmsg : 65536 ≤ nlmsgLen (Mem.fresh byte) nlh)
    (hmod : nlmsgLen (Mem.fresh byte) nlh % 4 = 0) :
    ¬ Extends (Mem.fresh byte) (sancusNlAttrPutNocheck (Mem.fresh byte) nlh type len data) nlh
      buflen len.toNat := by
  intro h
  have htail := sancusNlAlign_eq (nlmsgLen (Mem.fresh byte) nlh)
  have hstores : ∀ i, sancusNlMsgGetPayloadTail (Mem.fresh byte) nlh ≤ i →
      i < sancusNlMsgGetPayloadTail (Mem.fresh byte) nlh + 4 + len.toNat →
      nlh ≤ i ∧ i < nlh + 4 ∨ nlh + nlmsgLen (Mem.fresh byte) nlh ≤ i ∧ i < nlh + buflen :=
    fun i h₁ h₂ => h.stores i (mem_putNocheck_stored.mpr (.inr ⟨h₁, h₂⟩))
  unfold sancusNlMsgGetPayloadTail at hstores
  -- The header of the attribute may only land on the length field, and no payload behind it.
  have hzero : sancusNlAlign (nlmsgLen (Mem.fresh byte) nlh) = 0 := by
    have := hstores (nlh + sancusNlAlign (nlmsgLen (Mem.fresh byte) nlh)) (by omega) (by omega)
    omega
  have hempty : len.toNat = 0 := by
    by_contra hpos
    have := hstores (nlh + 4) (by omega) (by omega)
    omega
  -- Written over the length field, an empty attribute reads back as a length of its own.
  have hgrown := h.len_eq
  rw [putNocheck_nlmsgLen_of_tail_eq (by rw [sancusNlMsgGetPayloadTail, hzero]; rfl) hempty, hempty,
    attrSize] at hgrown
  omega

/-- **A payload from 65529 bytes on.**  The attribute takes `2 ^ 16` bytes or more, and the
    length of the message grows by what is left of that in 16 bits. -/
theorem putNocheck_not_bounded_of_payload (h16 : 16 ≤ nlmsgLen (Mem.fresh byte) nlh)
    (hmod : nlmsgLen (Mem.fresh byte) nlh % 4 = 0)
    (hmsg : nlmsgLen (Mem.fresh byte) nlh < 65536) (hlen : 65528 < len.toNat) :
    ¬ Extends (Mem.fresh byte) (sancusNlAttrPutNocheck (Mem.fresh byte) nlh type len data) nlh
      buflen len.toNat := by
  intro h
  -- The message should grow by 65536 or more, which a multiple of four in 16 bits is not.
  have hlt := len.toNat_lt
  have hgrown := h.len_eq
  rw [putNocheck_nlmsgLen (by rw [sancusNlMsgGetPayloadTail, sancusNlAlign_self hmsg hmod]; omega),
    sancusNlAlign_eq, attrSize] at hgrown
  omega

/-- The check refuses a payload of `n` bytes. -/
def Refused (m : Mem) (nlh buflen n : Nat) : Prop := buflen < nlmsgLen m nlh + 4 + sancusNlAlign n

/-- Neither the message nor the attribute reaches `2 ^ 16` bytes. -/
def InRange (m : Mem) (nlh n : Nat) : Prop := nlmsgLen m nlh < 65536 ∧ n ≤ 65528

/-- What the check does when the length of the message is in the buffer. -/
theorem putCheck_eq {m : Mem} (type len : UInt16) (data : Nat → UInt8)
    (hle : nlmsgLen m nlh ≤ buflen) (hbuf : buflen < 2 ^ 31) :
    Refused m nlh buflen len.toNat ∧
        sancusNlAttrPutCheck m nlh buflen type len data = (false, m) ∨
      ¬ Refused m nlh buflen len.toNat ∧ sancusNlAttrPutCheck m nlh buflen type len data =
        (true, sancusNlAttrPutNocheck m nlh type len data) := by
  have halign := sancusNlAlign_lt len.toNat
  have hsum : toUnsigned 32 (nlmsgLen m nlh + SANCUS_NL_ATTR_HDRLEN + sancusNlAlign len.toNat) =
      nlmsgLen m nlh + 4 + sancusNlAlign len.toNat := by
    rw [SANCUS_NL_ATTR_HDRLEN_eq, toUnsigned_of_lt (by omega)]
  unfold Refused sancusNlAttrPutCheck
  rw [hsum]
  by_cases h : buflen < nlmsgLen m nlh + 4 + sancusNlAlign len.toNat
  · exact .inl ⟨h, if_pos h⟩
  · exact .inr ⟨h, if_neg h⟩

/-- **When the writers are bounded.**  For every message of at least a header, aligned and
    inside its buffer, every buffer below `2 ^ 31` bytes and every call with a payload the
    16-bit parameter can carry: the call is refused or extends the message inside the
    buffer if and only if the check refuses it or the lengths stay below `2 ^ 16`. -/
theorem attr_write_bounded_iff (byte : Nat → UInt8) (nlh buflen : Nat) (w : AttrWrite)
    (h16 : 16 ≤ nlmsgLen (Mem.fresh byte) nlh) (hmod : nlmsgLen (Mem.fresh byte) nlh % 4 = 0)
    (hle : nlmsgLen (Mem.fresh byte) nlh ≤ buflen) (hbuf : buflen < 2 ^ 31)
    (hlen : w.len ≤ 0xffff) :
    Bounded (Mem.fresh byte) nlh buflen w ↔
      Refused (Mem.fresh byte) nlh buflen w.len ∨ InRange (Mem.fresh byte) nlh w.len := by
  obtain ⟨type, len, data, hw, hrun⟩ := w.run_eq (Mem.fresh byte) nlh buflen hlen
  rw [Bounded, hrun, ← hw]
  rcases putCheck_eq type len data hle hbuf with ⟨hr, heq⟩ | ⟨hr, heq⟩
  · rw [heq]
    exact iff_of_true ⟨false, Mem.fresh byte, rfl, .inl ⟨rfl, rfl⟩⟩ (.inl hr)
  · rw [heq]
    constructor
    · rintro ⟨ok, m', hres, hout⟩
      obtain ⟨rfl, rfl⟩ := Prod.mk.inj (Option.some.inj hres)
      rcases hout with ⟨hfalse, _⟩ | ⟨_, hext⟩
      · exact absurd hfalse (by decide)
      · right
        by_contra hno
        -- Out of the range the message is too long, or else the payload is.
        rcases Nat.lt_or_ge (nlmsgLen (Mem.fresh byte) nlh) 65536 with hmsg | hmsg
        · refine putNocheck_not_bounded_of_payload h16 hmod hmsg ?_ hext
          exact Nat.lt_of_not_le fun h => hno ⟨hmsg, h⟩
        · exact putNocheck_not_bounded_of_long hmsg hmod hext
    · rintro (h | ⟨hmsg, hmax⟩)
      · exact absurd h hr
      · refine ⟨true, _, rfl, .inr ⟨rfl, putNocheck_bounded h16 hmod hmsg hmax ?_⟩⟩
        exact Nat.le_of_not_lt hr

/-- A message that is its header: 16 bytes, the length field holding 16. -/
def bareHeader : Nat → UInt8 := fun i => if i = 0 then 16 else 0

/-- The rule at an 8-byte integer. -/
theorem attr_write_bounded_iff_u64 :
    Bounded (Mem.fresh bareHeader) 0 64 (.typed (.u64 1 5)) ↔
      Refused (Mem.fresh bareHeader) 0 64 8 ∨ InRange (Mem.fresh bareHeader) 0 8 :=
  attr_write_bounded_iff bareHeader 0 64 (.typed (.u64 1 5)) (by decide) (by decide) (by decide)
    (by decide) (by decide)

/-- A null pointer passed as `data`. -/
def nullData : DataParam := ⟨fun _ => 0, 0, 0, by decide⟩

/-- **A write past the buffer.**  The length 65533 aligns to zero, so a put of that many bytes
    passes the check for a buffer of 1000, and stores to the offset 1000 and beyond. -/
theorem attr_put_overruns_buffer :
    16 ≤ nlmsgLen (Mem.fresh bareHeader) 0 ∧ nlmsgLen (Mem.fresh bareHeader) 0 % 4 = 0 ∧
      nlmsgLen (Mem.fresh bareHeader) 0 ≤ 1000 ∧
        ¬ Bounded (Mem.fresh bareHeader) 0 1000 (.put 1 65533 nullData) := by
  refine ⟨by decide, by decide, by decide, ?_⟩
  rintro ⟨ok, m', hrun, hout⟩
  have hput : sancusNlAttrPut (Mem.fresh bareHeader) 0 1000 1 65533 nullData =
      (true, sancusNlAttrPutNocheck (Mem.fresh bareHeader) 0 1 65533
        fun i => nullData.space (nullData.slot + i)) := by
    unfold sancusNlAttrPut sancusNlAttrPutCheck
    exact if_neg (by decide)
  obtain ⟨rfl, rfl⟩ := Prod.mk.inj (hput.symm.trans (Option.some.inj hrun))
  rcases hout with ⟨hfalse, _⟩ | ⟨_, hext⟩
  · exact absurd hfalse (by decide)
  · have hstored := hext.stores 1000 (mem_putNocheck_stored.mpr (.inr (by decide)))
    rcases hstored with h | h
    · omega
    · omega

end Sancus.Netlink
