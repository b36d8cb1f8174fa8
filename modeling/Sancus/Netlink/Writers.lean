import Sancus.Netlink.Attr

namespace Sancus.Netlink

open CModel

/-!
# Netlink — the generic attribute writer against the typed ones

`sancus_nl_attr_put` is given a pointer to the payload, where the typed writers are given
the payload itself; all of them call the same helper.

* `putCheck_congr` — the helper looks at the payload bytes only;
* `PutsData` — the generic writer puts what its pointer points to, as the typed ones would;
* `attr_put_agrees_iff` — it does when its stack slot happens to hold the same bytes.
-/

variable {m : Mem} {nlh buflen : Nat} {type len : UInt16}

/-- The bytes a pointer parameter points to. -/
def DataParam.pointee (data : DataParam) (n : Nat) : List UInt8 :=
  (Mem.fresh data.space).load data.data n

/-- The bytes from the slot of the parameter on. -/
def DataParam.slotBytes (data : DataParam) (n : Nat) : List UInt8 :=
  (Mem.fresh data.space).load data.slot n

/-- The helper looks at the bytes of the payload only. -/
theorem putCheck_congr {data data' : Nat → UInt8}
    (h : (Mem.fresh data).load 0 len.toNat = (Mem.fresh data').load 0 len.toNat) :
    sancusNlAttrPutCheck m nlh buflen type len data =
      sancusNlAttrPutCheck m nlh buflen type len data' := by
  simp only [sancusNlAttrPutCheck, sancusNlAttrPutNocheck, Mem.memcpy, h]

/-- The payload is never written over by the length that is stored after it. -/
theorem load_payload_putNocheck {data : Nat → UInt8} :
    (sancusNlAttrPutNocheck m nlh type len data).load
        (sancusNlMsgGetPayloadTail m nlh + SANCUS_NL_ATTR_HDRLEN) len.toNat =
      (Mem.fresh data).load 0 len.toNat := by
  have htail : nlh ≤ sancusNlMsgGetPayloadTail m nlh := Nat.le_add_right _ _
  unfold sancusNlAttrPutNocheck sancusNlAttrGetPayload
  rw [SANCUS_NL_ATTR_HDRLEN_eq, Mem.load_storeLe_of_disjoint _ (by omega), Mem.load_memcpy_self]

/-- What the generic writer copies is the slot of its parameter. -/
theorem load_slot (data : DataParam) (n : Nat) :
    (Mem.fresh fun i => data.space (data.slot + i)).load 0 n = data.slotBytes n := by
  rw [DataParam.slotBytes, Mem.load, Mem.load, List.range'_eq_map_range,
    List.range'_eq_map_range, List.map_map, List.map_map]
  apply List.map_congr_left
  intro i _
  simp [Mem.fresh]

/-- The generic writer stores the bytes its pointer points to, and leaves the same message as
    a typed writer that is given them. -/
structure PutsData (m : Mem) (nlh buflen : Nat) (type len : UInt16) (data : DataParam) : Prop where
  payload : (sancusNlAttrPut m nlh buflen type len data).1 = true →
    (sancusNlAttrPut m nlh buflen type len data).2.load
        (sancusNlMsgGetPayloadTail m nlh + SANCUS_NL_ATTR_HDRLEN) len.toNat =
      data.pointee len.toNat
  typed : ∀ p : Put, p.type = type → p.payload = data.pointee len.toNat →
    p.run m nlh buflen = some (sancusNlAttrPut m nlh buflen type len data)

/-- The bytes of the pointer are those it points to when they are so one by one. -/
theorem DataParam.slotBytes_eq_iff (data : DataParam) {n : Nat} :
    data.slotBytes n = data.pointee n ↔
      ∀ i < n, data.space (data.slot + i) = data.space (data.data + i) := by
  rw [DataParam.slotBytes, DataParam.pointee, Mem.load, Mem.load, List.range'_eq_map_range,
    List.range'_eq_map_range, List.map_map, List.map_map, List.map_inj_left]
  simp [Mem.fresh]

/-- **When the generic writer agrees with the typed ones.**  For every message, buffer, type,
    length and pointer: exactly when the check refuses the call, or the bytes of its own
    parameter and what lies behind it on the stack are the bytes pointed to. -/
theorem attr_put_agrees_iff (m : Mem) (nlh buflen : Nat) (type len : UInt16) (data : DataParam) :
    PutsData m nlh buflen type len data ↔
      buflen < toUnsigned 32 (nlmsgLen m nlh + SANCUS_NL_ATTR_HDRLEN + sancusNlAlign len.toNat) ∨
        ∀ i < len.toNat, data.space (data.slot + i) = data.space (data.data + i) := by
  rw [← data.slotBytes_eq_iff]
  constructor
  · intro h
    by_cases hfit : buflen <
        toUnsigned 32 (nlmsgLen m nlh + SANCUS_NL_ATTR_HDRLEN + sancusNlAlign len.toNat)
    · exact .inl hfit
    · have hput : sancusNlAttrPut m nlh buflen type len data =
          (true, sancusNlAttrPutNocheck m nlh type len fun i => data.space (data.slot + i)) := by
        rw [sancusNlAttrPut, sancusNlAttrPutCheck, if_neg hfit]
      have hpayload := h.payload (by rw [hput])
      rw [hput, load_payload_putNocheck, load_slot] at hpayload
      exact .inr hpayload
  · intro h
    constructor
    · intro hok
      rw [sancusNlAttrPut, sancusNlAttrPutCheck] at hok ⊢
      rcases h with hrefused | hsame
      · rw [if_pos hrefused] at hok
        exact absurd hok Bool.false_ne_true
      · split at hok
        · exact absurd hok Bool.false_ne_true
        · next hfit =>
          rw [if_neg hfit, load_payload_putNocheck, load_slot, hsame]
    · intro p htype hp
      have hlen : p.payload.length = len.toNat := by
        rw [hp]
        exact Mem.load_length _ _ _
      obtain ⟨source, hsource, hrun⟩ := p.run_eq m nlh buflen (by have := len.toNat_lt; omega)
      rw [hlen, UInt16.ofNat_toNat] at hrun
      rw [hlen] at hsource
      rw [hrun, htype, sancusNlAttrPut]
      rcases h with hrefused | hsame
      · simp only [sancusNlAttrPutCheck, if_pos hrefused]
      · refine congrArg some (putCheck_congr ?_)
        rw [hsource, hp, load_slot, hsame]

/-- A pointer to one byte, 7, and the slot that holds it. -/
def pointerToSeven : DataParam where
  space i := if i = 0 then 8 else if i = 8 then 7 else 0
  data := 8
  slot := 0
  slot_holds := by decide

/-- **The pointer is put instead.**  A put of the one byte 7 does not leave what
    `sancus_nl_attr_put_u8` leaves: the attribute holds the low byte of the address. -/
theorem attr_put_puts_pointer :
    ¬ PutsData (sancusNlMsgPutHeader (Mem.fresh fun _ => 0) 0) 0 64 1 1 pointerToSeven := by
  intro h
  have hpayload := h.payload (by decide)
  revert hpayload
  decide

end Sancus.Netlink
