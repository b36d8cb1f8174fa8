import Sancus.CModel.CString
import Sancus.Netlink.Msg

namespace Sancus.Netlink

open CModel

/-!
# Netlink — attributes

An attribute is a `struct nlattr` (a 16-bit length, header included, and a 16-bit
type) followed by its payload.  The writers append one at the aligned tail of the
message, the readers look at one through a pointer.

* `sancusNlAttrPutCheck` / `sancusNlAttrPutNocheck` — the common part of all writers;
* `sancusNlAttrPutU8`, … — the writers, each that part applied to its own payload;
* `Put` — a call of one of the typed writers;
* `AttrAt` — an attribute with a given type and payload lies at a given offset;
* `putNocheck_nlmsgLen` / `putNocheck_attrAt` — the length and the attribute a put leaves.
-/

/-! ### `struct nlattr` -/

/-- `sizeof(struct nlattr)`. -/
def sizeofNlattr : Nat := 4

/-- `NLA_TYPE_MASK`: the type without the nested and the byte-order flags. -/
def NLA_TYPE_MASK : UInt16 := 0x3fff

def nlaLen (m : Mem) (attr : Nat) : Nat := m.loadLe attr 2
def nlaType (m : Mem) (attr : Nat) : Nat := m.loadLe (attr + 2) 2

/-- `SANCUS_NL_ATTR_HDRLEN`. -/
def SANCUS_NL_ATTR_HDRLEN : Nat := sancusNlAlign sizeofNlattr

@[simp] theorem SANCUS_NL_ATTR_HDRLEN_eq : SANCUS_NL_ATTR_HDRLEN = 4 := by decide

/-! ### Reading one attribute -/

def sancusNlAttrGetType (m : Mem) (attr : Nat) : UInt16 :=
  UInt16.ofNat (nlaType m attr) &&& NLA_TYPE_MASK

def sancusNlAttrGetPayloadLen (m : Mem) (attr : Nat) : Nat :=
  intToUnsigned 16 (nlaLen m attr - SANCUS_NL_ATTR_HDRLEN)

def sancusNlAttrGetPayload (attr : Nat) : Nat := attr + SANCUS_NL_ATTR_HDRLEN

/-- `sancus_nl_attr_ok`: is there an attribute in the `len` bytes from `attr` on? -/
def sancusNlAttrOk (m : Mem) (attr : Nat) (len : Int) : Bool :=
  decide ((sizeofNlattr : Int) ≤ len) && decide (sizeofNlattr ≤ nlaLen m attr) &&
    decide ((nlaLen m attr : Int) ≤ len)

theorem sancusNlAttrOk_iff {m : Mem} {attr : Nat} {len : Int} :
    sancusNlAttrOk m attr len = true ↔
      4 ≤ len ∧ 4 ≤ nlaLen m attr ∧ (nlaLen m attr : Int) ≤ len := by
  simp only [sancusNlAttrOk, Bool.and_eq_true, decide_eq_true_eq, and_assoc]
  rfl

def sancusNlAttrNext (m : Mem) (attr : Nat) : Nat := attr + sancusNlAlign (nlaLen m attr)

def sancusNlAttrGetU8 (m : Mem) (attr : Nat) : UInt8 :=
  UInt8.ofNat (m.loadLe (sancusNlAttrGetPayload attr) 1)

def sancusNlAttrGetU16 (m : Mem) (attr : Nat) : UInt16 :=
  UInt16.ofNat (m.loadLe (sancusNlAttrGetPayload attr) 2)

def sancusNlAttrGetU32 (m : Mem) (attr : Nat) : UInt32 :=
  UInt32.ofNat (m.loadLe (sancusNlAttrGetPayload attr) 4)

def sancusNlAttrGetU64 (m : Mem) (attr : Nat) : UInt64 :=
  UInt64.ofNat (m.loadLe (sancusNlAttrGetPayload attr) 8)

/-- `sancus_nl_attr_get_string`: the pointer it returns. -/
def sancusNlAttrGetString (attr : Nat) : Nat := sancusNlAttrGetPayload attr

/-! ### Writing one attribute -/

/-- `__sancus_nl_attr_put_nocheck`, the stores in their order. -/
def sancusNlAttrPutNocheck (m : Mem) (nlh : Nat) (type len : UInt16) (data : Nat → UInt8) : Mem :=
  let attr := sancusNlMsgGetPayloadTail m nlh
  -- Computed in an `unsigned`, and cut to 16 bits only where it is stored.
  let payloadLen := toUnsigned 32 (sancusNlAlign sizeofNlattr + len.toNat)
  let m₁ := m.storeLe (attr + 2) 2 type.toNat
  let m₂ := m₁.storeLe attr 2 (toUnsigned 16 payloadLen)
  let m₃ := m₂.memcpy (sancusNlAttrGetPayload attr) data len.toNat
  m₃.storeLe nlh 4 (nlmsgLen m₃ nlh + sancusNlAlign payloadLen)

/-- `__sancus_nl_attr_put_check`; the sum it compares is an `unsigned`. -/
def sancusNlAttrPutCheck (m : Mem) (nlh buflen : Nat) (type len : UInt16) (data : Nat → UInt8) :
    Bool × Mem :=
  if buflen <
      toUnsigned 32 (nlmsgLen m nlh + SANCUS_NL_ATTR_HDRLEN + sancusNlAlign len.toNat) then
    (false, m)
  else (true, sancusNlAttrPutNocheck m nlh type len data)

/-- A parameter `const void *data` of a call: the address space, the address it holds and
    the stack slot the eight bytes of that address are kept in. -/
structure DataParam where
  space : Nat → UInt8
  data : Nat
  slot : Nat
  slot_holds : (Mem.fresh space).loadLe slot 8 = data

/-- `sancus_nl_attr_put`.  It passes `&data`, so what is copied is the slot of the parameter
    and the stack behind it. -/
def sancusNlAttrPut (m : Mem) (nlh buflen : Nat) (type len : UInt16) (data : DataParam) :
    Bool × Mem :=
  sancusNlAttrPutCheck m nlh buflen type len fun i => data.space (data.slot + i)

/-- The bytes from `&data` on, for an object of `w` bytes holding `n`. -/
def addressOf (w n : Nat) : Nat → UInt8 := (Mem.ofBytes (leBytes w n)).byte

def sancusNlAttrPutU8 (m : Mem) (nlh buflen : Nat) (type : UInt16) (data : UInt8) : Bool × Mem :=
  sancusNlAttrPutCheck m nlh buflen type 1 (addressOf 1 data.toNat)

def sancusNlAttrPutU16 (m : Mem) (nlh buflen : Nat) (type : UInt16) (data : UInt16) : Bool × Mem :=
  sancusNlAttrPutCheck m nlh buflen type 2 (addressOf 2 data.toNat)

def sancusNlAttrPutU32 (m : Mem) (nlh buflen : Nat) (type : UInt16) (data : UInt32) : Bool × Mem :=
  sancusNlAttrPutCheck m nlh buflen type 4 (addressOf 4 data.toNat)

def sancusNlAttrPutU64 (m : Mem) (nlh buflen : Nat) (type : UInt16) (data : UInt64) : Bool × Mem :=
  sancusNlAttrPutCheck m nlh buflen type 8 (addressOf 8 data.toNat)

/-- `sancus_u16zu`: the value as a `uint16_t`, `none` when its assertion fails. -/
def sancusU16zu (v : Nat) : Option UInt16 := if v ≤ 0xffff then some (UInt16.ofNat v) else none

def sancusNlAttrPutString (m : Mem) (nlh buflen : Nat) (type : UInt16) (data : CString) :
    Option (Bool × Mem) := do
  let len ← sancusU16zu data.strlen
  return sancusNlAttrPutCheck m nlh buflen type len data.byte

def sancusNlAttrPutNulString (m : Mem) (nlh buflen : Nat) (type : UInt16) (data : CString) :
    Option (Bool × Mem) := do
  let len ← sancusU16zu (data.strlen + 1)
  return sancusNlAttrPutCheck m nlh buflen type len data.byte

/-! ### Calls of the typed writers -/

/-- A call of one of the typed writers, with the type and the value it puts. -/
inductive Put where
  | u8 (type : UInt16) (data : UInt8)
  | u16 (type : UInt16) (data : UInt16)
  | u32 (type : UInt16) (data : UInt32)
  | u64 (type : UInt16) (data : UInt64)
  | string (type : UInt16) (data : CString)
  | nulString (type : UInt16) (data : CString)

namespace Put

/-- Make the call. -/
def run (m : Mem) (nlh buflen : Nat) : Put → Option (Bool × Mem)
  | u8 type data        => some (sancusNlAttrPutU8 m nlh buflen type data)
  | u16 type data       => some (sancusNlAttrPutU16 m nlh buflen type data)
  | u32 type data       => some (sancusNlAttrPutU32 m nlh buflen type data)
  | u64 type data       => some (sancusNlAttrPutU64 m nlh buflen type data)
  | string type data    => sancusNlAttrPutString m nlh buflen type data
  | nulString type data => sancusNlAttrPutNulString m nlh buflen type data

def type : Put → UInt16
  | u8 type _ | u16 type _ | u32 type _ | u64 type _ | string type _ | nulString type _ => type

/-- The payload the call is to put: the object in host byte order, or the characters. -/
def payload : Put → List UInt8
  | u8 _ data        => leBytes 1 data.toNat
  | u16 _ data       => leBytes 2 data.toNat
  | u32 _ data       => leBytes 4 data.toNat
  | u64 _ data       => leBytes 8 data.toNat
  | string _ data    => data.bytes
  | nulString _ data => data.bytes ++ [0]

/-- The matching getter, applied to `attr`, returns the value that was put.  A string is
    read through the returned pointer. -/
def ReadsBack (m : Mem) (attr : Nat) : Put → Prop
  | u8 _ data        => sancusNlAttrGetU8 m attr = data
  | u16 _ data       => sancusNlAttrGetU16 m attr = data
  | u32 _ data       => sancusNlAttrGetU32 m attr = data
  | u64 _ data       => sancusNlAttrGetU64 m attr = data
  | string _ data    => m.load (sancusNlAttrGetString attr) data.strlen = data.bytes
  | nulString _ data =>
    m.load (sancusNlAttrGetString attr) (data.strlen + 1) = data.bytes ++ [0]

/-- The bytes the writer hands to the common part. -/
private def source : Put → Nat → UInt8
  | u8 _ data                           => addressOf 1 data.toNat
  | u16 _ data                          => addressOf 2 data.toNat
  | u32 _ data                          => addressOf 4 data.toNat
  | u64 _ data                          => addressOf 8 data.toNat
  | string _ data | nulString _ data    => data.byte

variable (p : Put)

private theorem load_addressOf (w n : Nat) :
    (Mem.fresh (addressOf w n)).load 0 (leBytes w n).length = leBytes w n :=
  Mem.load_ofBytes (leBytes w n)

private theorem load_source : (Mem.fresh p.source).load 0 p.payload.length = p.payload := by
  cases p with
  | u8 | u16 | u32 | u64 => exact load_addressOf _ _
  | string _ s =>
    rw [payload, CString.bytes_length]
    rfl
  | nulString _ s =>
    rw [payload, List.length_append, CString.bytes_length]
    exact s.read_succ_strlen

/-- **Every typed writer is the common part** applied to its own type and payload, when the
    length of the payload fits the 16-bit parameter. -/
theorem run_eq (m : Mem) (nlh buflen : Nat) (h : p.payload.length ≤ 0xffff) :
    ∃ data, (Mem.fresh data).load 0 p.payload.length = p.payload ∧
      p.run m nlh buflen = some
        (sancusNlAttrPutCheck m nlh buflen p.type (UInt16.ofNat p.payload.length) data) := by
  refine ⟨p.source, p.load_source, ?_⟩
  cases p with
  | u8 | u16 | u32 | u64 => simp [run, payload, type, source]; rfl
  | string _ s =>
    rw [payload, CString.bytes_length] at h
    simp [run, sancusNlAttrPutString, sancusU16zu, h, payload, type, source]
  | nulString _ s =>
    rw [payload, List.length_append, CString.bytes_length] at h
    have h' : s.strlen + 1 ≤ 0xffff := h
    simp [run, sancusNlAttrPutNulString, sancusU16zu, h', payload, type, source]

end Put

/-! ### What a put leaves behind -/

/-- An attribute with this type and this payload lies at `attr`. -/
structure AttrAt (m : Mem) (attr : Nat) (type : UInt16) (payload : List UInt8) : Prop where
  nla_len : nlaLen m attr = 4 + payload.length
  nla_type : nlaType m attr = type.toNat
  payload_eq : m.load (attr + 4) payload.length = payload

/-- The bytes an attribute takes: its header and its payload, rounded up to a multiple of 4. -/
def attrSize (payloadLen : Nat) : Nat := (4 + payloadLen + 3) / 4 * 4

section

variable {m : Mem} {nlh : Nat} {type len : UInt16} {data : Nat → UInt8}

/-- The length of an attribute never overflows the `unsigned` it is computed in. -/
private theorem payloadLen_eq {n : Nat} (h : n < 65536) :
    toUnsigned 32 (sancusNlAlign sizeofNlattr + n) = 4 + n :=
  toUnsigned_of_lt (show 4 + n < 2 ^ 32 by omega)

/-- The offsets a put stores to, for any message and any length. -/
theorem putNocheck_stored :
    (sancusNlAttrPutNocheck m nlh type len data).stored =
      List.range' nlh 4 ++ (List.range' (sancusNlMsgGetPayloadTail m nlh + 4) len.toNat ++
        (List.range' (sancusNlMsgGetPayloadTail m nlh) 2 ++
          (List.range' (sancusNlMsgGetPayloadTail m nlh + 2) 2 ++ m.stored))) := by
  simp only [sancusNlAttrPutNocheck, Mem.stored_storeLe, Mem.stored_memcpy,
    sancusNlAttrGetPayload, SANCUS_NL_ATTR_HDRLEN_eq]

/-- What goes into the length field, when the tail of the message is behind its header. -/
theorem putNocheck_nlmsgLen (htail : nlh + 16 ≤ sancusNlMsgGetPayloadTail m nlh) :
    nlmsgLen (sancusNlAttrPutNocheck m nlh type len data) nlh =
      (nlmsgLen m nlh + sancusNlAlign (4 + len.toNat)) % 2 ^ 32 := by
  unfold sancusNlAttrPutNocheck sancusNlAttrGetPayload
  show Mem.loadLe _ nlh 4 = _
  -- The three stores before it lie behind the length field, which still reads as it was.
  rw [Mem.loadLe_storeLe, payloadLen_eq len.toNat_lt, nlmsgLen, SANCUS_NL_ATTR_HDRLEN_eq,
    Mem.loadLe_memcpy_of_disjoint _ (by omega), Mem.loadLe_storeLe_of_disjoint _ (by omega),
    Mem.loadLe_storeLe_of_disjoint _ (by omega)]
  rfl

/-- What goes into the length field when the header of an empty attribute is written over it:
    it is read back as `nla_len` and `nla_type`. -/
theorem putNocheck_nlmsgLen_of_tail_eq (htail : sancusNlMsgGetPayloadTail m nlh = nlh)
    (hlen : len.toNat = 0) :
    nlmsgLen (sancusNlAttrPutNocheck m nlh type len data) nlh =
      (4 + 65536 * type.toNat + 4) % 2 ^ 32 := by
  have htype : type.toNat < 256 ^ 2 := type.toNat_lt
  unfold sancusNlAttrPutNocheck sancusNlAttrGetPayload
  rw [htail, hlen, payloadLen_eq (by omega), SANCUS_NL_ATTR_HDRLEN_eq]
  show Mem.loadLe _ nlh 4 = _
  rw [Mem.loadLe_storeLe, nlmsgLen, Mem.loadLe_memcpy_of_disjoint _ (by omega),
    Mem.loadLe_add _ nlh 2 2, Mem.loadLe_storeLe, Mem.loadLe_storeLe_of_disjoint _ (by omega),
    Mem.loadLe_storeLe, Nat.mod_eq_of_lt htype]
  rfl

/-- A put leaves alone what lies between the length field and the tail. -/
theorem load_putNocheck {off n : Nat} (hoff : nlh + 4 ≤ off)
    (hn : off + n ≤ sancusNlMsgGetPayloadTail m nlh) :
    (sancusNlAttrPutNocheck m nlh type len data).load off n = m.load off n := by
  unfold sancusNlAttrPutNocheck sancusNlAttrGetPayload
  rw [SANCUS_NL_ATTR_HDRLEN_eq, Mem.load_storeLe_of_disjoint _ (by omega),
    Mem.load_memcpy_of_disjoint _ (by omega), Mem.load_storeLe_of_disjoint _ (by omega),
    Mem.load_storeLe_of_disjoint _ (by omega)]

/-- A put whose length fits `nla_len` leaves its attribute at the tail. -/
theorem putNocheck_attrAt {payload : List UInt8} (hlen : len.toNat = payload.length)
    (hdata : (Mem.fresh data).load 0 payload.length = payload)
    (htail : nlh + 16 ≤ sancusNlMsgGetPayloadTail m nlh) (hmax : payload.length ≤ 65531) :
    AttrAt (sancusNlAttrPutNocheck m nlh type len data) (sancusNlMsgGetPayloadTail m nlh)
      type payload := by
  have hplen : toUnsigned 16 (toUnsigned 32 (sancusNlAlign sizeofNlattr + payload.length)) =
      4 + payload.length := by
    rw [payloadLen_eq (by omega), toUnsigned_of_lt (by omega)]
  unfold sancusNlAttrPutNocheck sancusNlAttrGetPayload
  rw [SANCUS_NL_ATTR_HDRLEN_eq, hlen]
  constructor
  -- Each part is read through the stores made after its own.
  · rw [nlaLen, Mem.loadLe_storeLe_of_disjoint _ (by omega),
      Mem.loadLe_memcpy_of_disjoint _ (by omega), Mem.loadLe_storeLe, hplen,
      Nat.mod_eq_of_lt (by omega)]
  · rw [nlaType, Mem.loadLe_storeLe_of_disjoint _ (by omega),
      Mem.loadLe_memcpy_of_disjoint _ (by omega), Mem.loadLe_storeLe_of_disjoint _ (by omega),
      Mem.loadLe_storeLe]
    exact Nat.mod_eq_of_lt type.toNat_lt
  · rw [Mem.load_storeLe_of_disjoint _ (by omega), Mem.load_memcpy_self, hdata]

end

/-! ### Reading an attribute that is there -/

variable {m m' : Mem} {attr : Nat} {type : UInt16} {payload : List UInt8}

/-- An attribute is still there when its bytes have not changed. -/
theorem AttrAt.of_load_eq (h : AttrAt m attr type payload)
    (heq : ∀ off n, attr ≤ off → off + n ≤ attr + (4 + payload.length) →
      m'.load off n = m.load off n) : AttrAt m' attr type payload where
  nla_len := by
    rw [← h.nla_len, nlaLen, Mem.loadLe, heq attr 2 (by omega) (by omega)]; rfl
  nla_type := by
    rw [← h.nla_type, nlaType, Mem.loadLe, heq (attr + 2) 2 (by omega) (by omega)]; rfl
  payload_eq := by rw [heq _ _ (by omega) (by omega)]; exact h.payload_eq

theorem AttrAt.getType (h : AttrAt m attr type payload) :
    sancusNlAttrGetType m attr = type &&& NLA_TYPE_MASK := by
  rw [sancusNlAttrGetType, h.nla_type, UInt16.ofNat_toNat]

theorem AttrAt.length_le (h : AttrAt m attr type payload) : payload.length ≤ 65531 := by
  have hlt : m.loadLe attr 2 < 256 ^ 2 := m.loadLe_lt attr 2
  have hlen : m.loadLe attr 2 = 4 + payload.length := h.nla_len
  omega

theorem AttrAt.getPayloadLen (h : AttrAt m attr type payload) :
    sancusNlAttrGetPayloadLen m attr = payload.length := by
  have := h.length_le
  rw [sancusNlAttrGetPayloadLen, h.nla_len, SANCUS_NL_ATTR_HDRLEN_eq, intToUnsigned]
  omega

theorem AttrAt.load_getPayload (h : AttrAt m attr type payload) :
    m.load (sancusNlAttrGetPayload attr) payload.length = payload := h.payload_eq

/-- **The getters match the writers.** -/
theorem AttrAt.readsBack {p : Put} (h : AttrAt m attr p.type p.payload) : p.ReadsBack m attr := by
  have hload := h.load_getPayload
  cases p with
  | u8 _ v | u16 _ v | u32 _ v | u64 _ v =>
    -- The bytes of the object read back as its value, which is below the width.
    rw [Put.payload, leBytes_length] at hload
    simp [Put.ReadsBack, sancusNlAttrGetU8, sancusNlAttrGetU16, sancusNlAttrGetU32,
      sancusNlAttrGetU64, Mem.loadLe, hload, leNat_leBytes]
  | string _ s =>
    rw [Put.payload, CString.bytes_length] at hload
    exact hload
  | nulString _ s =>
    rw [Put.payload, List.length_append, CString.bytes_length] at hload
    exact hload

end Sancus.Netlink
