import Sancus.Netlink.Writers

namespace Sancus.Netlink

open CModel

/-!
# Netlink — validating an attribute before it is read

A getter reads the payload of an attribute without looking at its length.  What makes that
safe is `sancus_nl_attr_validate_minlen`, which is told the data type of the attribute.

* `AttrDataType` / `sancusNlAttrValidateMinlen` — the data types and the check;
* `ReadsInside` — a getter looks at bytes of the attribute only;
* `payloadLen_put` — the payload length a writer leaves, wherever its message ends;
* `attr_validated` — the check makes the getters safe, and accepts what the writers put.
-/

/-- `ERANGE`. -/
def ERANGE : Nat := 34

/-- `EINVAL`. -/
def EINVAL : Nat := 22

/-- `enum sancus_nl_attr_data_type`. -/
inductive AttrDataType where
  | unspec
  | u8
  | u16
  | u32
  | u64
  | string
  | flag
  | msecs
  | nested
  | nestedCompat
  | nulString
  | binary
  | max
  deriving DecidableEq

/-- `sancus_nl_attr_data_type_minlen`; a type without an entry has a zero there. -/
def sancusNlAttrDataTypeMinlen : AttrDataType → Nat
  | .u8        => 1
  | .u16       => 2
  | .u32       => 4
  | .u64       => 8
  | .string    => 1
  | .nulString => 1
  | _          => 0

/-- `validate_attr`: 0, or -1 with the `errno` it sets. -/
def validateAttr (m : Mem) (attr : Nat) (type : AttrDataType) (expectedLen : Nat) :
    Except Nat Unit :=
  let len := sancusNlAttrGetPayloadLen m attr
  let payload := sancusNlAttrGetPayload attr
  if len < expectedLen then .error ERANGE
  else match type with
    | .flag      => if 0 < len then .error ERANGE else .ok ()
    | .string    => if len = 0 then .error ERANGE else .ok ()
    | .nulString =>
      if len = 0 then .error ERANGE
      -- The payload needs to be NUL terminated.
      else if m.byte (payload + (len - 1)) ≠ 0 then .error EINVAL
      else .ok ()
    | .nested    =>
      -- An empty nested attribute is allowed, and otherwise it holds a header.
      if len = 0 then .ok () else if len < SANCUS_NL_ATTR_HDRLEN then .error ERANGE else .ok ()
    | _          => .ok ()

/-- `sancus_nl_attr_validate_minlen`. -/
def sancusNlAttrValidateMinlen (m : Mem) (attr : Nat) (type : AttrDataType) : Except Nat Unit :=
  if type = .max then .error EINVAL
  else validateAttr m attr type (sancusNlAttrDataTypeMinlen type)

/-- The data type of what a typed writer puts. -/
def Put.dataType : Put → AttrDataType
  | u8 _ _        => .u8
  | u16 _ _       => .u16
  | u32 _ _       => .u32
  | u64 _ _       => .u64
  | string _ _    => .string
  | nulString _ _ => .nulString

/-- A getter looks at the first `w` bytes of the payload and at nothing else, and these are
    bytes of the attribute. -/
structure ReadsInside {α : Type} (m : Mem) (attr w : Nat) (get : Mem → Nat → α) : Prop where
  reads : ∀ m' : Mem, m'.load (sancusNlAttrGetPayload attr) w =
    m.load (sancusNlAttrGetPayload attr) w → get m' attr = get m attr
  inside : sancusNlAttrGetPayload attr + w ≤ attr + nlaLen m attr

/-- The string at a pointer ends before `stop`. -/
def EndsBefore (m : Mem) (s stop : Nat) : Prop :=
  ∃ k, s + k < stop ∧ m.byte (s + k) = 0 ∧ ∀ j < k, m.byte (s + j) ≠ 0

variable {m : Mem} {attr nlh buflen w : Nat} {type : AttrDataType} {len : Int}

/-! ### What is accepted -/

/-- Whatever is accepted has the length its type asks for. -/
theorem minlen_le (h : sancusNlAttrValidateMinlen m attr type = .ok ()) :
    sancusNlAttrDataTypeMinlen type ≤ sancusNlAttrGetPayloadLen m attr := by
  unfold sancusNlAttrValidateMinlen at h
  split at h
  · cases h
  · by_contra hlt
    unfold validateAttr at h
    dsimp only at h
    rw [if_pos (Nat.lt_of_not_le hlt)] at h
    cases h

/-- The payload of an attribute that is there ends where the attribute does. -/
theorem payload_end (hok : sancusNlAttrOk m attr len = true) :
    sancusNlAttrGetPayload attr + sancusNlAttrGetPayloadLen m attr = attr + nlaLen m attr := by
  obtain ⟨_, h4, _⟩ := sancusNlAttrOk_iff.mp hok
  have hlt : nlaLen m attr < 256 ^ 2 := m.loadLe_lt attr 2
  rw [sancusNlAttrGetPayload, sancusNlAttrGetPayloadLen, SANCUS_NL_ATTR_HDRLEN_eq, intToUnsigned]
  omega

/-- **A getter of a number is safe** once its type has been validated. -/
theorem readsInside {α : Type} {get : Mem → Nat → α} (hok : sancusNlAttrOk m attr len = true)
    (h : sancusNlAttrValidateMinlen m attr type = .ok ())
    (hget : ∀ m' : Mem, m'.loadLe (sancusNlAttrGetPayload attr) (sancusNlAttrDataTypeMinlen type) =
      m.loadLe (sancusNlAttrGetPayload attr) (sancusNlAttrDataTypeMinlen type) →
        get m' attr = get m attr) :
    ReadsInside m attr (sancusNlAttrDataTypeMinlen type) get where
  reads m' hload := hget m' (congrArg leNat hload)
  inside := by
    rw [← payload_end hok]
    exact Nat.add_le_add_left (minlen_le h) _

/-- A byte that is zero somewhere makes a string end there or earlier. -/
theorem endsBefore_of_byte {s k stop : Nat} (hk : s + k < stop) (hnul : m.byte (s + k) = 0) :
    EndsBefore m s stop := by
  classical
  have hex : ∃ i, m.byte (s + i) = 0 := ⟨k, hnul⟩
  have hfirst : Nat.find hex ≤ k := Nat.find_min' hex hnul
  exact ⟨Nat.find hex, by omega, Nat.find_spec hex, fun j hj => Nat.find_min hex hj⟩

theorem endsBefore_of_valid (hok : sancusNlAttrOk m attr len = true)
    (h : sancusNlAttrValidateMinlen m attr .nulString = .ok ()) :
    EndsBefore m (sancusNlAttrGetString attr) (attr + nlaLen m attr) := by
  have hmin := minlen_le h
  have hpos : 1 ≤ sancusNlAttrGetPayloadLen m attr := hmin
  have hend := payload_end hok
  apply endsBefore_of_byte (k := sancusNlAttrGetPayloadLen m attr - 1)
  · show sancusNlAttrGetPayload attr + _ < _
    omega
  · by_contra hbyte
    rw [sancusNlAttrValidateMinlen, if_neg (by decide), validateAttr,
      if_neg (not_lt.mpr hmin)] at h
    have hne : m.byte (sancusNlAttrGetPayload attr + (sancusNlAttrGetPayloadLen m attr - 1)) ≠ 0 :=
      hbyte
    rw [if_neg (by omega), if_pos hne] at h
    cases h

theorem nested_room (h : sancusNlAttrValidateMinlen m attr .nested = .ok ())
    (hne : sancusNlAttrGetPayloadLen m attr ≠ 0) :
    sizeofNlattr ≤ sancusNlAttrGetPayloadLen m attr := by
  have hmin := minlen_le h
  by_contra hlt
  rw [sancusNlAttrValidateMinlen, if_neg (by decide), validateAttr,
    if_neg (not_lt.mpr hmin)] at h
  have hshort : sancusNlAttrGetPayloadLen m attr < SANCUS_NL_ATTR_HDRLEN := Nat.lt_of_not_le hlt
  rw [if_neg hne, if_pos hshort] at h
  cases h

/-! ### What the writers put -/

variable {t l : UInt16} {data : Nat → UInt8}

/-- The low half of a 32-bit number just stored. -/
theorem loadLe_low_storeLe (m : Mem) (off v : Nat) :
    (m.storeLe off 4 v).loadLe off 2 = v % 65536 := by
  have hfull := m.loadLe_storeLe off 4 v
  rw [Mem.loadLe_add _ off 2 2] at hfull
  have hlow := (m.storeLe off 4 v).loadLe_lt off 2
  omega

/-- What is read back as `nla_len`.  The length field of the message is stored last, over the
    header of the attribute when the aligned end of the message is its start; by then the
    attribute is so long that nothing is added. -/
theorem nlaLen_put
    (hover : sancusNlMsgGetPayloadTail m nlh = nlh → sancusNlAlign (4 + l.toNat) = 0) :
    nlaLen (sancusNlAttrPutNocheck m nlh t l data) (sancusNlMsgGetPayloadTail m nlh) =
      (4 + l.toNat) % 65536 := by
  have hl := l.toNat_lt
  have hplen : toUnsigned 32 (sancusNlAlign sizeofNlattr + l.toNat) = 4 + l.toNat :=
    toUnsigned_of_lt (show 4 + l.toNat < 2 ^ 32 by omega)
  have htail : sancusNlMsgGetPayloadTail m nlh = nlh + sancusNlAlign (nlmsgLen m nlh) := rfl
  have hfour := sancusNlAlign_mod (nlmsgLen m nlh)
  unfold sancusNlAttrPutNocheck sancusNlAttrGetPayload
  rw [SANCUS_NL_ATTR_HDRLEN_eq, hplen, nlaLen]
  by_cases hsame : sancusNlMsgGetPayloadTail m nlh = nlh
  · dsimp only
    rw [hsame, hover hsame, loadLe_low_storeLe, nlmsgLen,
      Mem.loadLe_memcpy_of_disjoint _ (by omega), Mem.loadLe_add _ nlh 2 2, Mem.loadLe_storeLe]
    rw [toUnsigned]
    omega
  · rw [Mem.loadLe_storeLe_of_disjoint _ (by omega), Mem.loadLe_memcpy_of_disjoint _ (by omega),
      Mem.loadLe_storeLe, toUnsigned]
    omega

/-- **The payload length read back is that of the payload put**, whatever the length of the
    message is. -/
theorem payloadLen_put (hmod : nlmsgLen m nlh % 4 = 0) (h16 : 16 ≤ nlmsgLen m nlh)
    (hbuf : buflen ≤ 65532) (hmax : l.toNat ≤ 65532)
    (hfit : toUnsigned 32 (nlmsgLen m nlh + SANCUS_NL_ATTR_HDRLEN + sancusNlAlign l.toNat) ≤
      buflen) :
    sancusNlAttrGetPayloadLen (sancusNlAttrPutNocheck m nlh t l data)
      (sancusNlMsgGetPayloadTail m nlh) = l.toNat := by
  have hover : sancusNlMsgGetPayloadTail m nlh = nlh → sancusNlAlign (4 + l.toNat) = 0 := by
    intro hsame
    have hzero : sancusNlAlign (nlmsgLen m nlh) = 0 := Nat.add_eq_left.mp hsame
    have hlt : nlmsgLen m nlh < 256 ^ 4 := m.loadLe_lt nlh 4
    rw [sancusNlAlign_eq] at hzero ⊢
    rw [sancusNlAlign_eq, SANCUS_NL_ATTR_HDRLEN_eq, toUnsigned] at hfit
    omega
  have hl := l.toNat_lt
  rw [sancusNlAttrGetPayloadLen, nlaLen_put hover, SANCUS_NL_ATTR_HDRLEN_eq, intToUnsigned]
  omega

/-- A put that returns true has passed the check, and stored its own payload. -/
theorem put_stored {p : Put} {m' : Mem} (hmod : nlmsgLen m nlh % 4 = 0)
    (h16 : 16 ≤ nlmsgLen m nlh) (hbuf : buflen ≤ 65532) (hpay : p.payload.length ≤ 65532)
    (hput : p.run m nlh buflen = some (true, m')) :
    sancusNlAttrGetPayloadLen m' (sancusNlMsgGetPayloadTail m nlh) = p.payload.length ∧
      m'.load (sancusNlAttrGetPayload (sancusNlMsgGetPayloadTail m nlh)) p.payload.length =
        p.payload := by
  obtain ⟨data, hdata, hrun⟩ := p.run_eq m nlh buflen (by omega)
  have hlen : (UInt16.ofNat p.payload.length).toNat = p.payload.length :=
    UInt16.toNat_ofNat_of_lt' (by rw [UInt16.size]; omega)
  rw [hrun, sancusNlAttrPutCheck] at hput
  split at hput
  · cases Option.some.inj hput
  · next hfit =>
    obtain ⟨_, rfl⟩ := Prod.mk.inj (Option.some.inj hput)
    refine ⟨?_, ?_⟩
    · have hplen := @payloadLen_put m nlh buflen p.type (UInt16.ofNat p.payload.length) data
        hmod h16 hbuf (by rw [hlen]; exact hpay) (not_lt.mp hfit)
      exact hplen.trans hlen
    · have hload := @load_payload_putNocheck m nlh p.type (UInt16.ofNat p.payload.length) data
      rw [hlen] at hload
      exact hload.trans hdata

/-- An attribute whose payload is one a typed writer puts is accepted for its type. -/
theorem validate_payload {p : Put} {m' : Mem}
    (hne : ∀ type' s, p = .string type' s → s.strlen ≠ 0)
    (hlen : sancusNlAttrGetPayloadLen m' attr = p.payload.length)
    (hload : m'.load (sancusNlAttrGetPayload attr) p.payload.length = p.payload) :
    sancusNlAttrValidateMinlen m' attr p.dataType = .ok () := by
  cases p with
  | u8 _ _ | u16 _ _ | u32 _ _ | u64 _ _ =>
    rw [Put.payload, leBytes_length] at hlen
    simp [sancusNlAttrValidateMinlen, validateAttr, Put.dataType, sancusNlAttrDataTypeMinlen, hlen]
  | string type' s =>
    have hpos := hne type' s rfl
    rw [Put.payload, CString.bytes_length] at hlen
    simp [sancusNlAttrValidateMinlen, validateAttr, Put.dataType, sancusNlAttrDataTypeMinlen, hlen,
      hpos]
  | nulString _ s =>
    rw [Put.payload, List.length_append, List.length_singleton, CString.bytes_length] at hlen hload
    -- the last byte of the payload is the NUL
    rw [Mem.load_add] at hload
    have hlast := (List.append_inj hload (by simp)).2
    have hnul : m'.byte (sancusNlAttrGetPayload attr + s.strlen) = 0 :=
      List.head_eq_of_cons_eq hlast
    simp [sancusNlAttrValidateMinlen, validateAttr, Put.dataType, sancusNlAttrDataTypeMinlen, hlen,
      hnul]

/-! ### The check -/

/-- **The check makes the getters safe, and accepts what the writers put.**  For every attribute
    that is there and that is accepted as a number, its getter looks at bytes of the attribute
    only; as a NUL terminated string, the string ends in the payload; as a nested attribute that
    is not empty, there is room for a header.  And what a typed writer has put, other than an
    empty string without its NUL, is accepted for its type. -/
theorem attr_validated :
    (∀ (m : Mem) (attr : Nat) (len : Int), sancusNlAttrOk m attr len = true →
      (sancusNlAttrValidateMinlen m attr .u8 = .ok () →
        ReadsInside m attr 1 sancusNlAttrGetU8) ∧
      (sancusNlAttrValidateMinlen m attr .u16 = .ok () →
        ReadsInside m attr 2 sancusNlAttrGetU16) ∧
      (sancusNlAttrValidateMinlen m attr .u32 = .ok () →
        ReadsInside m attr 4 sancusNlAttrGetU32) ∧
      (sancusNlAttrValidateMinlen m attr .u64 = .ok () →
        ReadsInside m attr 8 sancusNlAttrGetU64) ∧
      (sancusNlAttrValidateMinlen m attr .nulString = .ok () →
        EndsBefore m (sancusNlAttrGetString attr) (attr + nlaLen m attr)) ∧
      (sancusNlAttrValidateMinlen m attr .nested = .ok () →
        sancusNlAttrGetPayloadLen m attr ≠ 0 →
          sizeofNlattr ≤ sancusNlAttrGetPayloadLen m attr)) ∧
    ∀ (m m' : Mem) (nlh buflen : Nat) (p : Put), nlmsgLen m nlh % 4 = 0 → 16 ≤ nlmsgLen m nlh →
      buflen ≤ 65532 → p.payload.length ≤ 65532 →
      (∀ type s, p = .string type s → s.strlen ≠ 0) → p.run m nlh buflen = some (true, m') →
        sancusNlAttrValidateMinlen m' (sancusNlMsgGetPayloadTail m nlh) p.dataType = .ok () := by
  refine ⟨?_, ?_⟩
  · intro m attr len hok
    refine ⟨?_, ?_, ?_, ?_, endsBefore_of_valid hok, nested_room⟩
    · exact fun h => readsInside hok h fun _ hload => congrArg UInt8.ofNat hload
    · exact fun h => readsInside hok h fun _ hload => congrArg UInt16.ofNat hload
    · exact fun h => readsInside hok h fun _ hload => congrArg UInt32.ofNat hload
    · exact fun h => readsInside hok h fun _ hload => congrArg UInt64.ofNat hload
  · intro m m' nlh buflen p hmod h16 hbuf hpay hne hput
    obtain ⟨hlen, hload⟩ := put_stored hmod h16 hbuf hpay hput
    exact validate_payload hne hlen hload

/-- A 16-bit number put into a message just started. -/
theorem attr_validated_u16 :
    ∃ m', Put.run (sancusNlMsgPutHeader (Mem.fresh fun _ => 0) 0) 0 64 (.u16 1 513) =
        some (true, m') ∧
      sancusNlAttrValidateMinlen m' 16 .u16 = .ok () ∧
      ReadsInside m' 16 2 sancusNlAttrGetU16 := by
  refine ⟨_, rfl, ?_, ?_⟩
  · exact attr_validated.2 (sancusNlMsgPutHeader (Mem.fresh fun _ => 0) 0) _ 0 64 (.u16 1 513)
      (by decide) (by decide) (by decide) (by decide) nofun rfl
  · exact (attr_validated.1 _ 16 8 (by decide)).2.1 (by decide)

end Sancus.Netlink
