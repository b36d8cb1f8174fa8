import Sancus.Netlink.RoundTrip

namespace Sancus.Netlink

open CModel

/-!
# Netlink — a message that is sent

A sender writes a message into a buffer of its own and sends the bytes of it; the receiver
finds them at the start of another buffer, with whatever was there before behind them.

* `Draft` — what a sender writes, and `Draft.compose`, the bytes that leave it;
* `readMessage` — what a callback reads of a message;
* `Carries` — the bytes hold a header and a list of attributes, wherever they are read;
* `Draft.Proper.compose` — what a sender composes is carried;
* `Carries.readMessage` — and read back.
-/

/-! ### The sender -/

/-- The fields of a header that are the application's. -/
structure Fields where
  type : UInt16
  flags : UInt16
  seq : UInt32
  pid : UInt32
  deriving DecidableEq

/-- The stores of an application to a header that has been started. -/
def fillHeader (m : Mem) (nlh : Nat) (f : Fields) : Mem :=
  (((m.storeLe (nlh + 4) 2 f.type.toNat).storeLe (nlh + 6) 2 f.flags.toNat).storeLe (nlh + 8) 4
    f.seq.toNat).storeLe (nlh + 12) 4 f.pid.toNat

/-- A message that a sender writes at `nlh`, in a buffer of `buflen` bytes. -/
structure Draft where
  mem : Mem
  nlh : Nat
  buflen : Nat
  fields : Fields
  puts : List Put

/-- Write the message; the attributes that found room, and the bytes that are sent. -/
def Draft.compose (extra : Option Nat) (d : Draft) : Option (List Put × List UInt8) :=
  (putAll d.nlh d.buflen (fillHeader (putStart d.mem d.nlh extra) d.nlh d.fields) d.puts).map
    fun (calls, m) => (accepted calls, m.load d.nlh (nlmsgLen m d.nlh))

/-- The sizes stay in the range of the alignment macro. -/
structure Draft.Proper (extra : Option Nat) (d : Draft) : Prop where
  buflen_le : d.buflen ≤ 65532
  extra_fits : ∀ size ∈ extra, 16 + (size + 3) / 4 * 4 ≤ d.buflen
  payloads : ∀ p ∈ d.puts, p.payload.length ≤ 65532

/-! ### The reader -/

/-- What a callback sees of a message: its type, and the type and the payload of each of its
    attributes. -/
structure Received where
  type : Nat
  attrs : List (UInt16 × List UInt8)
  deriving DecidableEq

def readAttr (m : Mem) (attr : Nat) : UInt16 × List UInt8 :=
  (sancusNlAttrGetType m attr,
    m.load (sancusNlAttrGetPayload attr) (sancusNlAttrGetPayloadLen m attr))

/-- The message at `nlh`, behind an extra header of `offset` bytes, as a callback reads it that
    goes through all attributes. -/
def readMessage (fuel offset : Nat) (m : Mem) (nlh : Nat) : Option Received :=
  (sancusNlAttrParse fuel m nlh offset fun _ => SANCUS_NL_CB_OK).map fun r =>
    ⟨nlmsgType m nlh, r.visited.map (readAttr m)⟩

/-- What is to be read of the attributes of a list. -/
def Put.seen (p : Put) : UInt16 × List UInt8 := (p.type &&& NLA_TYPE_MASK, p.payload)

/-! ### What is carried -/

variable {m m' : Mem} {nlh nlh' buflen offset pos pos' : Nat} {as : List Put} {extra : Option Nat}
  {d : Draft} {f : Fields} {bytes : List UInt8}

/-- Where the bytes are, there is a message with these fields and these attributes; it is of
    their length, which is a multiple of four. -/
structure Carries (offset : Nat) (f : Fields) (as : List Put) (bytes : List UInt8) : Prop where
  length_ge : 16 ≤ bytes.length
  length_mod : bytes.length % 4 = 0
  written : ∀ m, m.load 0 bytes.length = bytes → Written m 0 65532 offset as
  len : ∀ m, m.load 0 bytes.length = bytes → nlmsgLen m 0 = bytes.length
  type : ∀ m, m.load 0 bytes.length = bytes → nlmsgType m 0 = f.type.toNat
  pid : ∀ m, m.load 0 bytes.length = bytes → nlmsgPid m 0 = f.pid.toNat

/-- Attributes are in both memories when the same bytes are. -/
theorem AttrsAt.moved (h : AttrsAt m pos as)
    (heq : m'.load pos' (attrsSize as) = m.load pos (attrsSize as)) : AttrsAt m' pos' as := by
  induction as generalizing pos pos' with
  | nil => trivial
  | cons p as ih =>
    have hsize := le_attrSize p.payload.length
    rw [attrsSize_cons] at heq
    refine ⟨⟨?_, ?_, ?_⟩, ih h.2 (Mem.load_part_eq heq le_rfl)⟩
    · rw [← h.1.nla_len]
      exact congrArg leNat (Mem.load_part_eq (i := 0) heq (by omega))
    · rw [← h.1.nla_type]
      exact congrArg leNat (Mem.load_part_eq (i := 2) heq (by omega))
    · rw [Mem.load_part_eq (i := 4) heq (by omega)]
      exact h.1.payload_eq

/-- A message is in both memories when its bytes are. -/
theorem Written.moved (h : Written m nlh buflen offset as) (hbuf : buflen ≤ 65532)
    (heq : m'.load nlh' (nlmsgLen m nlh) = m.load nlh (nlmsgLen m nlh)) :
    Written m' nlh' 65532 offset as := by
  have hlen := h.len_eq
  have hsame : nlmsgLen m' nlh' = nlmsgLen m nlh :=
    congrArg leNat (Mem.load_part_eq (i := 0) heq (by omega))
  have hle := h.len_le
  refine ⟨hsame.trans hlen, by rw [hsame]; exact h.len_mod, by omega, ?_⟩
  have hattrs := h.attrs
  rw [payloadOffset_eq] at hattrs ⊢
  exact hattrs.moved (Mem.load_part_eq heq (by omega))

/-! ### Composing -/

/-- The fields of a header are stored behind its length and before what follows it. -/
theorem Written.fillHeader (h : Written m nlh buflen offset as) (f : Fields) :
    Written (fillHeader m nlh f) nlh buflen offset as := by
  have hload : ∀ off n, off + n ≤ nlh + 4 ∨ nlh + 16 ≤ off →
      (Netlink.fillHeader m nlh f).load off n = m.load off n := by
    intro off n hoff
    unfold Netlink.fillHeader
    rw [Mem.load_storeLe_of_disjoint _ (by omega), Mem.load_storeLe_of_disjoint _ (by omega),
      Mem.load_storeLe_of_disjoint _ (by omega), Mem.load_storeLe_of_disjoint _ (by omega)]
  have hlen : nlmsgLen (Netlink.fillHeader m nlh f) nlh = nlmsgLen m nlh :=
    congrArg leNat (hload nlh 4 (by omega))
  refine ⟨hlen.trans h.len_eq, by rw [hlen]; exact h.len_mod, by rw [hlen]; exact h.len_le, ?_⟩
  apply h.attrs.of_load_eq
  intro off n hoff _
  rw [payloadOffset_eq] at hoff
  exact hload off n (by omega)

/-- The header reads as it has been filled. -/
theorem fillHeader_fields (m : Mem) (nlh : Nat) (f : Fields) :
    nlmsgType (fillHeader m nlh f) nlh = f.type.toNat ∧
      nlmsgPid (fillHeader m nlh f) nlh = f.pid.toNat := by
  unfold fillHeader nlmsgType nlmsgPid
  constructor
  · rw [Mem.loadLe_storeLe_of_disjoint _ (by omega), Mem.loadLe_storeLe_of_disjoint _ (by omega),
      Mem.loadLe_storeLe_of_disjoint _ (by omega), Mem.loadLe_storeLe]
    exact Nat.mod_eq_of_lt f.type.toNat_lt
  · rw [Mem.loadLe_storeLe]
    exact Nat.mod_eq_of_lt f.pid.toNat_lt

/-- A put leaves the fields of the header alone. -/
theorem Put.run_header {p : Put} {ok : Bool} (h : Written m nlh buflen offset as)
    (hbuf : buflen ≤ 65532) (hpay : p.payload.length ≤ 65532)
    (hrun : p.run m nlh buflen = some (ok, m')) :
    m'.load (nlh + 4) 12 = m.load (nlh + 4) 12 := by
  obtain ⟨data, _, heq⟩ := p.run_eq m nlh buflen (by omega)
  have hlen := h.len_eq
  have hput := Option.some.inj (heq.symm.trans hrun)
  unfold sancusNlAttrPutCheck at hput
  split_ifs at hput
  · rw [← (Prod.mk.inj hput).2]
  · rw [← (Prod.mk.inj hput).2]
    exact load_putNocheck (by omega) (by rw [h.tail hbuf]; omega)

/-- Neither do the puts one after the other. -/
theorem putAll_header {ps : List Put} {calls : List Call} (h : Written m nlh buflen offset as)
    (hbuf : buflen ≤ 65532) (hpay : ∀ p ∈ ps, p.payload.length ≤ 65532)
    (hall : putAll nlh buflen m ps = some (calls, m')) :
    m'.load (nlh + 4) 12 = m.load (nlh + 4) 12 := by
  induction ps generalizing m as calls with
  | nil =>
    obtain ⟨_, rfl⟩ := Prod.mk.inj (Option.some.inj hall)
    rfl
  | cons p ps ih =>
    obtain ⟨ok, m₁, hrun, _, hwritten⟩ := h.put hbuf (hpay p (by simp))
    simp only [putAll, hrun, Option.bind_eq_bind, Option.bind_some] at hall
    obtain ⟨⟨calls', m₂⟩, hrest, hm⟩ := Option.bind_eq_some_iff.mp hall
    obtain ⟨_, rfl⟩ := Prod.mk.inj (Option.some.inj hm)
    rw [ih hwritten (fun q hq => hpay q (by simp [hq])) hrest]
    exact Put.run_header h hbuf (hpay p (by simp)) hrun

/-- **What is composed is carried.**  A proper draft is written without an assertion failing, and
    the bytes that are sent carry its fields and the attributes that found room. -/
theorem Draft.Proper.compose (hd : d.Proper extra) : ∃ as bytes,
    d.compose extra = some (as, bytes) ∧ Carries (extra.getD 0) d.fields as bytes := by
  have hstart := (written_putStart d.mem d.nlh hd.buflen_le hd.extra_fits).fillHeader d.fields
  obtain ⟨calls, m', hall, _, _, hwritten⟩ := hstart.putAll hd.buflen_le hd.payloads
  have hheader := putAll_header hstart hd.buflen_le hd.payloads hall
  obtain ⟨htype, hpid⟩ := fillHeader_fields (putStart d.mem d.nlh extra) d.nlh d.fields
  have hlen := hwritten.len_eq
  rw [List.nil_append] at hwritten hlen
  have hbytes : (m'.load d.nlh (nlmsgLen m' d.nlh)).length = nlmsgLen m' d.nlh :=
    Mem.load_length ..
  refine ⟨accepted calls, m'.load d.nlh (nlmsgLen m' d.nlh), ?_, ?_⟩
  · rw [Draft.compose, hall]
    rfl
  -- What a buffer holds that holds the bytes is what the buffer of the sender holds.
  have hfield : ∀ (m : Mem) (i k : Nat),
      m.load 0 (nlmsgLen m' d.nlh) = m'.load d.nlh (nlmsgLen m' d.nlh) → 4 ≤ i → i + k ≤ 16 → m.loadLe (0 + i) k =
        (Netlink.fillHeader (putStart d.mem d.nlh extra) d.nlh d.fields).loadLe (d.nlh + i) k := by
    intro m i k hm hi hk
    have hpart := Mem.load_part_eq (i := i - 4) (k := k) hheader (by omega)
    rw [show d.nlh + 4 + (i - 4) = d.nlh + i by omega] at hpart
    rw [Mem.loadLe, Mem.loadLe, Mem.load_part_eq hm (by omega), hpart]
  constructor
  · omega
  · rw [hbytes]
    exact hwritten.len_mod
  · intro m hm
    rw [hbytes] at hm
    exact hwritten.moved hd.buflen_le hm
  · intro m hm
    rw [hbytes] at hm ⊢
    exact congrArg leNat (Mem.load_part_eq (i := 0) hm (by omega))
  · intro m hm
    rw [hbytes] at hm
    rw [← htype]
    exact hfield m 4 2 hm (by omega) (by omega)
  · intro m hm
    rw [hbytes] at hm
    rw [← hpid]
    exact hfield m 12 4 hm (by omega) (by omega)

/-! ### Reading back -/

theorem Seen.readAttr {attr : Nat} {p : Put} (h : Seen m attr p) : readAttr m attr = p.seen := by
  rw [Netlink.readAttr, h.type, h.payload_len, h.payload, Put.seen]

theorem map_readAttr {seen : List Nat} (h : List.Forall₂ (Seen m) seen as) :
    seen.map (readAttr m) = as.map Put.seen := by
  induction h with
  | nil => rfl
  | cons ha _ ih => rw [List.map_cons, List.map_cons, ha.readAttr, ih]

/-- **What is carried is read.**  In a buffer that starts with the bytes, a callback finds the
    fields and the attributes, whatever is behind them. -/
theorem Carries.readMessage (h : Carries offset f as bytes) (hm : m.load 0 bytes.length = bytes) :
    (∃ fuel got, readMessage fuel offset m 0 = some got) ∧
      ∀ fuel got, Netlink.readMessage fuel offset m 0 = some got →
        got = ⟨f.type.toNat, as.map Put.seen⟩ := by
  obtain ⟨fuel₀, seen, hparse, hseen⟩ := (h.written m hm).parse le_rfl
  refine ⟨⟨fuel₀, _, by rw [Netlink.readMessage, hparse]; rfl⟩, ?_⟩
  intro fuel got hgot
  obtain ⟨r, hr, rfl⟩ := Option.map_eq_some_iff.mp hgot
  have hsame := (Loop.returns_of_run hr).unique (Loop.returns_of_run hparse)
  rw [hsame, h.type m hm, map_readAttr hseen]

end Sancus.Netlink
