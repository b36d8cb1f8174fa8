import Sancus.Netlink.Parse

namespace Sancus.Netlink

open CModel

/-!
# Netlink — what is put is parsed

A message is started, the typed writers are called in any order, some of the calls
being refused for lack of room, and `sancus_nl_attr_parse` then walks the message.

* `putStart` / `putAll` — the calls that write the message;
* `Written` — the message holds a given list of attributes and nothing else;
* `Written.put` — a call keeps the invariant, with its attribute added if it succeeds;
* `Written.parse` — the loop visits the attributes of the list and stops at the tail;
* `attr_round_trip` — the attributes visited are those of the calls that succeeded.
-/

/-! ### Writing a message -/

/-- The message started by `sancus_nl_msg_put_header`, with an extra header of the given
    size if there is one. -/
def putStart (m : Mem) (nlh : Nat) : Option Nat → Mem
  | none      => sancusNlMsgPutHeader m nlh
  | some size => sancusNlMsgPutExtraHeader (sancusNlMsgPutHeader m nlh) nlh size

/-- A call made on a message: the memory before it, what it returned and the memory after. -/
structure Call where
  before : Mem
  put : Put
  ok : Bool
  after : Mem

/-- Make the calls one after the other; `none` when an assertion fails. -/
def putAll (nlh buflen : Nat) : Mem → List Put → Option (List Call × Mem)
  | m, []      => some ([], m)
  | m, p :: ps => do
    let (ok, m') ← p.run m nlh buflen
    let (calls, m'') ← putAll nlh buflen m' ps
    return (⟨m, p, ok, m'⟩ :: calls, m'')

/-- The attributes of the calls that returned true. -/
def accepted (calls : List Call) : List Put := (calls.filter Call.ok).map Call.put

/-- What one call does: it succeeds exactly when its attribute fits, changes nothing when it
    fails, and keeps the length of the message aligned and inside the buffer. -/
structure Call.Sound (nlh buflen : Nat) (c : Call) : Prop where
  ok_iff : c.ok = true ↔ nlmsgLen c.before nlh + attrSize c.put.payload.length ≤ buflen
  refused : c.ok = false → c.after = c.before
  aligned : nlmsgLen c.after nlh % SANCUS_NL_ALIGNTO = 0
  inside : sizeofNlmsghdr ≤ buflen → nlmsgLen c.after nlh ≤ buflen

/-! ### Reading it back -/

/-- The attribute at `attr` reads as the one `p` put: its masked type, its payload, and the
    value the matching getter returns. -/
structure Seen (m : Mem) (attr : Nat) (p : Put) : Prop where
  type : sancusNlAttrGetType m attr = p.type &&& NLA_TYPE_MASK
  payload_len : sancusNlAttrGetPayloadLen m attr = p.payload.length
  payload : m.load (sancusNlAttrGetPayload attr) p.payload.length = p.payload
  value : p.ReadsBack m attr

/-! ### The invariant -/

variable {m m' : Mem} {nlh buflen pos offset : Nat} {as : List Put} {p : Put}

/-- The bytes a list of attributes takes. -/
def attrsSize (as : List Put) : Nat := (as.map fun p => attrSize p.payload.length).sum

@[simp] theorem attrsSize_nil : attrsSize [] = 0 := rfl

@[simp] theorem attrsSize_cons (p : Put) (as : List Put) :
    attrsSize (p :: as) = attrSize p.payload.length + attrsSize as := by simp [attrsSize]

theorem attrsSize_append (as bs : List Put) :
    attrsSize (as ++ bs) = attrsSize as + attrsSize bs := by
  simp [attrsSize]

theorem attrSize_mod (n : Nat) : attrSize n % 4 = 0 := by rw [attrSize]; omega

theorem le_attrSize (n : Nat) : 4 + n ≤ attrSize n := by rw [attrSize]; omega

/-- The attributes of the list lie one after the other from `pos` on. -/
def AttrsAt (m : Mem) : Nat → List Put → Prop
  | _,   []      => True
  | pos, p :: as =>
    AttrAt m pos p.type p.payload ∧ AttrsAt m (pos + attrSize p.payload.length) as

theorem attrsAt_append {bs : List Put} :
    AttrsAt m pos (as ++ bs) ↔ AttrsAt m pos as ∧ AttrsAt m (pos + attrsSize as) bs := by
  induction as generalizing pos with
  | nil => simp [AttrsAt]
  | cons a as ih => simp [AttrsAt, ih, and_assoc, Nat.add_assoc]

/-- Attributes are still there when their bytes have not changed. -/
theorem AttrsAt.of_load_eq (h : AttrsAt m pos as)
    (heq : ∀ off n, pos ≤ off → off + n ≤ pos + attrsSize as → m'.load off n = m.load off n) :
    AttrsAt m' pos as := by
  induction as generalizing pos with
  | nil => trivial
  | cons a as ih =>
    have hsize := le_attrSize a.payload.length
    rw [attrsSize_cons] at heq
    exact ⟨h.1.of_load_eq fun off n h₁ h₂ => heq off n h₁ (by omega),
      ih h.2 fun off n h₁ h₂ => heq off n (by omega) (by omega)⟩

/-- The message at `nlh` is a header, an extra header of `offset` bytes and the attributes of
    the list, in a buffer of `buflen` bytes that its header may have outgrown. -/
structure Written (m : Mem) (nlh buflen offset : Nat) (as : List Put) : Prop where
  len_eq : nlmsgLen m nlh = 16 + sancusNlAlign offset + attrsSize as
  len_mod : nlmsgLen m nlh % 4 = 0
  len_le : nlmsgLen m nlh ≤ max 16 buflen
  attrs : AttrsAt m (sancusNlMsgGetPayloadOffset nlh offset) as

/-- The tail of a written message is its end. -/
theorem Written.tail (h : Written m nlh buflen offset as) (hbuf : buflen ≤ 65532) :
    sancusNlMsgGetPayloadTail m nlh = nlh + nlmsgLen m nlh := by
  have hle := h.len_le
  rw [sancusNlMsgGetPayloadTail, sancusNlAlign_self (by omega) h.len_mod]

/-- **The start.**  A message just started holds no attribute. -/
theorem written_putStart (m : Mem) (nlh : Nat) {extra : Option Nat} (hbuf : buflen ≤ 65532)
    (hextra : ∀ size ∈ extra, 16 + (size + 3) / 4 * 4 ≤ buflen) :
    Written (putStart m nlh extra) nlh buflen (extra.getD 0) [] := by
  have hhdr := nlmsgLen_putHeader m nlh
  cases extra with
  | none =>
    exact ⟨hhdr, by rw [putStart, hhdr], by rw [putStart, hhdr]; omega, trivial⟩
  | some size =>
    have hfit := hextra size rfl
    have halign := sancusNlAlign_of_le (show size ≤ 65532 by omega)
    have hlen := nlmsgLen_putExtraHeader (sancusNlMsgPutHeader m nlh) nlh size
      (by omega) (by omega)
    rw [hhdr] at hlen
    have hmod := sancusNlAlign_mod size
    exact ⟨hlen, by rw [putStart, hlen]; omega, by rw [putStart, hlen]; omega, trivial⟩

/-! ### The writers keep it -/

/-- A put that passes the check appends its attribute. -/
theorem Written.putNocheck (h : Written m nlh buflen offset as) (hbuf : buflen ≤ 65532)
    {data : Nat → UInt8} (hdata : (Mem.fresh data).load 0 p.payload.length = p.payload)
    (hfit : nlmsgLen m nlh + attrSize p.payload.length ≤ buflen) :
    Written (sancusNlAttrPutNocheck m nlh p.type (UInt16.ofNat p.payload.length) data) nlh buflen
      offset (as ++ [p]) := by
  have hsize := le_attrSize p.payload.length
  have hlen16 : (UInt16.ofNat p.payload.length).toNat = p.payload.length :=
    UInt16.toNat_ofNat_of_lt' (by rw [UInt16.size]; omega)
  have htail := h.tail hbuf
  have h16 : 16 ≤ nlmsgLen m nlh := by have := h.len_eq; omega
  have hnew : nlmsgLen
      (sancusNlAttrPutNocheck m nlh p.type (UInt16.ofNat p.payload.length) data) nlh =
        nlmsgLen m nlh + attrSize p.payload.length := by
    rw [putNocheck_nlmsgLen (by omega), hlen16, sancusNlAlign_of_le (by omega)]
    show (nlmsgLen m nlh + attrSize p.payload.length) % 2 ^ 32 = _
    omega
  have hend : sancusNlMsgGetPayloadOffset nlh offset + attrsSize as =
      sancusNlMsgGetPayloadTail m nlh := by
    rw [payloadOffset_eq, htail, h.len_eq]
    omega
  constructor
  · rw [hnew, h.len_eq, attrsSize_append, attrsSize_cons, attrsSize_nil]
    omega
  · have hmod := attrSize_mod p.payload.length
    have := h.len_mod
    omega
  · omega
  · -- The earlier attributes lie below the tail, where nothing is stored; the new one is there.
    refine attrsAt_append.mpr ⟨?_, ?_, trivial⟩
    · apply h.attrs.of_load_eq
      intro off n h₁ h₂
      rw [payloadOffset_eq] at h₁
      exact load_putNocheck (by omega) (by omega)
    · rw [hend]
      exact putNocheck_attrAt hlen16 hdata (by omega) (by omega)

/-- **Step lemma.**  A call on a written message returns, does what a call should do, and
    leaves a written message with its attribute added when it succeeded. -/
theorem Written.put (h : Written m nlh buflen offset as) (hbuf : buflen ≤ 65532)
    (hpay : p.payload.length ≤ 65532) :
    ∃ ok m', p.run m nlh buflen = some (ok, m') ∧ Call.Sound nlh buflen ⟨m, p, ok, m'⟩ ∧
      Written m' nlh buflen offset (as ++ if ok then [p] else []) := by
  obtain ⟨data, hdata, hrun⟩ := p.run_eq m nlh buflen (by omega)
  have hlen16 : (UInt16.ofNat p.payload.length).toNat = p.payload.length :=
    UInt16.toNat_ofNat_of_lt' (by rw [UInt16.size]; omega)
  have hle := h.len_le
  -- The sum the check compares is the length of the message with the attribute in it.
  have hsum : toUnsigned 32 (nlmsgLen m nlh + SANCUS_NL_ATTR_HDRLEN +
      sancusNlAlign (UInt16.ofNat p.payload.length).toNat) =
        nlmsgLen m nlh + attrSize p.payload.length := by
    rw [hlen16, SANCUS_NL_ATTR_HDRLEN_eq, sancusNlAlign_of_le hpay, toUnsigned_of_lt (by omega),
      attrSize]
    omega
  rw [hrun, sancusNlAttrPutCheck, hsum]
  by_cases hfit : buflen < nlmsgLen m nlh + attrSize p.payload.length
  · -- Refused: the memory is the one before the call.
    refine ⟨false, m, by rw [if_pos hfit], ⟨?_, fun _ => rfl, h.len_mod, ?_⟩, ?_⟩
    · simpa using hfit
    · intro h16
      rw [sizeofNlmsghdr] at h16
      exact le_trans hle (by omega)
    · simpa using h
  · have hnew := h.putNocheck hbuf hdata (by omega)
    refine ⟨true, sancusNlAttrPutNocheck m nlh p.type (UInt16.ofNat p.payload.length) data,
      by rw [if_neg hfit], ⟨?_, ?_, hnew.len_mod, ?_⟩, hnew⟩
    · simpa using hfit
    · intro hok
      exact absurd hok.symm Bool.false_ne_true
    · intro h16
      rw [sizeofNlmsghdr] at h16
      exact le_trans hnew.len_le (by omega)

/-- **Run lemma.**  Any sequence of calls returns, and leaves the attributes of those that
    succeeded. -/
theorem Written.putAll (h : Written m nlh buflen offset as) (hbuf : buflen ≤ 65532)
    {ps : List Put} (hpay : ∀ p ∈ ps, p.payload.length ≤ 65532) :
    ∃ calls m', putAll nlh buflen m ps = some (calls, m') ∧ calls.map Call.put = ps ∧
      (∀ c ∈ calls, c.Sound nlh buflen) ∧
        Written m' nlh buflen offset (as ++ accepted calls) := by
  induction ps generalizing m as with
  | nil => exact ⟨[], m, rfl, rfl, by simp, by simpa [accepted] using h⟩
  | cons p ps ih =>
    obtain ⟨ok, m₁, hrun, hsound, hwritten⟩ := h.put hbuf (hpay p (by simp))
    obtain ⟨calls, m₂, hall, hput, hsounds, hfinal⟩ :=
      ih hwritten fun q hq => hpay q (by simp [hq])
    refine ⟨⟨m, p, ok, m₁⟩ :: calls, m₂, ?_, ?_, ?_, ?_⟩
    · simp [Netlink.putAll, hrun, hall]
    · rw [List.map_cons, hput]
    · intro c hc
      rcases List.mem_cons.mp hc with rfl | hc
      · exact hsound
      · exact hsounds c hc
    · rw [List.append_assoc] at hfinal
      cases ok <;> simpa [accepted] using hfinal

/-! ### The reader finds it -/

theorem AttrAt.seen {attr : Nat} (h : AttrAt m attr p.type p.payload) : Seen m attr p where
  type := h.getType
  payload_len := h.getPayloadLen
  payload := h.load_getPayload
  value := h.readsBack

/-- A round on an attribute that ends before the tail visits it and steps over it. -/
theorem parseRound_attrAt {ret : Int} {visited : List Nat} (h : AttrAt m pos p.type p.payload)
    (hend : pos + attrSize p.payload.length ≤ sancusNlMsgGetPayloadTail m nlh)
    (hmax : sancusNlMsgGetPayloadTail m nlh ≤ pos + 65532) :
    parseRound m nlh (fun _ => SANCUS_NL_CB_OK) ⟨pos, ret, visited⟩ =
      .again ⟨pos + attrSize p.payload.length, SANCUS_NL_CB_OK, visited ++ [pos]⟩ := by
  have hsize := le_attrSize p.payload.length
  obtain ⟨d, hd⟩ := Nat.exists_eq_add_of_le (show pos ≤ sancusNlMsgGetPayloadTail m nlh by omega)
  have hdiff : intToInt32 (sancusNlMsgGetPayloadTail m nlh - pos) = d := by
    rw [show ((sancusNlMsgGetPayloadTail m nlh : Nat) : Int) - pos = d by omega]
    exact intToInt32_of_lt (by omega)
  have hok : sancusNlAttrOk m pos d := by
    rw [sancusNlAttrOk_iff, h.nla_len]
    omega
  have hnext : sancusNlAttrNext m pos = pos + attrSize p.payload.length := by
    rw [sancusNlAttrNext, h.nla_len, sancusNlAlign_of_le (by omega), attrSize]
  have hcb : ¬ SANCUS_NL_CB_OK ≤ SANCUS_NL_CB_STOP := by decide
  unfold parseRound
  rw [hdiff, if_pos hok, if_neg hcb, hnext]

/-- A round at the tail leaves the loop. -/
theorem parseRound_tail {s : ParseState} (h : s.attr = sancusNlMsgGetPayloadTail m nlh)
    {cb : List Nat → Int} : parseRound m nlh cb s = .leave ⟨s.ret, s.visited⟩ := by
  have hdiff : intToInt32 (sancusNlMsgGetPayloadTail m nlh - s.attr) = 0 := by
    rw [h, Int.sub_self]
    rfl
  rw [parseRound, hdiff, if_neg (by simp [sancusNlAttrOk_iff])]

/-- **The loop visits the attributes that are there**, and stops at the tail behind them. -/
theorem parse_attrsAt {visited : List Nat} (h : AttrsAt m pos as)
    (hend : pos + attrsSize as = sancusNlMsgGetPayloadTail m nlh) (hmax : attrsSize as ≤ 65532) :
    ∃ seen, Loop.Returns (parseRound m nlh fun _ => SANCUS_NL_CB_OK)
        ⟨pos, SANCUS_NL_CB_OK, visited⟩ ⟨SANCUS_NL_CB_OK, visited ++ seen⟩ ∧
      List.Forall₂ (Seen m) seen as := by
  -- Induction on the attributes still ahead of the loop.
  induction as generalizing pos visited with
  | nil =>
    refine ⟨[], ?_, .nil⟩
    rw [List.append_nil]
    exact .leave (parseRound_tail hend)
  | cons p as ih =>
    rw [attrsSize_cons] at hend hmax
    obtain ⟨seen, hret, hseen⟩ : ∃ seen,
        Loop.Returns (parseRound m nlh fun _ => SANCUS_NL_CB_OK)
            ⟨pos + attrSize p.payload.length, SANCUS_NL_CB_OK, visited ++ [pos]⟩
            ⟨SANCUS_NL_CB_OK, (visited ++ [pos]) ++ seen⟩ ∧ List.Forall₂ (Seen m) seen as :=
      ih h.2 (by omega) (by omega)
    refine ⟨pos :: seen, ?_, .cons h.1.seen hseen⟩
    rw [List.append_assoc] at hret
    exact .again (parseRound_attrAt h.1 (by omega) (by omega)) hret

/-- Parsing a written message visits its attributes. -/
theorem Written.parse (h : Written m nlh buflen offset as) (hbuf : buflen ≤ 65532) :
    ∃ fuel seen, sancusNlAttrParse fuel m nlh offset (fun _ => SANCUS_NL_CB_OK) =
        some ⟨SANCUS_NL_CB_OK, seen⟩ ∧ List.Forall₂ (Seen m) seen as := by
  have hlen := h.len_eq
  have hle := h.len_le
  have hend : sancusNlMsgGetPayloadOffset nlh offset + attrsSize as =
      sancusNlMsgGetPayloadTail m nlh := by
    rw [payloadOffset_eq, h.tail hbuf]
    omega
  obtain ⟨seen, hret, hseen⟩ : ∃ seen,
      Loop.Returns (parseRound m nlh fun _ => SANCUS_NL_CB_OK) (parseStart nlh offset)
          ⟨SANCUS_NL_CB_OK, seen⟩ ∧ List.Forall₂ (Seen m) seen as :=
    parse_attrsAt h.attrs hend (by omega)
  obtain ⟨fuel, hfuel⟩ := hret.exists_run
  exact ⟨fuel, seen, hfuel, hseen⟩

/-- **The attribute round trip.**  Whatever typed puts are made on a message just started, in
    a buffer of at most 65532 bytes: every call returns, true exactly when its attribute
    fits, and changes nothing when it fails; the length of the message stays aligned and
    inside the buffer; and parsing visits exactly the attributes of the calls that
    returned true, in order, as they were put. -/
theorem attr_round_trip (m : Mem) (nlh buflen : Nat) (extra : Option Nat) (puts : List Put)
    (hbuf : buflen ≤ 65532) (hextra : ∀ size ∈ extra, 16 + (size + 3) / 4 * 4 ≤ buflen)
    (hpay : ∀ p ∈ puts, p.payload.length ≤ 65532) :
    ∃ calls m' fuel seen, putAll nlh buflen (putStart m nlh extra) puts = some (calls, m') ∧
      calls.map Call.put = puts ∧ (∀ c ∈ calls, c.Sound nlh buflen) ∧
        sancusNlAttrParse fuel m' nlh (extra.getD 0) (fun _ => SANCUS_NL_CB_OK) =
            some ⟨SANCUS_NL_CB_OK, seen⟩ ∧
          List.Forall₂ (Seen m') seen (accepted calls) := by
  obtain ⟨calls, m', hall, hput, hsound, hwritten⟩ :=
    (written_putStart m nlh hbuf hextra).putAll hbuf hpay
  obtain ⟨fuel, seen, hparse, hseen⟩ := hwritten.parse hbuf
  exact ⟨calls, m', fuel, seen, hall, hput, hsound, hparse, hseen⟩

/-- The round trip of two puts behind an extra header of 5 bytes, in a buffer that has room
    for the first of them only. -/
theorem attr_round_trip_two :
    ∃ calls m' fuel seen,
      putAll 0 36 (putStart (Mem.fresh fun _ => 0) 0 (some 5)) [.u16 3 7, .u64 4 9] =
          some (calls, m') ∧
        calls.map Call.put = [.u16 3 7, .u64 4 9] ∧ (∀ c ∈ calls, c.Sound 0 36) ∧
          sancusNlAttrParse fuel m' 0 5 (fun _ => SANCUS_NL_CB_OK) =
              some ⟨SANCUS_NL_CB_OK, seen⟩ ∧
            List.Forall₂ (Seen m') seen (accepted calls) :=
  attr_round_trip (Mem.fresh fun _ => 0) 0 36 (some 5) [.u16 3 7, .u64 4 9] (by decide)
    (by simp) (by simp [Put.payload])

end Sancus.Netlink
