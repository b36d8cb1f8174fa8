import Sancus.Buffer.Refinement

namespace Sancus.Buffer

open CModel

/-!
# Buffers — a text built by appends

What a function knows of a local buffer it fills: the bytes in it.  An append that has no room
leaves them as they are, and a formatted one needs room for a NUL.

* `lbuffer` — a buffer with its own storage;
* `Holds` — a buffer of some size holds some bytes;
* `put`, `fill` — the bytes an append leaves, and some appends one after the other;
* `Holds.append`, `Holds.appendf`, … — the operations on what a buffer holds.
-/

/-- `DECL_SANCUS_LBUFFER`. -/
def lbuffer (size : Nat) : SancusBuffer := ⟨Mem.fresh fun _ => 0, 0, 0, size⟩

/-- A buffer of `size` bytes that holds `c`. -/
structure Holds (b : SancusBuffer) (size : Nat) (c : List UInt8) : Prop where
  valid : b.Valid
  size_eq : b.size = size
  contents_eq : b.contents = c

/-- What an append leaves of `c`: `bs` behind it, or nothing if that is more than `room`. -/
def put (room : Nat) (c bs : List UInt8) : List UInt8 :=
  if c.length + bs.length ≤ room then c ++ bs else c

/-- What appends of the pieces leave, one after the other. -/
def fill (room : Nat) (c : List UInt8) (pieces : List (List UInt8)) : List UInt8 :=
  pieces.foldl (put room) c

variable {b : SancusBuffer} {size room : Nat} {c bs : List UInt8} {pieces : List (List UInt8)}

theorem put_fits (h : c.length + bs.length ≤ room) : put room c bs = c ++ bs := if_pos h

theorem put_full (h : room < c.length + bs.length) : put room c bs = c := if_neg (Nat.not_le.mpr h)

theorem prefix_put (room : Nat) (c bs : List UInt8) : c <+: put room c bs := by
  unfold put
  split
  · exact List.prefix_append _ _
  · exact List.prefix_rfl

theorem mem_put {x : UInt8} (h : x ∈ put room c bs) : x ∈ c ∨ x ∈ bs := by
  unfold put at h
  split at h
  · exact List.mem_append.mp h
  · exact .inl h

/-! ### Appends one after the other -/

/-- They have no effect on what is there before. -/
theorem prefix_fill (room : Nat) (c : List UInt8) (pieces : List (List UInt8)) :
    c <+: fill room c pieces := by
  induction pieces generalizing c with
  | nil => exact List.prefix_rfl
  | cons p pieces ih => exact (prefix_put room c p).trans (ih _)

/-- They add bytes of the pieces only. -/
theorem mem_fill {x : UInt8} (h : x ∈ fill room c pieces) : x ∈ c ∨ ∃ p ∈ pieces, x ∈ p := by
  induction pieces generalizing c with
  | nil => exact .inl h
  | cons p pieces ih =>
    rcases ih h with hc | ⟨p', hp', hx⟩
    · rcases mem_put hc with hx | hx
      · exact .inl hx
      · exact .inr ⟨p, List.mem_cons_self, hx⟩
    · exact .inr ⟨p', List.mem_cons_of_mem _ hp', hx⟩

/-- All of the pieces are appended if there is room for them. -/
theorem fill_fits (h : c.length + pieces.flatten.length ≤ room) :
    fill room c pieces = c ++ pieces.flatten := by
  induction pieces generalizing c with
  | nil => rw [List.flatten_nil, List.append_nil, fill, List.foldl_nil]
  | cons p pieces ih =>
    rw [List.flatten_cons, List.length_append] at h
    rw [fill, List.foldl_cons, put_fits (by omega), List.flatten_cons, ← List.append_assoc]
    exact ih (by rw [List.length_append]; omega)

/-- Pieces of one length are appended as long as there is room for one more. -/
theorem length_fill {k : Nat} (hk : 0 < k) (hlen : ∀ p ∈ pieces, p.length = k)
    (hc : c.length ≤ room) :
    (fill room c pieces).length = c.length + k * min pieces.length ((room - c.length) / k) := by
  induction pieces generalizing c with
  | nil => simp [fill]
  | cons p pieces ih =>
    have hp := hlen p List.mem_cons_self
    have hrest : ∀ p ∈ pieces, p.length = k := fun p hp => hlen p (List.mem_cons_of_mem _ hp)
    rw [fill, List.foldl_cons]
    by_cases hroom : c.length + p.length ≤ room
    · rw [put_fits hroom]
      have hadd : (c ++ p).length = c.length + k := by rw [List.length_append, hp]
      have hdiv : (room - c.length) / k = (room - (c.length + k)) / k + 1 := by
        rw [← Nat.add_div_right _ hk]
        congr 1
        omega
      have h := ih hrest (show (c ++ p).length ≤ room by rw [hadd]; omega)
      rw [hadd] at h
      rw [show (List.foldl (put room) (c ++ p) pieces).length = _ from h, hdiv, List.length_cons,
        Nat.add_min_add_right, Nat.mul_add]
      omega
    · have hzero : (room - c.length) / k = 0 := Nat.div_eq_of_lt (by omega)
      have h := ih hrest hc
      rw [put_full (by omega), show (List.foldl (put room) c pieces).length = _ from h, hzero,
        Nat.min_zero, Nat.min_zero]

/-- Single bytes are appended as far as there is room. -/
theorem fill_singles (xs : List UInt8) (hc : c.length ≤ room) :
    fill room c (xs.map fun x => [x]) = c ++ xs.take (room - c.length) := by
  induction xs generalizing c with
  | nil => rw [List.take_nil, List.append_nil, fill, List.map_nil, List.foldl_nil]
  | cons x xs ih =>
    rw [fill, List.map_cons, List.foldl_cons]
    by_cases hroom : c.length + [x].length ≤ room
    · have hone : (c ++ [x]).length = c.length + 1 := List.length_append
      rw [List.length_singleton] at hroom
      have h := ih (show (c ++ [x]).length ≤ room by omega)
      have hsucc : room - c.length = room - (c.length + 1) + 1 := by omega
      rw [put_fits hroom, show List.foldl (put room) (c ++ [x]) _ = _ from h, hone, hsucc,
        List.take_succ_cons, List.append_assoc]
      rfl
    · have hzero : room - c.length = 0 := by
        rw [List.length_singleton] at hroom
        omega
      have h := ih hc
      rw [put_full (by omega), show List.foldl (put room) c _ = _ from h, hzero]
      rfl

/-! ### Buffers -/

theorem holds_lbuffer (hpos : 0 < size) (hlt : size < 2 ^ 32) : Holds (lbuffer size) size [] :=
  ⟨⟨rfl, Nat.zero_le _, hpos, hlt⟩, rfl, rfl⟩

namespace Holds

theorem length_eq (h : Holds b size c) : b.len = c.length := by
  rw [← contents_length, h.contents_eq]

theorem length_le (h : Holds b size c) : c.length ≤ size := by
  have hle := h.valid.len_le
  rwa [h.length_eq, h.size_eq] at hle

theorem tailSize_eq (h : Holds b size c) : sancusBufferTailSize b = size - c.length := by
  rw [Buffer.tailSize_eq h.valid, h.size_eq, h.length_eq]

/-- What is known of a call in terms of the model. -/
theorem of_gives {r : Int × SancusBuffer} {out : Int × List UInt8} (h : Holds b size c)
    (hr : Gives b r out) : r.1 = out.1 ∧ Holds r.2 size out.2 :=
  ⟨hr.ret, hr.valid, hr.size.trans h.size_eq, hr.contents⟩

/-- An append of bytes. -/
theorem append (h : Holds b size c) (bs : List UInt8) :
    (sancusBufferAppend b false (some (.ofBytes bs)) bs.length).1 =
        (if c.length + bs.length ≤ size then (bs.length : Int) else -ENOBUFS) ∧
      Holds (sancusBufferAppend b false (some (.ofBytes bs)) bs.length).2 size (put size c bs) := by
  have hle := h.length_le
  have harg : argBytes (.ofBytes bs) bs.length = bs := by
    rw [argBytes, if_neg (by omega), Int.toNat_natCast, CString.read_ofBytes]
  have hgives := h.of_gives (append_refines h.valid false (.ofBytes bs) bs.length)
  rw [harg, h.size_eq, h.length_eq, h.contents_eq, modelAppend] at hgives
  unfold put
  by_cases hfit : c.length + bs.length ≤ size
  · rw [if_pos hfit, if_pos hfit]
    rwa [if_pos (show bs.length ≤ size - c.length by omega)] at hgives
  · rw [if_neg hfit, if_neg hfit]
    rwa [if_neg (show ¬ bs.length ≤ size - c.length by omega), if_neg (by decide)] at hgives

/-- A formatted append. -/
theorem appendf (h : Holds b size c) (bs : List UInt8) :
    (sancusBufferAppendf b false (.text bs)).1 =
        (if c.length + bs.length ≤ size - 1 then (bs.length : Int) else -ENOBUFS) ∧
      Holds (sancusBufferAppendf b false (.text bs)).2 size (put (size - 1) c bs) := by
  have hle := h.length_le
  have hpos := h.valid.size_pos
  rw [h.size_eq] at hpos
  have hgives := h.of_gives (appendv_refines h.valid false (.text bs))
  rw [h.size_eq, h.length_eq, h.contents_eq, modelFormat, modelAppend] at hgives
  unfold put
  show (sancusBufferAppendv b false (.text bs)).1 = _ ∧
    Holds (sancusBufferAppendv b false (.text bs)).2 _ _
  by_cases hfit : c.length + bs.length ≤ size - 1
  · rw [if_pos hfit, if_pos hfit]
    rwa [if_neg (show ¬ size - c.length = 0 by omega),
      if_pos (show bs.length ≤ size - c.length - 1 by omega)] at hgives
  · rw [if_neg hfit, if_neg hfit]
    by_cases htail : size - c.length = 0
    · rwa [if_pos htail] at hgives
    · rwa [if_neg htail, if_neg (show ¬ bs.length ≤ size - c.length - 1 by omega),
        if_neg (by decide)] at hgives

theorem append_put (h : Holds b size c) (bs : List UInt8) :
    Holds (sancusBufferAppend b false (some (.ofBytes bs)) bs.length).2 size (put size c bs) :=
  (h.append bs).2

theorem appendf_put (h : Holds b size c) (bs : List UInt8) :
    Holds (sancusBufferAppendf b false (.text bs)).2 size (put (size - 1) c bs) :=
  (h.appendf bs).2

/-- An append of a string. -/
theorem appendz_put (h : Holds b size c) (s : CString) :
    Holds (sancusBufferAppendz b false (some s)).2 size (put size c s.bytes) := by
  have hle := h.length_le
  have hgives := (h.of_gives (append_refines h.valid false s s.strlen)).2
  rw [argBytes_strlen, h.size_eq, h.length_eq, h.contents_eq, modelAppend] at hgives
  unfold put
  by_cases hfit : c.length + s.bytes.length ≤ size
  · rw [if_pos hfit]
    rwa [if_pos (show s.bytes.length ≤ size - c.length by omega)] at hgives
  · rw [if_neg hfit]
    rwa [if_neg (show ¬ s.bytes.length ≤ size - c.length by omega),
      if_neg Bool.false_ne_true] at hgives

/-- A format that fails. -/
theorem appendv_error (h : Holds b size c) (code : Nat) (left : List UInt8) :
    (sancusBufferAppendv b true (.error code left)).1 < 0 := by
  rw [(h.of_gives (appendv_refines h.valid true (.error code left))).1, modelFormat]
  split_ifs
  · exact (by decide : -ENOBUFS < 0)
  · exact Int.neg_neg_of_pos (by omega)

/-- A formatted text that is cut to the room there is, if there is room for a NUL. -/
theorem appendv_cut (h : Holds b size c) (bs : List UInt8) :
    if c.length < size then
      0 ≤ (sancusBufferAppendv b true (.text bs)).1 ∧
        Holds (sancusBufferAppendv b true (.text bs)).2 size (c ++ bs.take (size - 1 - c.length))
    else (sancusBufferAppendv b true (.text bs)).1 < 0 := by
  have hgives := h.of_gives (appendv_refines h.valid true (.text bs))
  rw [h.size_eq, h.length_eq, h.contents_eq, modelFormat] at hgives
  by_cases hroom : c.length < size
  · rw [if_pos hroom]
    rw [if_neg (by omega), modelAppend,
      show size - c.length - 1 = size - 1 - c.length by omega] at hgives
    by_cases hfit : bs.length ≤ size - 1 - c.length
    · rw [if_pos hfit] at hgives
      rw [List.take_of_length_le hfit, hgives.1]
      exact ⟨Int.natCast_nonneg _, hgives.2⟩
    · rw [if_neg hfit, if_pos rfl] at hgives
      rw [hgives.1]
      exact ⟨Int.natCast_nonneg _, hgives.2⟩
  · rw [if_neg hroom]
    rw [if_pos (by omega)] at hgives
    rw [hgives.1]
    exact (by decide : -ENOBUFS < 0)

/-- `sancus_buffer_stripany` takes the bytes of a set off the end. -/
theorem stripany (h : Holds b size c) (chars : CString) :
    Holds (sancusBufferStripany b (some chars)).2 size (c.rdropWhile chars.bytes.contains) := by
  have hgives := (h.of_gives (stripany_refines h.valid chars)).2
  rwa [h.contents_eq, modelStripany] at hgives

/-- `sancus_buffer_stripn` takes bytes off the end. -/
theorem stripn (h : Holds b size c) (n : Nat) :
    Holds (sancusBufferStripn b n).2 size (c.take (c.length - n)) := by
  have hgives := (h.of_gives (stripn_refines h.valid n)).2
  rwa [h.contents_eq, h.length_eq] at hgives

/-- `sancus_buffer_reset` leaves nothing. -/
theorem reset (h : Holds b size c) : Holds (sancusBufferTruncate b 0).2 size [] :=
  (h.of_gives (truncate_refines h.valid 0)).2

end Holds

end Sancus.Buffer
