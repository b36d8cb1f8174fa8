import Sancus.Buffer.Model
import Mathlib.Data.List.DropRight

namespace Sancus.Buffer

open CModel

/-!
# Buffers — a bounded byte string

What the operations are for: the contents are a list of bytes that grows and shrinks at its
end, up to the size of the storage.  The operations of the model are a refinement of
that, over any sequence of calls.

* `Model` — the calls on lists of bytes, with the values they return;
* `append_refines`, `strip_refines`, … — the operations, one by one;
* `run_refines` — the step lemma: a call refines the model and keeps the invariant, unless
  it appends from a null pointer with a negative length;
* `buffer_refines_iff` — a run refines the model exactly when it makes no such call.
-/

/-! ### The model on byte lists -/

/-- The bytes an argument stands for: the first `l`, or the string when `l` is negative. -/
def argBytes (s : CString) (l : Int) : List UInt8 := if l < 0 then s.bytes else s.read l.toNat

theorem argBytes_strlen (s : CString) : argBytes s s.strlen = s.bytes := by
  rw [argBytes, if_neg (by omega), Int.toNat_natCast, CString.bytes]

/-- Append to `c` with `tail` bytes of room: all, or what fits, or nothing. -/
def modelAppend (tail : Nat) (trunc : Bool) (c bytes : List UInt8) : Int × List UInt8 :=
  if bytes.length ≤ tail then (bytes.length, c ++ bytes)
  else if trunc then (tail, c ++ bytes.take tail)
  else (-ENOBUFS, c)

/-- Append a formatted text, one byte of the room being kept for the terminator. -/
def modelFormat (tail : Nat) (trunc : Bool) (c : List UInt8) : Formatted → Int × List UInt8
  | .text bytes   => if tail = 0 then (-ENOBUFS, c) else modelAppend (tail - 1) trunc c bytes
  | .error code _ => if tail = 0 then (-ENOBUFS, c) else (-(code + 1), c)

/-- Remove a suffix, when it is one. -/
def modelStrip (c suffix : List UInt8) : Int × List UInt8 :=
  if suffix <:+ c then (suffix.length, c.take (c.length - suffix.length)) else (0, c)

/-- Remove the maximal trailing run of bytes from a set. -/
def modelStripany (c set : List UInt8) : Int × List UInt8 :=
  (c.length - (c.rdropWhile set.contains).length, c.rdropWhile set.contains)

/-- Remove the last byte, when it is from a set. -/
def modelStriponce (c set : List UInt8) : Int × List UInt8 :=
  if c.getLast?.any set.contains then (1, c.dropLast) else (0, c)

/-- A null pointer: an error where bytes are asked for, nothing otherwise. -/
def modelNull (c : List UInt8) (l : Int) : Int × List UInt8 :=
  if 0 < l then (-EINVAL, c) else (0, c)

/-- The value a call returns and the contents it leaves, in a buffer of `size` bytes whose
    contents are `c`.  Only `sparse` leaves bytes the model does not know. -/
def Model (size : Nat) (c : List UInt8) : Op → Int × List UInt8 → Prop
  | .append trunc s l, r    =>
    r = match s with
      | none   => modelNull c l
      | some s => modelAppend (size - c.length) trunc c (argBytes s l)
  | .appendz trunc s, r     =>
    r = match s with
      | none   => (0, c)
      | some s => modelAppend (size - c.length) trunc c s.bytes
  | .appendf trunc fmt, r   => r = modelFormat (size - c.length) trunc c fmt
  | .appendv trunc fmt, r   => r = modelFormat (size - c.length) trunc c fmt
  | .sparse n, r            =>
    if n ≤ size - c.length then
      r.1 = n ∧ ∃ exposed : List UInt8, exposed.length = n ∧ r.2 = c ++ exposed
    else r = (-EINVAL, c)
  | .strip s l, r           =>
    r = match s with
      | none   => modelNull c l
      | some s => modelStrip c (argBytes s l)
  | .stripz s, r            =>
    r = match s with
      | none   => (0, c)
      | some s => modelStrip c s.bytes
  | .striponce chars, r     =>
    r = match chars with
      | none       => (0, c)
      | some chars => modelStriponce c chars.bytes
  | .stripany chars, r      =>
    r = match chars with
      | none       => (0, c)
      | some chars => modelStripany c chars.bytes
  | .stripn n, r            => r = (((c.take (c.length - n)).length : Int), c.take (c.length - n))
  | .truncate n, r          => r = (((c.take n).length : Int), c.take n)

/-! ### Changing the counters and the storage -/

variable {b : SancusBuffer}

/-- A call gave `r`: the value and the contents are `out`, and the buffer is valid and of the
    same size. -/
structure Gives (b : SancusBuffer) (r : Int × SancusBuffer) (out : Int × List UInt8) : Prop where
  ret : r.1 = out.1
  contents : r.2.contents = out.2
  valid : r.2.Valid
  size : r.2.size = b.size

/-- A call that changes nothing. -/
theorem gives_self (h : b.Valid) (ret : Int) : Gives b (ret, b) (ret, b.contents) :=
  ⟨rfl, rfl, h, rfl⟩

/-- Dropping bytes from the end, the storage behind what is left being free to change. -/
theorem gives_shorter (h : b.Valid) {buf : Mem} {k : Nat} (hk : k ≤ b.len) (ret : Int)
    (hbuf : buf.load b.base k = b.buf.load b.base k) :
    Gives b (ret, { b with buf := buf, len := k }) (ret, b.contents.take k) where
  ret := rfl
  contents := by
    show buf.load b.base k = _
    rw [hbuf]
    exact (b.buf.load_take hk).symm
  valid := ⟨h.base_eq, le_trans hk h.len_le, h.size_pos, h.size_lt⟩
  size := rfl

/-- Adding what the storage has at the tail, the storage below it being unchanged. -/
theorem gives_longer (h : b.Valid) {buf : Mem} {k : Nat} {bytes : List UInt8}
    (hk : k ≤ b.size - b.len) (ret : Int) (hkeep : buf.load b.base b.len = b.contents)
    (hbytes : buf.load (b.base + b.len) k = bytes) :
    Gives b (ret, { b with buf := buf, len := b.len + k }) (ret, b.contents ++ bytes) where
  ret := rfl
  contents := by
    show buf.load b.base (b.len + k) = _
    rw [Mem.load_add, hkeep, hbytes]
  valid := ⟨h.base_eq, by have := h.len_le; show b.len + k ≤ b.size; omega, h.size_pos, h.size_lt⟩
  size := rfl

/-- Storing behind the contents only. -/
theorem gives_scribble (h : b.Valid) {buf : Mem} (ret : Int)
    (hkeep : buf.load b.base b.len = b.contents) :
    Gives b (ret, { b with buf := buf }) (ret, b.contents) :=
  ⟨rfl, hkeep, ⟨h.base_eq, h.len_le, h.size_pos, h.size_lt⟩, rfl⟩

/-! ### Strip -/

/-- The scan over a set counts the bytes of the maximal trailing run. -/
theorem stripcharScan_many (b : SancusBuffer) (set : List UInt8) (k count : Nat) :
    stripcharScan b true set k count =
      count + (k - ((b.buf.load b.base k).rdropWhile set.contains).length) := by
  induction k generalizing count with
  | zero => simp [stripcharScan]
  | succ k ih =>
    -- The scan goes backwards, so its first byte is the last one of the run.
    have hlast : b.buf.load b.base (k + 1) = b.buf.load b.base k ++ [b.buf.byte (b.base + k)] :=
      b.buf.load_add b.base k 1
    have hle : ((b.buf.load b.base k).rdropWhile set.contains).length ≤ k := by
      have := (List.rdropWhile_prefix set.contains (l := b.buf.load b.base k)).length_le
      rwa [Mem.load_length] at this
    rw [stripcharScan, hlast, List.rdropWhile_concat]
    by_cases hmem : set.contains (b.buf.byte (b.base + k)) = true
    · rw [if_pos hmem, if_pos rfl, if_pos hmem, ih]
      omega
    · rw [if_neg hmem, if_neg hmem]
      simp

/-- The scan for one byte looks at the last one. -/
theorem stripcharScan_once (b : SancusBuffer) (set : List UInt8) (k : Nat) :
    stripcharScan b false set k 0 =
      if (b.buf.load b.base k).getLast?.any set.contains then 1 else 0 := by
  cases k with
  | zero => rfl
  | succ k =>
    have hlast : b.buf.load b.base (k + 1) = b.buf.load b.base k ++ [b.buf.byte (b.base + k)] :=
      b.buf.load_add b.base k 1
    rw [stripcharScan, hlast]
    simp

theorem stripcharScan_nil (b : SancusBuffer) (many : Bool) (k count : Nat) :
    stripcharScan b many [] k count = count := by
  cases k <;> rfl

/-- With a negative length the set is the string, and an empty one removes nothing. -/
theorem stripchar_neg (b : SancusBuffer) (many : Bool) (chars : CString) :
    sancusBufferStripchar b many (some chars) (-1) =
      (((stripcharScan b many chars.bytes b.len 0 : Nat) : Int),
        { b with len := b.len - stripcharScan b many chars.bytes b.len 0 }) := by
  have hl : (if (-1 : Int) < 0 then (chars.strlen : Int) else -1) = chars.strlen := rfl
  unfold sancusBufferStripchar
  dsimp only
  rw [hl, Int.toNat_natCast]
  by_cases hlen : chars.strlen = 0
  · have hnil : chars.bytes = [] := List.length_eq_zero_iff.mp (by rw [CString.bytes_length, hlen])
    rw [if_neg (by omega), hnil, stripcharScan_nil]
    rfl
  · rw [if_pos (by omega)]
    rfl

/-- Dropping the last `n` bytes and returning how many. -/
theorem gives_drop (h : b.Valid) (n : Nat) :
    Gives b ((n : Int), { b with len := b.len - n }) ((n : Int), b.contents.take (b.len - n)) :=
  gives_shorter h (Nat.sub_le _ _) n rfl

theorem stripany_refines (h : b.Valid) (chars : CString) :
    Gives b (sancusBufferStripany b (some chars)) (modelStripany b.contents chars.bytes) := by
  have hprefix := List.rdropWhile_prefix chars.bytes.contains (l := b.contents)
  have hle : (b.contents.rdropWhile chars.bytes.contains).length ≤ b.len := by
    have := hprefix.length_le
    rwa [contents_length] at this
  have hcount : stripcharScan b true chars.bytes b.len 0 =
      b.len - (b.contents.rdropWhile chars.bytes.contains).length := by
    rw [stripcharScan_many, Nat.zero_add]
    rfl
  have hmodel : modelStripany b.contents chars.bytes =
      (((stripcharScan b true chars.bytes b.len 0 : Nat) : Int),
        b.contents.take (b.len - stripcharScan b true chars.bytes b.len 0)) := by
    rw [hcount, Nat.sub_sub_self hle, ← List.prefix_iff_eq_take.mp hprefix, modelStripany,
      contents_length, Int.ofNat_sub hle]
  rw [sancusBufferStripany, stripchar_neg, hmodel]
  exact gives_drop h _

theorem striponce_refines (h : b.Valid) (chars : CString) :
    Gives b (sancusBufferStriponce b (some chars)) (modelStriponce b.contents chars.bytes) := by
  have hcount : stripcharScan b false chars.bytes b.len 0 =
      if b.contents.getLast?.any chars.bytes.contains then 1 else 0 :=
    stripcharScan_once b chars.bytes b.len
  rw [sancusBufferStriponce, stripchar_neg, hcount, modelStriponce]
  by_cases hlast : b.contents.getLast?.any chars.bytes.contains = true
  · rw [if_pos hlast, if_pos hlast, List.dropLast_eq_take, contents_length]
    exact gives_drop h 1
  · rw [if_neg hlast, if_neg hlast]
    exact gives_self h 0

/-- Stripping `l` bytes compares the last `l`, and leaves a NUL in their place. -/
theorem strip_refines (h : b.Valid) (s : CString) (l : Int) :
    Gives b (sancusBufferStrip b (some s) l) (modelStrip b.contents (argBytes s l)) := by
  -- The length the code settles on, and the bytes it stands for.
  obtain ⟨n, hl, hbytes⟩ : ∃ n : Nat, (if l < 0 then (s.strlen : Int) else l) = n ∧
      argBytes s l = s.read n := by
    unfold argBytes
    by_cases hneg : l < 0
    · exact ⟨s.strlen, if_pos hneg, if_pos hneg⟩
    · exact ⟨l.toNat, by rw [if_neg hneg]; omega, if_neg hneg⟩
  have hsuffix : s.read n <:+ b.contents ↔ s.read n = b.contents.drop (b.len - n) := by
    rw [List.suffix_iff_eq_drop, CString.read_length, contents_length]
  unfold sancusBufferStrip modelStrip
  dsimp only
  rw [hl, hbytes, Int.toNat_natCast, CString.read_length, contents_length]
  by_cases hroom : n ≤ b.len
  · have hdrop : b.contents.drop (b.len - n) = b.buf.load (b.base + (b.len - n)) n := by
      have := b.buf.load_drop_take b.base (show b.len - n + n ≤ b.len by omega)
      rw [← this]
      exact (List.take_of_length_le (by simp; omega)).symm
    rw [hdrop] at hsuffix
    by_cases hpos : 0 < (n : Int) ∧ n ≤ b.len
    · rw [if_pos hpos]
      by_cases heq : b.buf.load (b.base + (b.len - n)) n = s.read n
      · rw [if_pos heq, if_pos (hsuffix.mpr heq.symm)]
        exact gives_shorter h (Nat.sub_le _ _) n (Mem.load_store_of_disjoint _ (by omega))
      · rw [if_neg heq, if_neg fun hs => heq (hsuffix.mp hs).symm]
        exact gives_self h 0
    · -- The empty suffix is always there, and nothing is removed.
      obtain rfl : n = 0 := by omega
      rw [if_neg hpos, if_pos (hsuffix.mpr rfl), Nat.sub_zero, List.take_of_length_le (by simp)]
      exact gives_self h 0
  · have hno : ¬ s.read n <:+ b.contents := by
      intro hs
      have hle := hs.length_le
      rw [CString.read_length, contents_length] at hle
      exact hroom hle
    rw [if_neg (by omega), if_neg hno]
    exact gives_self h 0

/-! ### Cut -/

/-- Ending the contents at `k` bytes, with a NUL behind them. -/
theorem terminate_gives (h : b.Valid) {k : Nat} (hk : k ≤ b.len) :
    Gives b (terminate { b with len := k })
      (((b.contents.take k).length : Int), b.contents.take k) := by
  rw [List.length_take, contents_length, Nat.min_eq_left hk]
  exact gives_shorter h hk k (Mem.load_store_of_disjoint _ (by show _ ∨ _; simp))

/-- The base of a valid buffer is where a reset puts it. -/
theorem base_reset (h : b.Valid) (len : Nat) :
    ({ b with base := 0, len := len } : SancusBuffer) = { b with len := len } := by
  rw [← h.base_eq]

/-- A truncate cuts at `n`, or at the end. -/
theorem truncate_eq (h : b.Valid) (n : Nat) :
    sancusBufferTruncate b n = terminate { b with len := min n b.len } := by
  have hcut : (if n < b.len then { b with len := n } else b) = { b with len := min n b.len } := by
    by_cases hn : n < b.len
    · rw [if_pos hn, Nat.min_eq_left (by omega)]
    · rw [if_neg hn, Nat.min_eq_right (by omega)]
  have hbase : (if min n b.len = 0 then { b with base := 0, len := min n b.len }
      else { b with len := min n b.len }) = { b with len := min n b.len } := by
    rw [base_reset h, ite_self]
  unfold sancusBufferTruncate
  dsimp only
  rw [hcut]
  exact congrArg terminate hbase

/-- A stripn cuts `n` bytes before the end, or at the head. -/
theorem stripn_eq (h : b.Valid) (n : Nat) :
    sancusBufferStripn b n = terminate { b with len := b.len - n } := by
  have hcut : (if n < b.len then { b with len := b.len - n } else { b with base := 0, len := 0 }) =
      { b with len := b.len - n } := by
    by_cases hn : n < b.len
    · rw [if_pos hn]
    · rw [if_neg hn, base_reset h, Nat.sub_eq_zero_of_le (Nat.le_of_not_lt hn)]
  rw [sancusBufferStripn, hcut]

theorem truncate_refines (h : b.Valid) (n : Nat) :
    Gives b (sancusBufferTruncate b n)
      (((b.contents.take n).length : Int), b.contents.take n) := by
  have htake : b.contents.take n = b.contents.take (min n b.len) := by
    rw [← contents_length, List.take_eq_take_min]
  rw [truncate_eq h, htake]
  exact terminate_gives h (Nat.min_le_right _ _)

theorem stripn_refines (h : b.Valid) (n : Nat) :
    Gives b (sancusBufferStripn b n)
      (((b.contents.take (b.len - n)).length : Int), b.contents.take (b.len - n)) := by
  rw [stripn_eq h]
  exact terminate_gives h (Nat.sub_le _ _)

/-! ### Append -/

/-- Copying `k` bytes to the tail, when there are any. -/
theorem gives_copy (h : b.Valid) {k : Nat} (hk : k ≤ b.size - b.len) (src : Nat → UInt8) :
    Gives b (if 0 < (k : Int) then
        ((k : Int), { b with buf := b.buf.memcpy (b.base + b.len) src k, len := b.len + k })
      else ((k : Int), b))
      ((k : Int), b.contents ++ (Mem.fresh src).load 0 k) := by
  by_cases hpos : 0 < (k : Int)
  · rw [if_pos hpos]
    exact gives_longer h hk k (Mem.load_memcpy_of_disjoint _ (by omega))
      (Mem.load_memcpy_self _ _ _ _)
  · obtain rfl : k = 0 := by omega
    rw [if_neg hpos]
    exact ⟨rfl, (List.append_nil _).symm, h, rfl⟩

/-- Appending `n` bytes. -/
theorem appendBytes_gives (h : b.Valid) (trunc : Bool) (src : Nat → UInt8) (n : Nat) :
    Gives b (appendBytes b trunc src n)
      (modelAppend (b.size - b.len) trunc b.contents ((Mem.fresh src).load 0 n)) := by
  unfold appendBytes modelAppend
  dsimp only
  rw [tailSize_eq h, Mem.load_length]
  by_cases hfit : n ≤ b.size - b.len
  · have hclip : (n : Int) ≤ ((b.size - b.len : Nat) : Int) := by omega
    simp only [if_pos hclip, if_pos hfit, Int.toNat_natCast]
    exact gives_copy h hfit src
  · have hclip : ¬ (n : Int) ≤ ((b.size - b.len : Nat) : Int) := by omega
    simp only [if_neg hclip, if_neg hfit]
    cases trunc with
    | true =>
      -- The tail is filled with the first bytes of the source.
      simp only [if_true, Int.toNat_natCast]
      rw [Mem.load_take _ (by omega)]
      exact gives_copy h (le_refl _) src
    | false =>
      have hneg : ¬ 0 < -ENOBUFS := by decide
      simp only [Bool.false_eq_true, if_false, if_neg hneg]
      exact gives_self h _

theorem append_refines (h : b.Valid) (trunc : Bool) (s : CString) (l : Int) :
    Gives b (sancusBufferAppend b trunc (some s) l)
      (modelAppend (b.size - b.len) trunc b.contents (argBytes s l)) := by
  unfold sancusBufferAppend argBytes
  dsimp only
  by_cases hneg : l < 0
  · rw [if_pos hneg, if_pos hneg]
    exact appendBytes_gives h trunc s.byte s.strlen
  · obtain ⟨n, rfl⟩ := Int.eq_ofNat_of_zero_le (Int.not_lt.mp hneg)
    rw [if_neg hneg, if_neg hneg]
    exact appendBytes_gives h trunc s.byte n

/-- What `vsnprintf` leaves below the place it writes to is unchanged. -/
theorem vsnprintf_keeps {m : Mem} {dst l : Nat} (fmt : Formatted) {off n : Nat}
    (h : off + n ≤ dst) : (vsnprintf m dst l fmt).2.load off n = m.load off n := by
  cases fmt with
  | text bytes => exact Mem.load_store_of_disjoint _ (.inl h)
  | error code left => exact Mem.load_store_of_disjoint _ (.inl h)

/-- At that place it leaves the text, as far as the room goes with a byte for the NUL. -/
theorem vsnprintf_text (m : Mem) (dst : Nat) {l : Nat} (bytes : List UInt8) {k : Nat}
    (hk : k ≤ bytes.length) (hl : k < l) :
    (vsnprintf m dst l (.text bytes)).2.load dst k = bytes.take k := by
  have hstore := m.load_store_self dst (bytes.take (l - 1) ++ [0])
  have hlen : k ≤ (bytes.take (l - 1) ++ [0]).length := by
    rw [List.length_append, List.length_take]
    omega
  show (m.store dst (bytes.take (l - 1) ++ [0])).load dst k = _
  rw [← Mem.load_take _ hlen, hstore, List.take_append_of_le_length (by simp; omega),
    List.take_take, Nat.min_eq_left (by omega)]

/-- A formatted append stores what `vsnprintf` leaves of the text, and a NUL behind it. -/
theorem appendv_refines (h : b.Valid) (trunc : Bool) (fmt : Formatted) :
    Gives b (sancusBufferAppendv b trunc fmt)
      (modelFormat (b.size - b.len) trunc b.contents fmt) := by
  have hkeep : (vsnprintf b.buf (b.base + b.len) (b.size - b.len) fmt).2.load b.base b.len =
      b.contents := vsnprintf_keeps fmt (le_refl _)
  unfold sancusBufferAppendv
  dsimp only
  rw [tailSize_eq h, Int.toNat_natCast]
  by_cases hroom : 0 < ((b.size - b.len : Nat) : Int)
  · rw [if_pos hroom]
    have htail : b.size - b.len ≠ 0 := by omega
    cases fmt with
    | text bytes =>
      have hret : (vsnprintf b.buf (b.base + b.len) (b.size - b.len) (.text bytes)).1 =
          bytes.length := rfl
      rw [modelFormat, if_neg htail, modelAppend, hret]
      by_cases hfit : bytes.length ≤ b.size - b.len - 1
      · rw [if_pos (by omega), if_pos hfit]
        have htext := vsnprintf_text b.buf (b.base + b.len) bytes (le_refl _)
          (show bytes.length < b.size - b.len by omega)
        rw [List.take_length] at htext
        exact gives_longer h (by omega) _ hkeep htext
      · rw [if_neg (by omega), if_neg hfit]
        cases trunc with
        | true =>
          -- The NUL stored once more lies right behind what is kept of the text.
          have hpred : ((b.size - b.len : Nat) : Int) - 1 = ((b.size - b.len - 1 : Nat) : Int) := by
            omega
          rw [if_pos rfl, if_pos rfl, hpred, Int.toNat_natCast]
          refine gives_longer h (by omega) _ ?_ ?_
          · rw [Mem.load_store_of_disjoint _ (by omega)]
            exact hkeep
          · rw [Mem.load_store_of_disjoint _ (by omega)]
            exact vsnprintf_text _ _ bytes (by omega) (by omega)
        | false =>
          rw [if_neg (by decide), if_neg (by decide)]
          exact gives_scribble h _ hkeep
    | error code left =>
      -- A negative return adds nothing, whatever bytes it has left behind the contents.
      have hret : (vsnprintf b.buf (b.base + b.len) (b.size - b.len) (.error code left)).1 =
          -(code + 1) := rfl
      rw [modelFormat, if_neg htail, hret, if_pos (by omega), Int.toNat_of_nonpos (by omega)]
      exact gives_scribble h _ hkeep
  · have htail : b.size - b.len = 0 := by omega
    rw [if_neg hroom]
    cases fmt with
    | text bytes =>
      rw [modelFormat, if_pos htail]
      exact gives_self h _
    | error code left =>
      rw [modelFormat, if_pos htail]
      exact gives_self h _

/-- A sparse append exposes what the storage holds at the tail. -/
theorem sparse_refines (h : b.Valid) (n : Nat) :
    Model b.size b.contents (.sparse n)
        ((sancusBufferSparse b n).1, (sancusBufferSparse b n).2.contents) ∧
      (sancusBufferSparse b n).2.Valid ∧ (sancusBufferSparse b n).2.size = b.size := by
  rw [Model, sancusBufferSparse, tailSize_eq h, contents_length]
  by_cases hroom : n ≤ b.size - b.len
  · rw [if_neg (Nat.not_lt.mpr hroom), if_pos hroom]
    have hgives : Gives b ((n : Int), { b with len := b.len + n })
        ((n : Int), b.contents ++ b.buf.load (b.base + b.len) n) :=
      gives_longer h hroom n rfl rfl
    exact ⟨⟨rfl, b.buf.load (b.base + b.len) n, b.buf.load_length _ n, hgives.contents⟩,
      hgives.valid, hgives.size⟩
  · rw [if_pos (Nat.lt_of_not_le hroom), if_neg hroom]
    exact ⟨rfl, h, rfl⟩

/-! ### Any call, and any run -/

/-- An append from a null pointer with a negative length. -/
def NullNegative (op : Op) : Prop := ∃ trunc l, op = .append trunc none l ∧ l < 0

/-- A call refines the model. -/
def Refines (b : SancusBuffer) (op : Op) : Prop :=
  Model b.size b.contents op ((op.run b).1, (op.run b).2.contents)

theorem Gives.refines {op : Op} {out : Int × List UInt8} (h : Gives b (op.run b) out)
    (hmodel : Model b.size b.contents op out) :
    Refines b op ∧ (op.run b).2.Valid ∧ (op.run b).2.size = b.size := by
  have hout : ((op.run b).1, (op.run b).2.contents) = out := Prod.ext h.ret h.contents
  exact ⟨by rwa [Refines, hout], h.valid, h.size⟩

/-- With a length that is not positive, a null pointer is nothing to append, and the length
    comes back. -/
theorem append_null_run (h : b.Valid) (trunc : Bool) {l : Int} (hl : l ≤ 0) :
    Op.run b (.append trunc none l) = (l, b) := by
  have hfit : l ≤ ((b.size - b.len : Nat) : Int) := by omega
  show (if 0 < l then (-EINVAL, b) else appendBytes b trunc (fun _ => 0) l) = (l, b)
  unfold appendBytes
  dsimp only
  rw [if_neg (by omega), tailSize_eq h, if_pos hfit, if_neg (by omega)]

/-- **Step lemma.**  A call refines the model and keeps the buffer valid, unless it appends
    from a null pointer with a negative length. -/
theorem run_refines (h : b.Valid) (op : Op) (hop : ¬ NullNegative op) :
    Refines b op ∧ (op.run b).2.Valid ∧ (op.run b).2.size = b.size := by
  have hlen := contents_length b
  cases op with
  | append trunc s l =>
    cases s with
    | some s => exact (append_refines h trunc s l).refines (by rw [← hlen]; rfl)
    | none =>
      by_cases hpos : 0 < l
      · have hrun : Op.run b (.append trunc none l) = (-EINVAL, b) := if_pos hpos
        refine Gives.refines (hrun ▸ gives_self h (-EINVAL)) ?_
        exact (if_pos hpos).symm
      · obtain rfl : l = 0 := by
          by_contra hne
          exact hop ⟨trunc, l, rfl, by omega⟩
        exact Gives.refines (append_null_run h trunc (le_refl 0) ▸ gives_self h 0) rfl
  | appendz trunc s =>
    cases s with
    | some s =>
      have hgives := append_refines h trunc s s.strlen
      rw [argBytes_strlen] at hgives
      exact hgives.refines (by rw [← hlen]; rfl)
    | none => exact (gives_self h 0).refines rfl
  | appendf trunc fmt => exact (appendv_refines h trunc fmt).refines (by rw [← hlen]; rfl)
  | appendv trunc fmt => exact (appendv_refines h trunc fmt).refines (by rw [← hlen]; rfl)
  | sparse n => exact sparse_refines h n
  | strip s l =>
    cases s with
    | some s => exact (strip_refines h s l).refines rfl
    | none =>
      by_cases hpos : 0 < l
      · have hrun : Op.run b (.strip none l) = (-EINVAL, b) := if_pos hpos
        refine Gives.refines (hrun ▸ gives_self h (-EINVAL)) ?_
        exact (if_pos hpos).symm
      · have hrun : Op.run b (.strip none l) = (0, b) := if_neg hpos
        refine Gives.refines (hrun ▸ gives_self h 0) ?_
        exact (if_neg hpos).symm
  | stripz s =>
    cases s with
    | some s =>
      have hgives := strip_refines h s s.strlen
      rw [argBytes_strlen] at hgives
      exact hgives.refines rfl
    | none => exact (gives_self h 0).refines rfl
  | striponce chars =>
    cases chars with
    | some chars => exact (striponce_refines h chars).refines rfl
    | none => exact (gives_self h 0).refines rfl
  | stripany chars =>
    cases chars with
    | some chars => exact (stripany_refines h chars).refines rfl
    | none => exact (gives_self h 0).refines rfl
  | stripn n => exact (stripn_refines h n).refines (by rw [← hlen]; rfl)
  | truncate n => exact (truncate_refines h n).refines rfl

/-- Even that call keeps the buffer as it is; it returns the length it was given. -/
theorem nullNegative_run {op : Op} (h : b.Valid) (hop : NullNegative op) :
    ∃ l < 0, op.run b = (l, b) ∧ ¬ Refines b op := by
  obtain ⟨trunc, l, rfl, hneg⟩ := hop
  have hrun := append_null_run h trunc (le_of_lt hneg)
  refine ⟨l, hneg, hrun, ?_⟩
  intro hrefines
  rw [Refines, hrun, Model, modelNull, if_neg (by omega)] at hrefines
  have hzero : l = 0 := congrArg Prod.fst hrefines
  omega

/-- Every call keeps the buffer valid. -/
theorem run_valid (h : b.Valid) (op : Op) : (op.run b).2.Valid := by
  by_cases hop : NullNegative op
  · obtain ⟨l, _, hrun, _⟩ := nullNegative_run h hop
    rw [hrun]
    exact h
  · exact (run_refines h op hop).2.1

variable {buf : Mem} {size : UInt32} {b₀ : SancusBuffer}

/-- Every state of a run is valid. -/
theorem valid_of_run (h₀ : sancusBufferInit buf size = some b₀) {ops : List Op}
    (h : Machine.run step b₀ ops = some b) : b.Valid := by
  have hstep : ∀ t op u, t.Valid → step t op = some u → u.Valid := by
    intro t op u ht hu
    obtain rfl := Option.some.inj hu
    exact run_valid ht op
  exact Machine.run_keeps (valid_init h₀).1 hstep h

/-- Every list of calls is a run. -/
theorem exists_run (b : SancusBuffer) (ops : List Op) :
    ∃ b', Machine.run step b ops = some b' := by
  induction ops generalizing b with
  | nil => exact ⟨b, rfl⟩
  | cons op ops ih => exact ih (op.run b).2

/-- **When the operations are a bounded byte string.**  For every buffer of a size that is not
    zero and every sequence of calls: the contents are empty at first and always lie inside
    the storage, and every call does what the model says and returns what it says, if and
    only if no call of the sequence appends from a null pointer with a negative length. -/
theorem buffer_refines_iff (buf : Mem) (size : UInt32) (b₀ : SancusBuffer) (ops : List Op)
    (h₀ : sancusBufferInit buf size = some b₀) :
    b₀.contents = [] ∧ Machine.Throughout step (fun b => b.base + b.len ≤ b.size) b₀ ops ∧
        Machine.Along step Refines b₀ ops ↔ ∀ op ∈ ops, ¬ NullNegative op := by
  constructor
  · -- The call is made in some state of the run, and does not refine the model there.
    rintro ⟨_, _, halong⟩ op hop hnull
    obtain ⟨pre, post, rfl⟩ := List.append_of_mem hop
    obtain ⟨b, hb⟩ := exists_run b₀ pre
    obtain ⟨_, _, _, hno⟩ := nullNegative_run (valid_of_run h₀ hb) hnull
    exact hno (halong pre op post b rfl hb)
  · intro hno
    refine ⟨(valid_init h₀).2.1, ?_, ?_⟩
    · intro pre post b _ hb
      have hvalid := valid_of_run h₀ hb
      have hbase := hvalid.base_eq
      have hlen := hvalid.len_le
      omega
    · intro pre op post b heq hb
      have hop : op ∈ ops := heq ▸ List.mem_append_right _ (List.mem_cons_self)
      exact (run_refines (valid_of_run h₀ hb) op (hno op hop)).1

/-- The rule for a buffer of 8 bytes that is cut and stripped. -/
theorem buffer_refines_iff_cut :
    ∃ b₀, sancusBufferInit (Mem.fresh fun _ => 0) 8 = some b₀ ∧
      (b₀.contents = [] ∧ Machine.Throughout step (fun b => b.base + b.len ≤ b.size) b₀
            [.sparse 5, .truncate 3, .stripn 1] ∧
          Machine.Along step Refines b₀ [.sparse 5, .truncate 3, .stripn 1] ↔
        ∀ op ∈ [Op.sparse 5, .truncate 3, .stripn 1], ¬ NullNegative op) :=
  ⟨_, rfl, buffer_refines_iff (Mem.fresh fun _ => 0) 8 _ _ rfl⟩

/-- **A length that comes back.**  An append of -1 bytes from a null pointer returns -1, which
    is neither the number of bytes appended nor one of the errors. -/
theorem append_null_negative :
    ∃ b₀, sancusBufferInit (Mem.fresh fun _ => 0) 8 = some b₀ ∧
      (Op.run b₀ (.append false none (-1))).1 = -1 ∧
        ¬ Machine.Along step Refines b₀ [.append false none (-1)] := by
  refine ⟨_, rfl, rfl, ?_⟩
  intro halong
  have hrefines := halong [] (.append false none (-1)) [] _ rfl rfl
  have hret : (-1 : Int) = 0 := congrArg Prod.fst hrefines
  omega

end Sancus.Buffer
