import Sancus.CModel.CString
import Sancus.CModel.Integer
import Sancus.CModel.Machine

namespace Sancus.Buffer

open CModel

/-!
# Buffers — the operations of `sancus_buffer`

A `struct sancus_buffer` is a piece of storage and the counters of what it holds.  The
operations append at the tail and strip from it; a string argument may be null, and a
negative length stands for the length of the string.

* `SancusBuffer` — the counters and the storage behind `buf`;
* `sancusBufferStripchar`, … — the operations, each with the value it returns;
* `vsnprintf` — the library function under the formatted appends;
* `Op` — a call of one of the operations, and `step`, a buffer taking one.
-/

def EINVAL : Int := 22
def ENOBUFS : Int := 105

/-- `struct sancus_buffer`, with the storage `buf` points to; the counters are
    `uint_fast16_t`, 64 bits wide. -/
structure SancusBuffer where
  buf : Mem
  base : Nat
  len : Nat
  size : Nat

/-- `sancus_buffer_init` on a storage; `none` when it returns `-EINVAL`. -/
def sancusBufferInit (buf : Mem) (size : UInt32) : Option SancusBuffer :=
  if size = 0 then none else some ⟨buf, 0, 0, size.toNat⟩

/-- `sancus_buffer_tail_size`. -/
def sancusBufferTailSize (b : SancusBuffer) : Nat := intToUnsigned 64 (b.size - b.base - b.len)

/-! ### Strip -/

/-- The scan of `sancus_buffer__stripchar`, with `p - pe` bytes in front of it and the count
    so far. -/
def stripcharScan (b : SancusBuffer) (many : Bool) (chars : List UInt8) : Nat → Nat → Nat
  | 0,     count => count
  | k + 1, count =>
    if chars.contains (b.buf.byte (b.base + k)) then
      if many then stripcharScan b many chars k (count + 1) else count + 1
    else count

/-- `sancus_buffer__stripchar`. -/
def sancusBufferStripchar (b : SancusBuffer) (many : Bool) (chars : Option CString) (l : Int) :
    Int × SancusBuffer :=
  match chars with
  | none       => if 0 < l then (-EINVAL, b) else (0, b)
  | some chars =>
    let l := if l < 0 then (chars.strlen : Int) else l
    let count := stripcharScan b many (chars.read l.toNat) b.len 0
    if 0 < l then (count, { b with len := b.len - count }) else (0, b)

def sancusBufferStriponce (b : SancusBuffer) (chars : Option CString) : Int × SancusBuffer :=
  sancusBufferStripchar b false chars (-1)

def sancusBufferStripany (b : SancusBuffer) (chars : Option CString) : Int × SancusBuffer :=
  sancusBufferStripchar b true chars (-1)

/-- `sancus_buffer_strip`. -/
def sancusBufferStrip (b : SancusBuffer) (s : Option CString) (l : Int) : Int × SancusBuffer :=
  match s with
  | none   => if 0 < l then (-EINVAL, b) else (0, b)
  | some s =>
    let l := if l < 0 then (s.strlen : Int) else l
    if 0 < l ∧ l.toNat ≤ b.len then
      let p := b.base + (b.len - l.toNat)
      if b.buf.load p l.toNat = s.read l.toNat then
        (l, { b with len := b.len - l.toNat, buf := b.buf.store p [0] })
      else (0, b)
    else (0, b)

def sancusBufferStripz (b : SancusBuffer) (s : Option CString) : Int × SancusBuffer :=
  match s with
  | none   => (0, b)
  | some s => sancusBufferStrip b (some s) s.strlen

/-- The end of `sancus_buffer_truncate` and `sancus_buffer_stripn`: a NUL behind the contents,
    and their length returned. -/
def terminate (b : SancusBuffer) : Int × SancusBuffer :=
  (b.len, { b with buf := b.buf.store (b.base + b.len) [0] })

/-- `sancus_buffer_truncate`. -/
def sancusBufferTruncate (b : SancusBuffer) (n : Nat) : Int × SancusBuffer :=
  let b₁ := if n < b.len then { b with len := n } else b
  let b₂ := if b₁.len = 0 then { b₁ with base := 0 } else b₁
  -- The NUL is stored whether or not anything was removed.
  terminate b₂

/-- `sancus_buffer_stripn`. -/
def sancusBufferStripn (b : SancusBuffer) (n : Nat) : Int × SancusBuffer :=
  terminate (if n < b.len then { b with len := b.len - n } else { b with base := 0, len := 0 })

/-! ### Append -/

/-- `sancus_buffer_sparse`. -/
def sancusBufferSparse (b : SancusBuffer) (n : Nat) : Int × SancusBuffer :=
  if sancusBufferTailSize b < n then (-EINVAL, b) else (n, { b with len := b.len + n })

/-- The part of `sancus_buffer__append` from the comment `buf vs l` on. -/
def appendBytes (b : SancusBuffer) (truncate : Bool) (s : Nat → UInt8) (l : Int) :
    Int × SancusBuffer :=
  let bufSize : Int := sancusBufferTailSize b
  let l := if l ≤ bufSize then l else if truncate then bufSize else -ENOBUFS
  if 0 < l then
    (l, { b with buf := b.buf.memcpy (b.base + b.len) s l.toNat, len := b.len + l.toNat })
  else (l, b)

/-- `sancus_buffer__append`.  From a null pointer nothing is read, as `l` is then not
    positive. -/
def sancusBufferAppend (b : SancusBuffer) (truncate : Bool) (s : Option CString) (l : Int) :
    Int × SancusBuffer :=
  match s with
  | none   => if 0 < l then (-EINVAL, b) else appendBytes b truncate (fun _ => 0) l
  | some s => appendBytes b truncate s.byte (if l < 0 then (s.strlen : Int) else l)

def sancusBufferAppendz (b : SancusBuffer) (truncate : Bool) (s : Option CString) :
    Int × SancusBuffer :=
  match s with
  | none   => (0, b)
  | some s => sancusBufferAppend b truncate (some s) s.strlen

/-- What a format and its arguments come to: a text, or an error (a text longer than an `int`
    can say is one) that returns `-(code + 1)` and leaves some bytes behind. -/
inductive Formatted where
  | text (bytes : List UInt8)
  | error (code : Nat) (left : List UInt8)

/-- `vsnprintf(dst, l, ...)` for a positive `l`: at most `l` bytes are stored, the last of them
    a NUL, and the length of the whole text is returned. -/
def vsnprintf (m : Mem) (dst l : Nat) : Formatted → Int × Mem
  | .text bytes      => (bytes.length, m.store dst (bytes.take (l - 1) ++ [0]))
  | .error code left => (-(code + 1), m.store dst (left.take l))

/-- `sancus_buffer__appendv`. -/
def sancusBufferAppendv (b : SancusBuffer) (truncate : Bool) (fmt : Formatted) :
    Int × SancusBuffer :=
  let l : Int := sancusBufferTailSize b
  if 0 < l then
    let (n, buf) := vsnprintf b.buf (b.base + b.len) l.toNat fmt
    -- The text and its NUL fit; or nothing was formatted, and nothing is added.
    if n ≤ 0 ∨ n < l then (n, { b with buf := buf, len := b.len + n.toNat })
    else if truncate then
      (l - 1, { b with buf := buf.store (b.base + b.len + (l - 1).toNat) [0],
                       len := b.len + (l - 1).toNat })
    -- What `vsnprintf` has stored of the text stays behind the contents.
    else (-ENOBUFS, { b with buf := buf })
  else (-ENOBUFS, b)

/-- `sancus_buffer__appendf`. -/
def sancusBufferAppendf (b : SancusBuffer) (truncate : Bool) (fmt : Formatted) :
    Int × SancusBuffer := sancusBufferAppendv b truncate fmt

/-! ### Calls -/

/-- A call of one of the operations. -/
inductive Op where
  | append (truncate : Bool) (s : Option CString) (l : Int)
  | appendz (truncate : Bool) (s : Option CString)
  | appendf (truncate : Bool) (fmt : Formatted)
  | appendv (truncate : Bool) (fmt : Formatted)
  | sparse (n : Nat)
  | strip (s : Option CString) (l : Int)
  | stripz (s : Option CString)
  | striponce (chars : Option CString)
  | stripany (chars : Option CString)
  | stripn (n : Nat)
  | truncate (n : Nat)

/-- Make the call. -/
def Op.run (b : SancusBuffer) : Op → Int × SancusBuffer
  | append trunc s l  => sancusBufferAppend b trunc s l
  | appendz trunc s   => sancusBufferAppendz b trunc s
  | appendf trunc fmt => sancusBufferAppendf b trunc fmt
  | appendv trunc fmt => sancusBufferAppendv b trunc fmt
  | sparse n          => sancusBufferSparse b n
  | strip s l         => sancusBufferStrip b s l
  | stripz s          => sancusBufferStripz b s
  | striponce chars   => sancusBufferStriponce b chars
  | stripany chars    => sancusBufferStripany b chars
  | stripn n          => sancusBufferStripn b n
  | truncate n        => sancusBufferTruncate b n

/-- A buffer taking a call, as a step of a machine. -/
def step (b : SancusBuffer) (op : Op) : Option SancusBuffer := some (op.run b).2

/-! ### The invariant -/

/-- The contents lie at the head of the storage, and inside it. -/
structure SancusBuffer.Valid (b : SancusBuffer) : Prop where
  base_eq : b.base = 0
  len_le : b.len ≤ b.size
  size_pos : 0 < b.size
  size_lt : b.size < 2 ^ 32

/-- The contents of the buffer. -/
def SancusBuffer.contents (b : SancusBuffer) : List UInt8 := b.buf.load b.base b.len

variable {b : SancusBuffer}

@[simp] theorem contents_length (b : SancusBuffer) : b.contents.length = b.len :=
  b.buf.load_length b.base b.len

theorem valid_init {buf : Mem} {size : UInt32} (h : sancusBufferInit buf size = some b) :
    b.Valid ∧ b.contents = [] ∧ b.size = size.toNat ∧ b.buf = buf := by
  obtain ⟨hsize, h⟩ := Option.ite_none_left_eq_some.mp h
  obtain rfl := Option.some.inj h
  have hpos : 0 < size.toNat := by
    refine Nat.pos_of_ne_zero fun h0 => hsize ?_
    exact UInt32.toNat_inj.mp h0
  exact ⟨⟨rfl, Nat.zero_le _, hpos, size.toNat_lt⟩, rfl, rfl, rfl⟩

theorem tailSize_eq (h : b.Valid) : sancusBufferTailSize b = b.size - b.len := by
  have hlen := h.len_le
  have hsize := h.size_lt
  rw [sancusBufferTailSize, h.base_eq, intToUnsigned]
  omega

end Sancus.Buffer
