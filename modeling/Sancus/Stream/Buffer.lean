import Sancus.CModel.Memory
import Sancus.CModel.Integer

namespace Sancus.Stream

open CModel

/-!
# Streams — the read buffer

The buffer of `buffer_legacy.h`: an array whose contents lie from `base` on, `len` bytes
long.  Reads append at the tail, a skip moves the base, resets it, or moves the contents
back to the head when less than a tenth of the array is left behind them.

* `Buffer.Valid` — the contents lie inside the array;
* `Buffer.contents` — the bytes from `base` on;
* `contents_readDone` / `contents_rebase` / `contents_skip` — what each operation does to them.
-/

/-- `struct sancus_buffer`, with the array `buf` points to.  The counters are
    `uint_fast16_t`, 64 bits wide. -/
structure Buffer where
  buf : Mem
  base : Nat
  len : Nat
  size : Nat

/-- `sancus_buffer_bind`; the size is converted to an `unsigned`. -/
def sancusBufferBind (buf : Mem) (size : Nat) : Buffer := ⟨buf, 0, 0, toUnsigned 32 size⟩

/-- `sancus_buffer_available`. -/
def sancusBufferAvailable (b : Buffer) : Nat := intToUnsigned 64 (b.size - b.base - b.len)

/-- The part of `sancus_buffer_read` behind `read(2)`, which has stored `bytes` at the tail. -/
def sancusBufferReadDone (b : Buffer) (bytes : List UInt8) : Buffer :=
  { b with buf := b.buf.store (b.base + b.len) bytes, len := b.len + toUnsigned 32 bytes.length }

/-- `sancus_buffer_reset`. -/
def sancusBufferReset (b : Buffer) : Buffer := { b with base := 0, len := 0 }

/-- `sancus_buffer_rebase`. -/
def sancusBufferRebase (b : Buffer) : Buffer :=
  if 0 < b.base then
    { b with
      buf := if 0 < b.len then b.buf.memmove 0 b.base b.len else b.buf
      base := 0 }
  else b

/-- The part of `sancus_buffer_skip` that drops `step` bytes from the front. -/
def sancusBufferAdvance (b : Buffer) (step : Nat) : Buffer :=
  if 0 < step then { b with base := b.base + step, len := b.len - step } else b

/-- `sancus_buffer_skip`: the buffer, and the size it returns. -/
def sancusBufferSkip (b : Buffer) (step : Nat) : Buffer × Nat :=
  if b.len ≤ step then (sancusBufferReset b, b.size)
  else
    let b₁ := sancusBufferAdvance b step
    -- If there is less than 10% available, try to rebase.
    let b₂ := if sancusBufferAvailable b₁ < b₁.size / 10 then sancusBufferRebase b₁ else b₁
    (b₂, sancusBufferAvailable b₂)

/-! ### What the operations do to the contents -/

/-- The contents lie inside the array. -/
def Buffer.Valid (b : Buffer) : Prop := b.base + b.len ≤ b.size ∧ b.size < 2 ^ 32

/-- The contents of the buffer. -/
def Buffer.contents (b : Buffer) : List UInt8 := b.buf.load b.base b.len

variable {b : Buffer}

@[simp] theorem Buffer.contents_length (b : Buffer) : b.contents.length = b.len :=
  b.buf.load_length b.base b.len

theorem Buffer.contents_eq_nil : b.contents = [] ↔ b.len = 0 := by
  rw [← List.length_eq_zero_iff, Buffer.contents_length]

theorem valid_bind (buf : Mem) (size : Nat) : (sancusBufferBind buf size).Valid :=
  ⟨Nat.zero_le _, toUnsigned_lt 32 size⟩

theorem available_eq (h : b.Valid) : sancusBufferAvailable b = b.size - (b.base + b.len) := by
  obtain ⟨hle, hlt⟩ := h
  rw [sancusBufferAvailable, intToUnsigned]
  omega

/-- What a read stored is appended to the contents. -/
theorem contents_readDone (h : b.Valid) {bytes : List UInt8}
    (hfit : bytes.length ≤ sancusBufferAvailable b) :
    (sancusBufferReadDone b bytes).Valid ∧
      (sancusBufferReadDone b bytes).contents = b.contents ++ bytes := by
  rw [available_eq h] at hfit
  obtain ⟨hle, hlt⟩ := h
  have hlen : toUnsigned 32 bytes.length = bytes.length := toUnsigned_of_lt (by omega)
  unfold sancusBufferReadDone Buffer.contents Buffer.Valid
  rw [hlen]
  constructor
  · show b.base + (b.len + bytes.length) ≤ b.size ∧ b.size < 2 ^ 32
    omega
  · show (b.buf.store (b.base + b.len) bytes).load b.base (b.len + bytes.length) = _
    rw [Mem.load_add, Mem.load_store_self, Mem.load_store_of_disjoint _ (by omega)]

/-- A rebase moves the contents and keeps them. -/
theorem contents_rebase (h : b.Valid) :
    (sancusBufferRebase b).Valid ∧ (sancusBufferRebase b).contents = b.contents := by
  obtain ⟨hle, hlt⟩ := h
  unfold sancusBufferRebase
  by_cases hbase : 0 < b.base
  · rw [if_pos hbase]
    refine ⟨⟨show 0 + b.len ≤ b.size by omega, hlt⟩, ?_⟩
    by_cases hlen : 0 < b.len
    · rw [if_pos hlen]
      exact Mem.load_memmove_self _ 0 b.base b.len
    · -- An empty buffer is not moved, only its base.
      show Mem.load _ 0 b.len = b.buf.load b.base b.len
      rw [show b.len = 0 by omega]
      rfl
  · rw [if_neg hbase]
    exact ⟨⟨hle, hlt⟩, rfl⟩

theorem contents_advance (h : b.Valid) {step : Nat} (hstep : step < b.len) :
    (sancusBufferAdvance b step).Valid ∧
      (sancusBufferAdvance b step).contents = b.contents.drop step := by
  obtain ⟨hle, hlt⟩ := h
  unfold sancusBufferAdvance
  by_cases h0 : 0 < step
  · rw [if_pos h0]
    refine ⟨⟨show b.base + step + (b.len - step) ≤ b.size by omega, hlt⟩, ?_⟩
    show b.buf.load (b.base + step) (b.len - step) = (b.buf.load b.base b.len).drop step
    have hdrop := b.buf.load_drop_take b.base
      (show step + (b.len - step) ≤ b.len by omega)
    rw [← hdrop, List.take_of_length_le (by simp)]
  · rw [if_neg h0, show step = 0 by omega]
    exact ⟨⟨hle, hlt⟩, rfl⟩

/-- **A skip drops bytes from the front**, wherever it leaves the rest. -/
theorem contents_skip (h : b.Valid) (step : Nat) :
    (sancusBufferSkip b step).1.Valid ∧
      (sancusBufferSkip b step).1.contents = b.contents.drop step := by
  unfold sancusBufferSkip
  by_cases hstep : b.len ≤ step
  · -- The reset: nothing is left of the contents, wherever they were.
    rw [if_pos hstep, List.drop_of_length_le (by rwa [Buffer.contents_length])]
    exact ⟨⟨Nat.zero_le _, h.2⟩, rfl⟩
  · rw [if_neg hstep]
    obtain ⟨hvalid, hcontents⟩ := contents_advance h (Nat.lt_of_not_le hstep)
    rw [← hcontents]
    by_cases hroom : sancusBufferAvailable (sancusBufferAdvance b step) <
        (sancusBufferAdvance b step).size / 10
    · simp only [if_pos hroom]
      exact contents_rebase hvalid
    · simp only [if_neg hroom, and_true]
      exact hvalid

/-! ### The size stays -/

@[simp] theorem size_skip (b : Buffer) (step : Nat) :
    (sancusBufferSkip b step).1.size = b.size := by
  unfold sancusBufferSkip sancusBufferAdvance sancusBufferRebase sancusBufferReset
  dsimp only
  split_ifs <;> rfl

end Sancus.Stream
