import Sancus.CModel.Literal
import Sancus.CModel.PrefixCode
import Sancus.Log.Dump

namespace Sancus.Log

open CModel Sancus.Buffer

/-!
# Loggers — reading a dump back

The escapes of `dump_enc` are those of a C literal, a hexadecimal one with two digits always.  So
they are the words of a prefix code, and what is shown of the data can be read back.

* `dumpDec` — the first byte of an encoded block;
* `dumpCode` — the code it is the reader of;
* `EncodesBlock` — what `dump_enc` does with a block, and without a buffer;
* `dump_enc_lossless` — it does that, and the code is one.
-/

/-! ### The reader -/

/-- What is behind a backslash. -/
def dumpEscape : List UInt8 → Option (UInt8 × List UInt8)
  | []     => none
  | c :: s =>
    if c = 120 then
      match s with
      | h :: l :: s => some (UInt8.ofNat (16 * digitValue h + digitValue l), s)
      | _           => none
    else (simpleEscape c).map fun b => (b, s)

/-- The first byte of an encoded block, and what is left of it. -/
def dumpDec : List UInt8 → Option (UInt8 × List UInt8)
  | []     => none
  | c :: s => if c = 92 then dumpEscape s else some (c, s)

variable {b : SancusBuffer} {block block' : List UInt8}

/-- The three kinds of escapes. -/
theorem dumpOut_cases (c : UInt8) :
    (dumpOut c = [c] ∧ c ≠ 92) ∨
      (∃ e, dumpOut c = [92, e] ∧ e ≠ 120 ∧ simpleEscape e = some c) ∨
      ∃ h l, dumpOut c = [92, 120, h, l] ∧ UInt8.ofNat (16 * digitValue h + digitValue l) = c := by
  have hbyte : ∀ c : UInt8, (dumpOut c = [c] ∧ c ≠ 92) ∨
      (dumpOut c = [92, (dumpOut c).getD 1 0] ∧ (dumpOut c).getD 1 0 ≠ 120 ∧
        simpleEscape ((dumpOut c).getD 1 0) = some c) ∨
      (dumpOut c = [92, 120, (dumpOut c).getD 2 0, (dumpOut c).getD 3 0] ∧
        UInt8.ofNat (16 * digitValue ((dumpOut c).getD 2 0) + digitValue ((dumpOut c).getD 3 0)) =
          c) := forall_byte (by decide +kernel)
  rcases hbyte c with h | ⟨hout, h⟩ | ⟨hout, h⟩
  · exact .inl h
  · exact .inr (.inl ⟨_, hout, h⟩)
  · exact .inr (.inr ⟨_, _, hout, h⟩)

theorem dumpDec_dumpOut (c : UInt8) (s : List UInt8) : dumpDec (dumpOut c ++ s) = some (c, s) := by
  rcases dumpOut_cases c with ⟨hout, hslash⟩ | ⟨e, hout, hx, hsimple⟩ | ⟨h, l, hout, hhex⟩
  · simp [hout, dumpDec, hslash]
  · simp [hout, dumpDec, dumpEscape, hx, hsimple]
  · simp [hout, dumpDec, dumpEscape, hhex]

theorem dumpOut_ne_nil (c : UInt8) : dumpOut c ≠ [] := by
  have hpos := (dumpOut_length c).1
  rw [← List.length_pos_iff]
  omega

/-- The escapes as a code. -/
def dumpCode : PrefixCode UInt8 UInt8 where
  enc := dumpOut
  dec := dumpDec
  enc_ne_nil := dumpOut_ne_nil
  dec_enc := dumpDec_dumpOut

/-! ### What is encoded -/

/-- `dump_enc` on a block, and the buffer it is to be appended to: without the buffer it counts the
    characters; with room for them it appends them, returns the same count, and they are read back;
    and when it fails it has appended the encoding of a beginning of the block. -/
structure EncodesBlock (b : SancusBuffer) (block : List UInt8) : Prop where
  dry : dumpEnc none block = (((dumpCode.encode block).length : Int), none)
  fits : (dumpCode.encode block).length ≤ sancusBufferTailSize b →
    ∃ b', dumpEnc (some b) block = (((dumpCode.encode block).length : Int), some b') ∧
      b'.contents = b.contents ++ dumpCode.encode block ∧
      dumpCode.decode (b'.contents.drop b.contents.length) = some block
  fails : (dumpEnc (some b) block).1 < 0 → (dumpEnc (some b) block).1 = -ENOBUFS ∧
    ∃ b' shown, (dumpEnc (some b) block).2 = some b' ∧ shown <+: block ∧
      b'.contents = b.contents ++ dumpCode.encode shown

theorem encodesBlock (hb : b.Valid) (block : List UInt8) : EncodesBlock b block := by
  have hholds : Holds b b.size b.contents := ⟨hb, rfl, rfl⟩
  have htail := hholds.tailSize_eq
  obtain ⟨b', henc, hb'⟩ := dumpEncLoop_holds hholds block 0
  have hfitting := fitting_longest dumpOut (b.size - b.contents.length) block
  rw [← dumpEnc, Int.zero_add] at henc
  refine ⟨dumpEnc_none block, ?_, ?_⟩
  · intro hroom
    have hle := hholds.length_le
    have hall : (block.flatMap dumpOut).length ≤ b.size - b.contents.length := htail ▸ hroom
    rw [if_pos (by omega)] at henc
    rw [hfitting.eq_self hall] at hb'
    refine ⟨b', henc, hb'.contents_eq, ?_⟩
    rw [hb'.contents_eq, List.drop_left]
    exact dumpCode.decode_encode block
  · intro hneg
    rw [henc] at hneg ⊢
    dsimp only at hneg ⊢
    split at hneg
    · omega
    · next hfull =>
      rw [if_neg hfull]
      exact ⟨rfl, b', _, rfl, hfitting.isPrefix, hb'.contents_eq⟩

/-- **A dump is lossless, and its dry run is honest.**  For every buffer and every block:
    `dump_enc` appends the encoding of the block, which can be read back, or if that has no room
    the one of a beginning of it, and counts it without a buffer; the encoding of a concatenation
    is the concatenation of the encodings; equal encodings are those of equal blocks; and no byte
    has an encoding with which that of another one begins. -/
theorem dump_enc_lossless (b : SancusBuffer) (hb : b.Valid) (block block' : List UInt8)
    (c d : UInt8) :
    EncodesBlock b block ∧
      dumpCode.encode (block ++ block') = dumpCode.encode block ++ dumpCode.encode block' ∧
      (dumpCode.encode block = dumpCode.encode block' → block = block') ∧
      (dumpOut c <+: dumpOut d → c = d) :=
  ⟨encodesBlock hb block, dumpCode.encode_append block block',
    fun h => dumpCode.encode_injective h, PrefixCode.eq_of_prefix (C := dumpCode)⟩

/-- A line feed and a byte without a name, in a buffer that has room for the one only. -/
theorem dump_enc_lossless_short :
    EncodesBlock (lbuffer 4) [10, 128] ∧
      dumpCode.encode ([10, 128] ++ [10, 128]) =
        dumpCode.encode [10, 128] ++ dumpCode.encode [10, 128] ∧
      [(10 : UInt8), 128] = [10, 128] ∧ (10 : UInt8) = 10 := by
  obtain ⟨hblock, happend, hinj, hprefix⟩ := dump_enc_lossless (lbuffer 4)
    (holds_lbuffer (by decide) (by decide)).valid [10, 128] [10, 128] 10 10
  exact ⟨hblock, happend, hinj rfl, hprefix List.prefix_rfl⟩

end Sancus.Log
