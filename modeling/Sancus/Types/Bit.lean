import Sancus.CModel.Field
import Sancus.Log.Mask

namespace Sancus.Types

open CModel
open Log (sancusBitCms)

/-!
# Types — packed words

`bit.h` packs values into an `unsigned long`.  A value is written with its mask and its shift, and
read with the same; the mask is an `unsigned` where it is read, and an `unsigned long` where it is
written.

* `sancusBitUnmask` / `sancusBitHasBit` / `sancusBitHasFlag` — the functions that read;
* `setFields` — writes to the fields of a word, one after the other;
* `BitField` — a field that may be shifted so;
* `bit_fields_refine` — a word of fields is a record.
-/

/-! ### The model -/

/-- `BIT`, for a bit of an `unsigned long`. -/
def BIT (n : UInt32) : UInt64 := 1 <<< n.toUInt64

/-- `sancus_bit_unmask`. -/
def sancusBitUnmask (value : UInt64) (mask shift : UInt32) : UInt64 :=
  (value >>> shift.toUInt64) &&& mask.toUInt64

/-- `sancus_bit_has_bit`. -/
def sancusBitHasBit (mask : UInt64) (bit : UInt32) : Bool := mask &&& BIT bit != 0

/-- `sancus_bit_has_flag`. -/
def sancusBitHasFlag (flags : UInt64) (flag : UInt32) : Bool :=
  flags &&& flag.toUInt64 == flag.toUInt64

/-- A field, by its mask and its shift; shifting by the width of the word or more is undefined. -/
structure BitField where
  mask : UInt32
  shift : UInt32
  shift_lt : shift < 64

variable {ι : Type}

/-- Writes to the fields of a word, the first one first. -/
def setFields (layout : ι → BitField) (writes : List (ι × UInt64)) (word : UInt64) : UInt64 :=
  writes.foldl (fun word (i, value) =>
    sancusBitCms word value (layout i).mask.toUInt64 (layout i).shift) word

/-- The same field, of the word as it is. -/
def BitField.field (f : BitField) : Field 64 := ⟨f.mask.toUInt64.toBitVec, f.shift.toNat⟩

/-! ### The functions on a field -/

variable {f : BitField} {word value : UInt64} {bit flag : UInt32}

theorem shift_mod (h : bit < 64) : bit.toNat % 64 = bit.toNat :=
  Nat.mod_eq_of_lt (by simpa [UInt32.lt_iff_toNat_lt] using h)

theorem toBitVec_cms (f : BitField) (value word : UInt64) :
    (sancusBitCms word value f.mask.toUInt64 f.shift).toBitVec =
      f.field.put value.toBitVec word.toBitVec := by
  simp [sancusBitCms, Field.put, Field.bits, BitField.field, shift_mod f.shift_lt]

theorem toBitVec_unmask (f : BitField) (word : UInt64) :
    (sancusBitUnmask word f.mask f.shift).toBitVec = f.field.get word.toBitVec := by
  simp [sancusBitUnmask, Field.get, BitField.field, shift_mod f.shift_lt]

/-- A bit that is had is set. -/
theorem hasBit_iff (h : bit < 64) :
    sancusBitHasBit word bit = true ↔ word.toBitVec.getLsbD bit.toNat = true := by
  have hlt : bit.toNat < 64 := by simpa [UInt32.lt_iff_toNat_lt] using h
  have hbit : (BIT bit).toBitVec = BitVec.twoPow 64 bit.toNat := by
    simp [BIT, shift_mod h, BitVec.twoPow]
  have hne : sancusBitHasBit word bit = true ↔ word.toBitVec &&& (BIT bit).toBitVec ≠ 0#64 := by
    simp [sancusBitHasBit, ← UInt64.toBitVec_inj]
  have hone : BitVec.twoPow 64 bit.toNat ≠ 0#64 := by
    intro hzero
    have hset := congrArg (fun x : BitVec 64 => x.getLsbD bit.toNat) hzero
    simp [hlt] at hset
  rw [hne, hbit, BitVec.and_twoPow]
  split
  · next hset => exact iff_of_true hone hset
  · next hset => exact iff_of_false (not_not_intro rfl) hset

/-- A flag of several bits is had if all of them are. -/
theorem hasFlag_iff : sancusBitHasFlag word flag = true ↔
    ∀ bit : UInt32, bit < 32 → flag.toBitVec.getLsbD bit.toNat = true →
      sancusBitHasBit word bit = true := by
  have heq : sancusBitHasFlag word flag = true ↔
      word.toBitVec &&& flag.toUInt64.toBitVec = flag.toUInt64.toBitVec := by
    simp [sancusBitHasFlag, ← UInt64.toBitVec_inj]
  rw [heq]
  constructor
  · intro hall bit hbit hset
    have hlt : bit.toNat < 32 := by simpa [UInt32.lt_iff_toNat_lt] using hbit
    rw [hasBit_iff (UInt32.lt_trans hbit (by decide))]
    have hboth := congrArg (fun x : BitVec 64 => x.getLsbD bit.toNat) hall
    simpa [hset, show bit.toNat < 64 by omega] using hboth
  · intro hall
    apply BitVec.eq_of_getLsbD_eq
    intro i hi
    by_cases hlt : i < 32
    · have hnat : (UInt32.ofNat i).toNat = i := UInt32.toNat_ofNat_of_lt' (by
        rw [UInt32.size]
        omega)
      have hbit : UInt32.ofNat i < 32 := by simpa [UInt32.lt_iff_toNat_lt, hnat] using hlt
      cases hset : flag.toBitVec.getLsbD i with
      | false => simp [hset]
      | true =>
        have hhas := hall _ hbit (hnat.symm ▸ hset)
        rw [hasBit_iff (UInt32.lt_trans hbit (by decide)), hnat] at hhas
        simp [hset, hhas]
    · simp [BitVec.getLsbD_of_ge flag.toBitVec i (not_lt.mp hlt)]

/-! ### A word of fields -/

theorem toBitVec_setFields (layout : ι → BitField) (writes : List (ι × UInt64)) (word : UInt64) :
    (setFields layout writes word).toBitVec = Field.putAll (fun i => (layout i).field)
      (writes.map fun (i, value) => (i, value.toBitVec)) word.toBitVec := by
  induction writes generalizing word with
  | nil => rfl
  | cons write writes ih =>
    refine (ih _).trans ?_
    rw [toBitVec_cms]
    rfl

/-- **A word of fields is a record.**  Where the fields of a layout lie in an `unsigned long`,
    apart from each other: whatever is written to them, in whatever order, each reads as the
    variable of a record to which the same is assigned, every value cut to its mask; the bits of no
    field are as they were; and a flag is had if all its bits are. -/
theorem bit_fields_refine [DecidableEq ι] (layout : ι → BitField)
    (h : Field.Layout fun i => (layout i).field) (writes : List (ι × UInt64)) (word : UInt64) :
    (fun i => (sancusBitUnmask (setFields layout writes word) (layout i).mask
        (layout i).shift).toBitVec) =
      Field.assignAll (fun i => (layout i).field)
        (writes.map fun (i, value) => (i, value.toBitVec))
        (fun i => (sancusBitUnmask word (layout i).mask (layout i).shift).toBitVec) ∧
      (∀ bit < 64, (∀ i, (layout i).field.bits.getLsbD bit.toNat = false) →
        sancusBitHasBit (setFields layout writes word) bit = sancusBitHasBit word bit) ∧
      ∀ flag : UInt32, sancusBitHasFlag (setFields layout writes word) flag = true ↔
        ∀ bit < 32, flag.toBitVec.getLsbD bit.toNat = true →
          sancusBitHasBit (setFields layout writes word) bit = true := by
  simp only [toBitVec_unmask, toBitVec_setFields]
  refine ⟨Field.putAll_refines h _ _, ?_, fun _ => hasFlag_iff⟩
  intro bit hbit hnone
  apply Bool.eq_iff_iff.mpr
  rw [hasBit_iff hbit, hasBit_iff hbit, toBitVec_setFields, Field.putAll_getLsbD hnone]

/-- Two fields of four bits in the low byte. -/
def nibbles (high : Bool) : BitField :=
  if high then ⟨15, 4, by decide⟩ else ⟨15, 0, by decide⟩

/-- The two are written in turn, one of them twice and with too large a value. -/
theorem bit_fields_refine_nibbles :
    setFields nibbles [(true, 2), (false, 0x1f), (true, 7)] 0xf00 = 0xf7f ∧
      (sancusBitUnmask (setFields nibbles [(true, 2), (false, 0x1f), (true, 7)] 0xf00) 15
        4).toBitVec = 7 := by
  refine ⟨by decide, ?_⟩
  have hlayout : Field.Layout fun i => (nibbles i).field := by
    refine ⟨fun i => ?_, fun i j hne => ?_⟩
    · cases i <;> decide
    · cases i <;> cases j <;> first | exact absurd rfl hne | decide
  have hall := bit_fields_refine nibbles hlayout [(true, 2), (false, 0x1f), (true, 7)] 0xf00
  exact (congrFun hall.1 true).trans (by decide)

end Sancus.Types
