import Mathlib.Algebra.Group.Nat.Defs
import Mathlib.Tactic.Ring

namespace CModel

/-!
# C integers — the types by their sign and width, and conversions between them

A value of a type comes with the proof that the type can hold it.  A conversion keeps the value
if the new type can hold it, and otherwise keeps it modulo `2 ^ width`; a function of the library
that saturates goes to the nearest value instead.

* `IntType.Fits` — a type can hold an integer;
* `IntType.conv`, `IntType.clamp` — conversion and saturation;
* `IntType.conv_eq_iff`, `IntType.clamp_eq_iff` — neither changes what fits.
-/

/-- An integer type, in two's complement if it is signed. -/
structure IntType where
  signed : Bool
  width : Nat
  width_pos : 0 < width

namespace IntType

/-! ### The types where `long` and a pointer have 64 bits -/

def int : IntType := ⟨true, 32, by decide⟩
def long : IntType := ⟨true, 64, by decide⟩
def longLong : IntType := ⟨true, 64, by decide⟩
def ssizeT : IntType := ⟨true, 64, by decide⟩
def unsignedInt : IntType := ⟨false, 32, by decide⟩
def unsignedLong : IntType := ⟨false, 64, by decide⟩
def unsignedLongLong : IntType := ⟨false, 64, by decide⟩
def sizeT : IntType := ⟨false, 64, by decide⟩

/-! ### What a type can hold -/

/-- The number of values of the type, and the number of those below zero if it is signed. -/
def card (T : IntType) : Nat := 2 ^ T.width
def half (T : IntType) : Nat := 2 ^ (T.width - 1)

def min (T : IntType) : Int := if T.signed then -T.half else 0
def max (T : IntType) : Int := if T.signed then T.half - 1 else T.card - 1

/-- The type can hold `z`. -/
def Fits (T : IntType) (z : Int) : Prop := T.min ≤ z ∧ z ≤ T.max

instance (T : IntType) (z : Int) : Decidable (T.Fits z) :=
  inferInstanceAs (Decidable (T.min ≤ z ∧ z ≤ T.max))

/-- The values of the type. -/
abbrev Value (T : IntType) : Type := { z : Int // T.Fits z }

variable {T : IntType} {z : Int}

theorem half_pos (T : IntType) : 0 < T.half := Nat.two_pow_pos _

theorem card_eq (T : IntType) : T.card = 2 * T.half := by
  rw [card, half, ← pow_succ', Nat.sub_add_cancel T.width_pos]

theorem card_pos (T : IntType) : 0 < T.card := Nat.two_pow_pos _

theorem min_le_zero : T.min ≤ 0 := by
  rw [min]
  split <;> omega

theorem zero_le_max : 0 ≤ T.max := by
  have hhalf := T.half_pos
  have hcard := T.card_pos
  rw [max]
  split <;> omega

theorem min_le_max : T.min ≤ T.max := Int.le_trans min_le_zero zero_le_max

theorem Fits.mono {T' : IntType} (h : T.Fits z) (hmin : T'.min ≤ T.min) (hmax : T.max ≤ T'.max) :
    T'.Fits z :=
  ⟨Int.le_trans hmin h.1, Int.le_trans h.2 hmax⟩

theorem fits_signed (hs : T.signed = true) : T.Fits z ↔ -T.half ≤ z ∧ z < T.half := by
  rw [Fits, min, max, if_pos hs, if_pos hs, Int.le_sub_one_iff]

theorem fits_unsigned (hs : T.signed ≠ true) : T.Fits z ↔ 0 ≤ z ∧ z < T.card := by
  rw [Fits, min, max, if_neg hs, if_neg hs, Int.le_sub_one_iff]

/-! ### Conversion -/

/-- The bits of `z` that the type has room for, read as the type reads them. -/
def wrap (T : IntType) (z : Int) : Int := if T.signed then z.bmod T.card else z % T.card

theorem fits_wrap (T : IntType) (z : Int) : T.Fits (T.wrap z) := by
  have hpos := T.card_pos
  have hcard := T.card_eq
  by_cases hs : T.signed = true
  · have hlo := Int.le_bmod (x := z) hpos
    have hhi := Int.bmod_lt (x := z) hpos
    rw [fits_signed hs, wrap, if_pos hs]
    omega
  · rw [fits_unsigned hs, wrap, if_neg hs]
    refine ⟨?_, ?_⟩
    · apply Int.emod_nonneg
      omega
    · apply Int.emod_lt_of_pos
      omega

/-- Conversion to the type. -/
def conv (T : IntType) (z : Int) : T.Value := ⟨T.wrap z, T.fits_wrap z⟩

/-- Conversion keeps exactly the values that fit. -/
theorem conv_eq_iff : (T.conv z : Int) = z ↔ T.Fits z := by
  refine ⟨fun h => h ▸ (T.conv z).2, fun h => ?_⟩
  have hcard := T.card_eq
  show T.wrap z = z
  by_cases hs : T.signed = true
  · rw [fits_signed hs] at h
    rw [wrap, if_pos hs]
    apply Int.bmod_eq_of_le <;> omega
  · rw [fits_unsigned hs] at h
    rw [wrap, if_neg hs]
    exact Int.emod_eq_of_lt h.1 h.2

theorem conv_of_fits (h : T.Fits z) : T.conv z = ⟨z, h⟩ := Subtype.ext (conv_eq_iff.mpr h)

/-! ### Saturation -/

/-- The value of the type that is nearest to `z`. -/
def clamp (T : IntType) (z : Int) : T.Value :=
  ⟨Max.max T.min (Min.min T.max z), Int.le_max_left _ _,
    Int.max_le.mpr ⟨min_le_max, Int.min_le_left _ _⟩⟩

theorem coe_clamp (T : IntType) (z : Int) : (T.clamp z : Int) = Max.max T.min (Min.min T.max z) :=
  rfl

/-- Saturation keeps exactly the values that fit. -/
theorem clamp_eq_iff : (T.clamp z : Int) = z ↔ T.Fits z := by
  refine ⟨fun h => h ▸ (T.clamp z).2, fun ⟨hmin, hmax⟩ => ?_⟩
  rw [coe_clamp, Int.min_eq_right hmax, Int.max_eq_right hmin]

/-- A type that is strictly wider, to both sides, saturates out of the range of the narrow one. -/
theorem fits_clamp_iff {T' : IntType} (hmin : T.min < T'.min) (hmax : T'.max < T.max) :
    T'.Fits (T.clamp z) ↔ T'.Fits z := by
  rw [Fits, Fits, coe_clamp]
  omega

end IntType

end CModel
