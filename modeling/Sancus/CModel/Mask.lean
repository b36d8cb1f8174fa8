import Mathlib.Logic.Basic

namespace CModel

/-!
# C masks — an `unsigned` as a set of bits

* `Mask.Has` — a bit is set;
* `Mask.has_and`, `Mask.has_or`, `Mask.has_not` — the operators are those on sets;
* `Mask.ext_has` — a mask is known by its bits;
* `Mask.and_eq_zero_iff` — two masks without a common bit.
-/

namespace Mask

/-- The bit `i` of the mask is set. -/
def Has (m : UInt32) (i : Fin 32) : Prop := m.toBitVec[i] = true

variable {a b : UInt32} {i : Fin 32}

@[simp] theorem has_and : Has (a &&& b) i ↔ Has a i ∧ Has b i := by
  simp [Has]

@[simp] theorem has_or : Has (a ||| b) i ↔ Has a i ∨ Has b i := by
  simp [Has]

@[simp] theorem has_not : Has (~~~a) i ↔ ¬ Has a i := by
  simp [Has]

@[simp] theorem not_has_zero : ¬ Has 0 i := by
  simp [Has]

/-- A mask is known by its bits. -/
theorem ext_has (h : ∀ i, Has a i ↔ Has b i) : a = b := by
  apply UInt32.eq_of_toBitVec_eq
  ext i hi
  exact Bool.eq_iff_iff.mpr (h ⟨i, hi⟩)

theorem eq_zero_iff : a = 0 ↔ ∀ i, ¬ Has a i := by
  refine ⟨fun h i => h ▸ not_has_zero, fun h => ?_⟩
  apply ext_has
  simp [h]

theorem ne_zero_iff : a ≠ 0 ↔ ∃ i, Has a i := by
  simp [eq_zero_iff]

/-- Masks without a common bit. -/
theorem and_eq_zero_iff : a &&& b = 0 ↔ ∀ i, Has a i → ¬ Has b i := by
  simp [eq_zero_iff]

/-- A mask within another. -/
theorem and_not_eq_zero_iff : a &&& ~~~b = 0 ↔ ∀ i, Has a i → Has b i := by
  simp [and_eq_zero_iff]

end Mask

end CModel
