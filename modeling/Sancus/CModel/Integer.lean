import Mathlib.Tactic.Ring

namespace CModel

/-!
# C integers — conversions between widths, and checked signed arithmetic

Unsigned objects are natural numbers below their width; a conversion keeps the value
modulo `2 ^ w`, read as two's complement when the target is signed.  The value of a
signed expression is an integer, or undefined when it does not fit the type.

* `toUnsigned w n` — conversion of an unsigned value to an unsigned type of `w` bits;
* `intToUnsigned w z` — the same for a signed value;
* `toInt32 n` — conversion of an unsigned value to a 32-bit `int`;
* `intToInt32 z` — the same for a wider signed value, such as a pointer difference;
* `long z` — the value of a 64-bit `long` expression, `none` on overflow;
* `bind_long` — a computation that does not overflow goes on with the exact value.
-/

/-- Conversion to an unsigned type of `w` bits. -/
def toUnsigned (w n : Nat) : Nat := n % 2 ^ w

/-- Conversion of a signed value to an unsigned type of `w` bits. -/
def intToUnsigned (w : Nat) (z : Int) : Nat := (z % 2 ^ w).toNat

/-- Conversion of an unsigned value to a 32-bit `int`. -/
def toInt32 (n : Nat) : Int :=
  if n % 2 ^ 32 < 2 ^ 31 then ((n % 2 ^ 32 : Nat) : Int) else ((n % 2 ^ 32 : Nat) : Int) - 2 ^ 32

/-- Conversion of a signed value to a 32-bit `int`. -/
def intToInt32 (z : Int) : Int := toInt32 (intToUnsigned 32 z)

theorem toUnsigned_lt (w n : Nat) : toUnsigned w n < 2 ^ w := Nat.mod_lt _ (Nat.two_pow_pos w)

theorem toUnsigned_of_lt {w n : Nat} (h : n < 2 ^ w) : toUnsigned w n = n := Nat.mod_eq_of_lt h

/-- A value below `2 ^ 31` is kept by the conversion to `int`. -/
theorem toInt32_of_lt {n : Nat} (h : n < 2 ^ 31) : toInt32 n = n := by
  rw [toInt32, Nat.mod_eq_of_lt (by omega), if_pos h]

/-- A non-negative value below `2 ^ 31` is kept by the conversion to `int`. -/
theorem intToInt32_of_lt {n : Nat} (h : n < 2 ^ 31) : intToInt32 n = n := by
  have hn : intToUnsigned 32 n = n := by
    rw [intToUnsigned]
    omega
  rw [intToInt32, hn, toInt32_of_lt h]

/-- A value that an `int` can hold is kept by the conversion to `int`. -/
theorem intToInt32_of_le {z : Int} (hlo : -2 ^ 31 ≤ z) (hhi : z < 2 ^ 31) : intToInt32 z = z := by
  rw [intToInt32, intToUnsigned, toInt32]
  split <;> omega

/-! ### Checked signed arithmetic -/

def INT_MIN : Int := -2 ^ 31
def INT_MAX : Int := 2 ^ 31 - 1
def LONG_MIN : Int := -2 ^ 63
def LONG_MAX : Int := 2 ^ 63 - 1

/-- The value of a `long` expression whose exact value is `z`: undefined on overflow. -/
def long (z : Int) : Option Int := if LONG_MIN ≤ z ∧ z ≤ LONG_MAX then some z else none

/-- A `long` that is defined is its exact value. -/
theorem eq_of_long {z w : Int} (h : long z = some w) : w = z := by
  rw [long, Option.ite_none_right_eq_some] at h
  exact (Option.some.inj h.2).symm

/-- A `long` that holds its exact value. -/
theorem long_eq_some {z : Int} (hlo : -2 ^ 63 ≤ z) (hhi : z < 2 ^ 63) : long z = some z :=
  if_pos ⟨hlo, Int.le_sub_one_of_lt hhi⟩

/-- A computation goes on with a value that a `long` can hold. -/
theorem long_bind {β : Type} {z : Int} (f : Int → Option β) (hlo : -2 ^ 63 ≤ z)
    (hhi : z < 2 ^ 63) : (long z >>= f) = f z := by
  rw [long_eq_some hlo hhi]
  rfl

/-- A computation that goes through a `long` goes on with its exact value. -/
theorem bind_long {β : Type} {z : Int} {f : Int → Option β} {r : β}
    (h : (long z >>= f) = some r) : f z = some r := by
  obtain ⟨w, hw, hf⟩ := Option.bind_eq_some_iff.mp h
  rwa [eq_of_long hw] at hf

end CModel
