import Mathlib.Algebra.Group.Nat.Defs
import Mathlib.Algebra.Ring.Int.Defs
import Mathlib.Data.List.Basic

namespace CModel

/-!
# C formatting — the numbers of `printf`

What the conversions of numbers print, as bytes.

* `decimal`, `signedDecimal` — `%u` and `%zu`, and `%ld`;
* `decimalPadded`, `hexPadded` — `%03ld`, and `%02x`, `%08x` and the like;
* `decimal_length_le_iff`, `hexPadded_length_iff`, … — how many characters they take.
-/

/-- The digits of `n` in the base `b`. -/
def digits (b n : Nat) : List UInt8 := (Nat.toDigits b n).map Char.toUInt8

/-- `%u`. -/
def decimal (n : Nat) : List UInt8 := digits 10 n

/-- `%ld`. -/
def signedDecimal (z : Int) : List UInt8 :=
  if z < 0 then 45 :: decimal z.natAbs else decimal z.natAbs

/-- `%0wld` of a number that is not negative, with the width `w`. -/
def decimalPadded (w n : Nat) : List UInt8 :=
  List.replicate (w - (decimal n).length) 48 ++ decimal n

/-- `%0wx`, with the width `w`. -/
def hexPadded (w n : Nat) : List UInt8 :=
  List.replicate (w - (digits 16 n).length) 48 ++ digits 16 n

variable {b n k w : Nat} {z : Int}

theorem digits_length_le_iff (hb : 1 < b) (hk : 0 < k) :
    (digits b n).length ≤ k ↔ n < b ^ k := by
  rw [digits, List.length_map, Nat.length_toDigits_le_iff hb hk]

/-- A number takes at most `k` decimal digits when it is below `10 ^ k`. -/
theorem decimal_length_le_iff (hk : 0 < k) : (decimal n).length ≤ k ↔ n < 10 ^ k :=
  digits_length_le_iff (by decide) hk

/-- The sign takes the place of a digit. -/
theorem signedDecimal_length_le_iff (hk : 0 < k) :
    (signedDecimal z).length ≤ k + 1 ↔ -10 ^ k < z ∧ z < 10 ^ (k + 1) := by
  have hpow : (10 : Int) ^ k = ((10 ^ k : Nat) : Int) := by push_cast; rfl
  have hpow' : (10 : Int) ^ (k + 1) = ((10 ^ (k + 1) : Nat) : Int) := by push_cast; rfl
  rw [signedDecimal, hpow, hpow']
  split
  · next hneg =>
    rw [List.length_cons, Nat.add_le_add_iff_right, decimal_length_le_iff hk]
    omega
  · next hnonneg =>
    rw [decimal_length_le_iff (by omega)]
    omega

/-- A number that fits its field fills it. -/
theorem decimalPadded_length (hw : 0 < w) (hn : n < 10 ^ w) : (decimalPadded w n).length = w := by
  rw [← decimal_length_le_iff hw] at hn
  rw [decimalPadded, List.length_append, List.length_replicate]
  omega

/-- A number fills its field exactly when it fits. -/
theorem hexPadded_length_iff (hw : 0 < w) : (hexPadded w n).length = w ↔ n < 16 ^ w := by
  rw [hexPadded, List.length_append, List.length_replicate,
    ← digits_length_le_iff (by decide : 1 < 16) hw]
  omega

/-- The digits are the characters from `0` to `9` and from `a` to `f`. -/
theorem mem_toDigits {c : Char} (hb : 1 < b) (h : c ∈ Nat.toDigits b n) :
    ∃ d < b, c = d.digitChar := by
  induction n using Nat.strongRecOn with
  | ind n ih =>
    rw [Nat.toDigits_eq_if hb] at h
    split at h
    · next hlt => exact ⟨n, hlt, List.mem_singleton.mp h⟩
    · next hge =>
      rcases List.mem_append.mp h with h | h
      · exact ih (n / b) (Nat.div_lt_self (by omega) hb) h
      · exact ⟨n % b, Nat.mod_lt n (by omega), List.mem_singleton.mp h⟩

/-- So what a number is printed as has no other characters. -/
theorem mem_digits {c : UInt8} (hb : 1 < b) (hb' : b ≤ 16) (h : c ∈ digits b n) :
    48 ≤ c.toNat ∧ c.toNat ≤ 102 := by
  obtain ⟨c', hc', rfl⟩ := List.mem_map.mp h
  obtain ⟨d, hd, rfl⟩ := mem_toDigits hb hc'
  have hall : ∀ d < 16, 48 ≤ (Nat.digitChar d).toUInt8.toNat ∧
      (Nat.digitChar d).toUInt8.toNat ≤ 102 := by decide
  exact hall d (Nat.lt_of_lt_of_le hd hb')

theorem mem_hexPadded {c : UInt8} (h : c ∈ hexPadded w n) : 48 ≤ c.toNat ∧ c.toNat ≤ 102 := by
  rcases List.mem_append.mp h with h | h
  · obtain rfl := List.eq_of_mem_replicate h
    decide
  · exact mem_digits (by decide) (by decide) h

theorem zero_not_mem_decimal : 0 ∉ decimal n := by
  intro h
  exact absurd (mem_digits (by decide) (by decide) h).1 (by decide)

theorem zero_not_mem_signedDecimal : 0 ∉ signedDecimal z := by
  unfold signedDecimal
  split <;> simp [zero_not_mem_decimal]

theorem zero_not_mem_decimalPadded : 0 ∉ decimalPadded w n := by
  simp [decimalPadded, zero_not_mem_decimal]

end CModel
