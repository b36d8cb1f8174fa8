import Mathlib.Tactic.Ring

namespace CModel

/-!
# C memory models — fixed-width integers as bytes

The byte image of an unsigned integer in a little-endian memory, and the number a
run of bytes stands for.

* `leBytes w n` — the `w` bytes an unsigned object of width `w` holds for `n`;
* `leNat bs` — the number stored in the bytes `bs`;
* `leNat_leBytes` — reading back what was stored gives the number modulo `256 ^ w`.
-/

/-- The `w` bytes of `n`, least significant first. -/
def leBytes : Nat → Nat → List UInt8
  | 0,     _ => []
  | w + 1, n => UInt8.ofNat n :: leBytes w (n / 256)

/-- The number whose bytes, least significant first, are `bs`. -/
def leNat : List UInt8 → Nat
  | []      => 0
  | b :: bs => b.toNat + 256 * leNat bs

@[simp] theorem leBytes_length (w n : Nat) : (leBytes w n).length = w := by
  induction w generalizing n with
  | zero => rfl
  | succ w ih => simp [leBytes, ih]

theorem leNat_append (as bs : List UInt8) :
    leNat (as ++ bs) = leNat as + 256 ^ as.length * leNat bs := by
  induction as with
  | nil => simp [leNat]
  | cons a as ih =>
    rw [List.cons_append, leNat, ih, leNat, List.length_cons, pow_succ]
    ring

/-- A run of bytes stands for a number that fits its width. -/
theorem leNat_lt (bs : List UInt8) : leNat bs < 256 ^ bs.length := by
  induction bs with
  | nil => simp [leNat]
  | cons b bs ih =>
    have hb : b.toNat < 256 := b.toNat_lt
    rw [leNat, List.length_cons, pow_succ]
    omega

/-- **Round trip.** The bytes stored for `n` read back as `n` modulo the width. -/
theorem leNat_leBytes (w n : Nat) : leNat (leBytes w n) = n % 256 ^ w := by
  induction w generalizing n with
  | zero => simp [leBytes, leNat, Nat.mod_one]
  | succ w ih =>
    have hb : (UInt8.ofNat n).toNat = n % 256 := UInt8.toNat_ofNat'
    rw [leBytes, leNat, ih, hb, pow_succ 256 w, Nat.mul_comm (256 ^ w) 256, Nat.mod_mul]

end CModel
