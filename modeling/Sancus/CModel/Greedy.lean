import Mathlib.Data.List.Basic

namespace CModel

/-!
# Bounded output — the longest prefix whose encoding fits

An encoder that writes one element after the other, and stops at the first whose encoding has
no room any more, gets as far as it is possible to get.

* `LongestFitting` — what is meant by that;
* `fitting` — the encoder's own way there;
* `fitting_longest` — it is the longest prefix that fits;
* `LongestFitting.mono` — with more room, no less of the input is encoded.
-/

variable {α β : Type} (enc : α → List β)

/-- `ys` is the longest prefix of `xs` whose encoding takes at most `room`. -/
structure LongestFitting (room : Nat) (xs ys : List α) : Prop where
  isPrefix : ys <+: xs
  fits : (ys.flatMap enc).length ≤ room
  longest : ∀ zs, zs <+: xs → (zs.flatMap enc).length ≤ room → zs <+: ys

/-- One element after the other, up to the first that has no room. -/
def fitting : Nat → List α → List α
  | _,    []      => []
  | room, x :: xs =>
    if (enc x).length ≤ room then x :: fitting (room - (enc x).length) xs else []

variable {enc} {room : Nat} {xs ys zs : List α}

/-- A longer prefix has a longer encoding. -/
theorem prefix_flatMap (h : xs <+: ys) : xs.flatMap enc <+: ys.flatMap enc := by
  obtain ⟨t, rfl⟩ := h
  rw [List.flatMap_append]
  exact List.prefix_append _ _

/-- **The greedy encoder gets as far as possible.** -/
theorem fitting_longest (enc : α → List β) (room : Nat) (xs : List α) :
    LongestFitting enc room xs (fitting enc room xs) := by
  induction xs generalizing room with
  | nil => exact ⟨List.prefix_rfl, Nat.zero_le _, fun zs hzs _ => hzs⟩
  | cons x xs ih =>
    rw [fitting]
    by_cases hx : (enc x).length ≤ room
    · rw [if_pos hx]
      obtain ⟨hpre, hfits, hlongest⟩ := ih (room - (enc x).length)
      refine ⟨List.cons_prefix_cons.mpr ⟨rfl, hpre⟩, ?_, ?_⟩
      · rw [List.flatMap_cons, List.length_append]
        omega
      · intro zs hzs hlen
        cases zs with
        | nil => exact List.nil_prefix
        | cons z zs =>
          obtain ⟨rfl, htail⟩ := List.cons_prefix_cons.mp hzs
          rw [List.flatMap_cons, List.length_append] at hlen
          exact List.cons_prefix_cons.mpr ⟨rfl, hlongest zs htail (by omega)⟩
    · rw [if_neg hx]
      refine ⟨List.nil_prefix, Nat.zero_le _, ?_⟩
      intro zs hzs hlen
      cases zs with
      | nil => exact List.prefix_rfl
      | cons z zs =>
        obtain ⟨rfl, _⟩ := List.cons_prefix_cons.mp hzs
        rw [List.flatMap_cons, List.length_append] at hlen
        omega

/-- The part that fits, if there is no room for the element behind it. -/
theorem longestFitting_take {k : Nat} (hfits : ((xs.take k).flatMap enc).length ≤ room)
    (hmore : room < ((xs.take (k + 1)).flatMap enc).length) :
    LongestFitting enc room xs (xs.take k) := by
  refine ⟨xs.take_prefix k, hfits, ?_⟩
  intro zs hzs hlen
  rcases Nat.lt_or_ge k zs.length with hlt | hle
  · -- a longer prefix has that element
    have htake : xs.take (k + 1) <+: zs :=
      List.prefix_of_prefix_length_le (xs.take_prefix (k + 1)) hzs
        (Nat.le_trans (List.length_take_le _ _) hlt)
    have hle : ((xs.take (k + 1)).flatMap enc).length ≤ (zs.flatMap enc).length :=
      (prefix_flatMap htake).length_le
    omega
  · have htake : zs = xs.take zs.length := List.prefix_iff_eq_take.mp hzs
    rw [htake]
    exact List.take_prefix_take_left hle

namespace LongestFitting

/-- There is only one. -/
theorem eq_fitting (h : LongestFitting enc room xs ys) : ys = fitting enc room xs := by
  have hf := fitting_longest enc room xs
  exact (hf.longest ys h.isPrefix h.fits).eq_of_length_le
    (h.longest _ hf.isPrefix hf.fits).length_le

/-- With more room, no less of the input is encoded. -/
theorem mono {room' : Nat} (hroom : room ≤ room') (h : LongestFitting enc room xs ys)
    (h' : LongestFitting enc room' xs zs) : ys <+: zs :=
  h'.longest ys h.isPrefix (Nat.le_trans h.fits hroom)

/-- All of the input is encoded, if there is room. -/
theorem eq_self (h : LongestFitting enc room xs ys) (hfits : (xs.flatMap enc).length ≤ room) :
    ys = xs :=
  h.isPrefix.eq_of_length_le (h.longest xs List.prefix_rfl hfits).length_le

end LongestFitting

end CModel
