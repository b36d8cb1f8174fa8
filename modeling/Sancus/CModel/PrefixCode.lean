import Mathlib.Data.List.Basic

namespace CModel

/-!
# Prefix codes — encodings that can be read one symbol at a time

A symbol is encoded as a word that is not empty, and there is a reader that takes the word of a
symbol off whatever follows it.  Then no word is the beginning of another, and a text, which is
the words of its symbols one after the other, is read back.

* `PrefixCode` — the words and the reader;
* `PrefixCode.encode`, `PrefixCode.decode` — texts;
* `PrefixCode.decode_encode` — the round trip;
* `PrefixCode.eq_of_prefix` — no word is the beginning of another.
-/

variable {α β : Type}

/-- The words of a code and their reader. -/
structure PrefixCode (α β : Type) where
  enc : α → List β
  dec : List β → Option (α × List β)
  enc_ne_nil : ∀ a, enc a ≠ []
  dec_enc : ∀ a s, dec (enc a ++ s) = some (a, s)

namespace PrefixCode

variable (C : PrefixCode α β)

/-- The words of a text. -/
def encode (xs : List α) : List β := xs.flatMap C.enc

/-- Read at most `fuel` symbols, up to the end. -/
def decodeRounds : Nat → List β → Option (List α)
  | 0,        s => if s.isEmpty then some [] else none
  | fuel + 1, s =>
    if s.isEmpty then some []
    else do
      let (a, rest) ← C.dec s
      let as ← decodeRounds fuel rest
      some (a :: as)

/-- Read a text; each of its symbols takes a place at least. -/
def decode (s : List β) : Option (List α) := C.decodeRounds s.length s

@[simp] theorem encode_nil : C.encode [] = [] := rfl

@[simp] theorem encode_cons (a : α) (xs : List α) : C.encode (a :: xs) = C.enc a ++ C.encode xs :=
  rfl

@[simp] theorem encode_append (xs ys : List α) : C.encode (xs ++ ys) = C.encode xs ++ C.encode ys :=
  List.flatMap_append

theorem enc_length_pos (a : α) : 0 < (C.enc a).length := List.length_pos_iff.mpr (C.enc_ne_nil a)

variable {C} {a b : α} {xs ys : List α}

/-- A text is read back symbol by symbol. -/
theorem decodeRounds_encode {fuel : Nat} (h : (C.encode xs).length ≤ fuel) :
    C.decodeRounds fuel (C.encode xs) = some xs := by
  induction xs generalizing fuel with
  | nil => cases fuel <;> rfl
  | cons a xs ih =>
    have hpos := C.enc_length_pos a
    rw [encode_cons, List.length_append] at h
    have hne : (C.enc a ++ C.encode xs).isEmpty = false := by
      simp [C.enc_ne_nil a]
    cases fuel with
    | zero => omega
    | succ fuel =>
      have hrest : C.decodeRounds fuel (C.encode xs) = some xs := ih (by omega)
      simp [decodeRounds, hne, C.dec_enc, hrest]

variable (C)

/-- **Round trip.** -/
theorem decode_encode (xs : List α) : C.decode (C.encode xs) = some xs :=
  decodeRounds_encode (Nat.le_refl _)

/-- So different texts are encoded differently. -/
theorem encode_injective : Function.Injective C.encode := by
  intro xs ys h
  apply Option.some.inj
  rw [← C.decode_encode xs, h, C.decode_encode ys]

variable {C}

/-- **No word is the beginning of another.** -/
theorem eq_of_prefix (h : C.enc a <+: C.enc b) : a = b := by
  obtain ⟨s, hs⟩ := h
  have hread := C.dec_enc b []
  rw [List.append_nil, ← hs, C.dec_enc] at hread
  exact (Prod.mk.inj (Option.some.inj hread)).1

end PrefixCode

end CModel
