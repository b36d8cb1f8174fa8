import Mathlib.Logic.Function.Basic
import Mathlib.Data.List.Basic

namespace CModel

/-!
# C words as records — fields by mask and shift

A word can be used as a record: a field is a mask, moved up by a shift.

* `Field` / `Field.get` / `Field.put` — a field, read and written in place;
* `Field.Fits` / `Field.Apart` — no bit of it is moved out of the word, and two fields have no bit
  in common;
* `Field.get_put` / `Field.get_put_apart` — what is read after a write;
* `Field.putAll` — writes to the fields of a layout, one after the other;
* `Field.putAll_refines` — they are assignments to the variables of a record.
-/

/-- A field of a word of `w` bits. -/
structure Field (w : Nat) where
  mask : BitVec w
  shift : Nat

namespace Field

variable {w : Nat}

/-- The bits of the word that the field has. -/
def bits (f : Field w) : BitVec w := f.mask <<< f.shift

def get (f : Field w) (word : BitVec w) : BitVec w := (word >>> f.shift) &&& f.mask

def put (f : Field w) (value word : BitVec w) : BitVec w :=
  ((value &&& f.mask) <<< f.shift) ||| (word &&& ~~~f.bits)

/-- The field lies in the word. -/
def Fits (f : Field w) : Prop := f.bits >>> f.shift = f.mask

/-- Two fields have no bit in common. -/
def Apart (f g : Field w) : Prop := f.bits &&& g.bits = 0#w

instance (f : Field w) : Decidable f.Fits := inferInstanceAs (Decidable (_ = _))
instance (f g : Field w) : Decidable (f.Apart g) := inferInstanceAs (Decidable (_ = _))

variable {f g : Field w} {value word : BitVec w} {i : Nat}

/-! ### Bit by bit -/

theorem bits_getLsbD : f.bits.getLsbD i =
    (decide (i < w) && (!decide (i < f.shift) && f.mask.getLsbD (i - f.shift))) := by
  simp [bits, Bool.and_assoc]

theorem get_getLsbD :
    (f.get word).getLsbD i = (word.getLsbD (f.shift + i) && f.mask.getLsbD i) := by
  simp [get]

theorem put_getLsbD : (f.put value word).getLsbD i =
    if f.bits.getLsbD i then value.getLsbD (i - f.shift) else word.getLsbD i := by
  have hput : (f.put value word).getLsbD i =
      ((decide (i < w) && !decide (i < f.shift) &&
        (value.getLsbD (i - f.shift) && f.mask.getLsbD (i - f.shift))) ||
      (word.getLsbD i && (decide (i < w) && !f.bits.getLsbD i))) := by
    simp only [put, BitVec.getLsbD_or, BitVec.getLsbD_and, BitVec.getLsbD_not,
      BitVec.getLsbD_shiftLeft]
  rw [hput, bits_getLsbD]
  by_cases hi : i < w
  · by_cases hshift : i < f.shift
    · simp [hi, hshift]
    · cases f.mask.getLsbD (i - f.shift) <;> simp [hi, hshift]
  · simp [hi, BitVec.getLsbD_of_ge word i (Nat.le_of_not_lt hi)]

/-- Every bit of a field that lies in the word is a bit of the word. -/
theorem Fits.bits_add (h : f.Fits) (hi : f.mask.getLsbD i = true) :
    f.bits.getLsbD (f.shift + i) = true := by
  have hbit : (f.bits >>> f.shift).getLsbD i = true := h.symm ▸ hi
  simpa using hbit

/-- Two fields that are apart: a bit of the one is none of the other. -/
theorem Apart.bits_false (h : f.Apart g) (hi : f.bits.getLsbD i = true) :
    g.bits.getLsbD i = false := by
  have hnone : (f.bits &&& g.bits).getLsbD i = false := by
    rw [h]
    simp
  simpa [hi] using hnone

theorem Apart.symm (h : f.Apart g) : g.Apart f := by
  rw [Apart, BitVec.and_comm]
  exact h

/-! ### Reading after writing -/

/-- **What was written is read**, as far as the mask goes. -/
theorem get_put (h : f.Fits) : f.get (f.put value word) = value &&& f.mask := by
  apply BitVec.eq_of_getLsbD_eq
  intro i _
  rw [get_getLsbD, put_getLsbD, BitVec.getLsbD_and]
  cases hi : f.mask.getLsbD i with
  | false => simp
  | true => simp [h.bits_add hi]

/-- **Other fields are left alone.** -/
theorem get_put_apart (hg : g.Fits) (h : f.Apart g) : g.get (f.put value word) = g.get word := by
  apply BitVec.eq_of_getLsbD_eq
  intro i _
  rw [get_getLsbD, get_getLsbD, put_getLsbD]
  cases hi : g.mask.getLsbD i with
  | false => simp
  | true => simp [h.symm.bits_false (hg.bits_add hi)]

/-! ### A record of fields -/

variable {ι : Type} {layout : ι → Field w}

/-- The fields of a record lie in the word, and apart from each other. -/
structure Layout (layout : ι → Field w) : Prop where
  fits : ∀ i, (layout i).Fits
  apart : ∀ i j, i ≠ j → (layout i).Apart (layout j)

/-- Writes to fields, the first one first. -/
def putAll (layout : ι → Field w) (writes : List (ι × BitVec w)) (word : BitVec w) : BitVec w :=
  writes.foldl (fun word (i, value) => (layout i).put value word) word

/-- The same writes to variables, each of which takes what its mask lets through. -/
def assignAll [DecidableEq ι] (layout : ι → Field w) (writes : List (ι × BitVec w))
    (record : ι → BitVec w) : ι → BitVec w :=
  writes.foldl (fun record (i, value) => Function.update record i (value &&& (layout i).mask))
    record

/-- **A word is a record.**  Read field by field, the writes are assignments to variables. -/
theorem putAll_refines [DecidableEq ι] (h : Layout layout) (writes : List (ι × BitVec w))
    (word : BitVec w) : (fun i => (layout i).get (putAll layout writes word)) =
      assignAll layout writes fun i => (layout i).get word := by
  induction writes generalizing word with
  | nil => rfl
  | cons write writes ih =>
    obtain ⟨i, value⟩ := write
    have hput : (fun j => (layout j).get ((layout i).put value word)) =
        Function.update (fun j => (layout j).get word) i (value &&& (layout i).mask) := by
      funext j
      by_cases hj : j = i
      · subst hj
        rw [Function.update_self, get_put (h.fits j)]
      · rw [Function.update_of_ne hj, get_put_apart (h.fits j) (h.apart i j (Ne.symm hj))]
    exact (ih _).trans (by rw [hput]; rfl)

/-- What no field has is left alone. -/
theorem putAll_getLsbD (h : ∀ j, (layout j).bits.getLsbD i = false)
    (writes : List (ι × BitVec w)) (word : BitVec w) :
    (putAll layout writes word).getLsbD i = word.getLsbD i := by
  induction writes generalizing word with
  | nil => rfl
  | cons write writes ih =>
    refine (ih _).trans ?_
    rw [put_getLsbD, h, if_neg Bool.false_ne_true]

end Field

end CModel
