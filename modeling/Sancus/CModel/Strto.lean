import Sancus.CModel.CString
import Sancus.CModel.IntType
import Sancus.CModel.Literal

namespace CModel

/-!
# The C library — `strtol` and its kin in base 10

White space is skipped, and the longest run of digits behind an optional sign is the number.  The
caller gets a value of the type whatever the number is, and the place where the digits end.

* `strto` — the value and the place, for a type of any sign and width;
* `Numeral` — the texts that are a number and nothing else;
* `strto_end_iff` — the place is the end of the string exactly for those;
* `strto_eq_iff` — the value is that of the number exactly if the type can hold it;
* `strto_signed` — otherwise a signed type gets the nearest value it has.
-/

/-- `isspace`, in the C locale. -/
def isSpace (c : UInt8) : Bool := c == 32 || (9 ≤ c && c ≤ 13)

def isDigit (c : UInt8) : Bool := 48 ≤ c && c ≤ 57

/-- Whether the text has a minus sign in front, and what is behind the sign. -/
def optSign : List UInt8 → Bool × List UInt8
  | []     => (false, [])
  | c :: s => if c = 45 then (true, s) else if c = 43 then (false, s) else (false, c :: s)

/-- The sign of the number, its digits, and what is behind them. -/
def scanNumber (s : List UInt8) : Bool × List UInt8 × List UInt8 :=
  let (neg, s) := optSign (s.dropWhile isSpace)
  (neg, s.takeWhile isDigit, s.dropWhile isDigit)

def withSign (neg : Bool) (n : Nat) : Int := if neg then -n else n

/-- The value for a number of the given sign and size.  An unsigned type negates it modulo its
    number of values, but only if it can hold the number without its sign. -/
def strtoValue (T : IntType) (neg : Bool) (n : Nat) : T.Value :=
  if T.signed then T.clamp (withSign neg n)
  else if n ≤ T.max then T.conv (withSign neg n)
  else T.clamp n

/-- `strtol(s, &end, 10)`, `strtoul(s, &end, 10)`, …: the value and the offset of `end`.  Without
    digits there is no number, and nothing of the string is taken. -/
def strto (T : IntType) (s : CString) : T.Value × Nat :=
  let (neg, ds, rest) := scanNumber s.bytes
  if ds = [] then (T.clamp 0, 0)
  else (strtoValue T neg (digitsValue 10 ds), s.strlen - rest.length)

def strtol : CString → IntType.long.Value × Nat := strto .long
def strtoll : CString → IntType.longLong.Value × Nat := strto .longLong
def strtoul : CString → IntType.unsignedLong.Value × Nat := strto .unsignedLong
def strtoull : CString → IntType.unsignedLongLong.Value × Nat := strto .unsignedLongLong

/-! ### The texts that are numbers -/

/-- An optional sign. -/
inductive Sign : List UInt8 → Bool → Prop
  | none : Sign [] false
  | plus : Sign [43] false
  | minus : Sign [45] true

/-- Optional white space, an optional sign, one or more digits, and nothing else. -/
inductive Numeral : List UInt8 → Int → Prop
  | intro {ws sg ds : List UInt8} {neg : Bool} (hws : ∀ c ∈ ws, isSpace c = true)
      (hsg : Sign sg neg) (hds : ∀ c ∈ ds, isDigit c = true) (hne : ds ≠ []) :
      Numeral (ws ++ (sg ++ ds)) (withSign neg (digitsValue 10 ds))

variable {s sg ds : List UInt8} {neg : Bool} {z z' : Int} {T : IntType}

theorem optSign_eq (s : List UInt8) :
    ∃ sg, Sign sg (optSign s).1 ∧ s = sg ++ (optSign s).2 := by
  cases s with
  | nil => exact ⟨[], .none, rfl⟩
  | cons c s =>
    rw [optSign]
    split
    next h => exact ⟨[45], .minus, by simp [h]⟩
    next =>
      split
      next h => exact ⟨[43], .plus, by simp [h]⟩
      next => exact ⟨[], .none, rfl⟩

theorem optSign_append (hsg : Sign sg neg) (hds : ∀ c ∈ ds, isDigit c = true) :
    optSign (sg ++ ds) = (neg, ds) := by
  cases hsg with
  | plus | minus => rfl
  | none =>
    cases ds with
    | nil => rfl
    | cons c ds =>
      have hc : isDigit c = true := hds c List.mem_cons_self
      have hminus : c ≠ 45 := fun h => absurd (h ▸ hc) (by decide)
      have hplus : c ≠ 43 := fun h => absurd (h ▸ hc) (by decide)
      simp [optSign, hminus, hplus]

/-- A sign or a digit ends the white space. -/
theorem dropWhile_isSpace (hsg : Sign sg neg) (hds : ∀ c ∈ ds, isDigit c = true) :
    (sg ++ ds).dropWhile isSpace = sg ++ ds := by
  cases hsg with
  | plus | minus => rfl
  | none =>
    cases ds with
    | nil => rfl
    | cons c ds =>
      have hc : isDigit c = true := hds c List.mem_cons_self
      have hspace : ¬ isSpace c = true := by
        simp only [isDigit, isSpace, Bool.and_eq_true, Bool.or_eq_true, decide_eq_true_eq,
          beq_iff_eq, UInt8.le_iff_toNat_le, ← UInt8.toNat_inj] at hc ⊢
        simp only [UInt8.reduceToNat] at hc ⊢
        omega
      exact List.dropWhile_cons_of_neg hspace

/-- A number is read to its end. -/
theorem scanNumber_append {ws : List UInt8} (hws : ∀ c ∈ ws, isSpace c = true)
    (hsg : Sign sg neg) (hds : ∀ c ∈ ds, isDigit c = true) :
    scanNumber (ws ++ (sg ++ ds)) = (neg, ds, []) := by
  rw [scanNumber, List.dropWhile_append_of_pos hws, dropWhile_isSpace hsg hds,
    optSign_append hsg hds]
  simp [List.takeWhile_eq_self_iff.mpr hds, List.dropWhile_eq_nil_iff.mpr hds]

/-- What is read to its end is a number. -/
theorem numeral_of_scanNumber (hscan : scanNumber s = (neg, ds, [])) (hne : ds ≠ []) :
    Numeral s (withSign neg (digitsValue 10 ds)) := by
  simp only [scanNumber, Prod.mk.injEq] at hscan
  obtain ⟨hneg, htake, hdrop⟩ := hscan
  obtain ⟨sg, hsg, htext⟩ := optSign_eq (s.dropWhile isSpace)
  have hdigits : ∀ c ∈ ds, isDigit c = true := by
    intro c hc
    rw [← htake] at hc
    exact List.mem_takeWhile_imp hc
  have hall := List.takeWhile_append_dropWhile (p := isDigit)
    (l := (optSign (s.dropWhile isSpace)).2)
  rw [htake, hdrop, List.append_nil] at hall
  rw [hneg] at hsg
  rw [← hall] at htext
  have hspace : ∀ c ∈ s.takeWhile isSpace, isSpace c = true :=
    fun c hc => List.mem_takeWhile_imp hc
  have h := Numeral.intro hspace hsg hdigits hne
  rwa [← htext, List.takeWhile_append_dropWhile] at h

/-- The scanner and the grammar agree. -/
theorem numeral_iff : Numeral s z ↔ ∃ neg ds, scanNumber s = (neg, ds, []) ∧ ds ≠ [] ∧
    z = withSign neg (digitsValue 10 ds) := by
  refine ⟨?_, ?_⟩
  · rintro ⟨hws, hsg, hds, hne⟩
    exact ⟨_, _, scanNumber_append hws hsg hds, hne, rfl⟩
  · rintro ⟨neg, ds, hscan, hne, rfl⟩
    exact numeral_of_scanNumber hscan hne

/-- A text denotes one number at most. -/
theorem Numeral.unique (h : Numeral s z) (h' : Numeral s z') : z = z' := by
  obtain ⟨neg, ds, hscan, -, rfl⟩ := numeral_iff.mp h
  obtain ⟨neg', ds', hscan', -, rfl⟩ := numeral_iff.mp h'
  simp only [hscan, Prod.mk.injEq, and_true] at hscan'
  rw [hscan'.1, hscan'.2]

/-- The empty text is no number. -/
theorem not_numeral_nil : ¬ Numeral [] z := by
  rw [numeral_iff]
  rintro ⟨neg, ds, hscan, hne, -⟩
  simp only [scanNumber, Prod.mk.injEq] at hscan
  exact hne hscan.2.1.symm

theorem scanNumber_length_le (s : List UInt8) : (scanNumber s).2.2.length ≤ s.length := by
  obtain ⟨sg, -, htext⟩ := optSign_eq (s.dropWhile isSpace)
  have hdigits := List.length_dropWhile_le isDigit (optSign (s.dropWhile isSpace)).2
  have hspace := List.length_dropWhile_le isSpace s
  have hsign := congrArg List.length htext
  rw [List.length_append] at hsign
  show (List.dropWhile isDigit (optSign (s.dropWhile isSpace)).2).length ≤ s.length
  omega

/-! ### What the library makes of them -/

variable {str : CString}

/-- The number of a string that is not empty ends with the string exactly if there is nothing
    else in it. -/
theorem strto_end_iff (hstr : str.byte 0 ≠ 0) :
    str.byte (strto T str).2 = 0 ↔ ∃ z, Numeral str.bytes z := by
  obtain ⟨neg, ds, rest, hscan⟩ : ∃ neg ds rest, scanNumber str.bytes = (neg, ds, rest) :=
    ⟨_, _, _, rfl⟩
  have hrest : rest.length ≤ str.strlen := by
    simpa [hscan] using scanNumber_length_le str.bytes
  simp only [numeral_iff, strto, hscan, Prod.mk.injEq]
  by_cases hds : ds = []
  · simp only [hds, if_true, hstr, false_iff]
    rintro ⟨z, neg', ds', ⟨-, rfl, -⟩, hne, -⟩
    exact hne rfl
  · rw [if_neg hds]
    refine ⟨?_, ?_⟩
    · intro hend
      -- the end is the NUL, so the digits are the last characters
      have hnil : rest = [] := by
        by_contra hne
        have hpos := List.length_pos_of_ne_nil hne
        exact str.ne_nul _ (by omega) hend
      exact ⟨_, neg, ds, ⟨rfl, rfl, hnil⟩, hds, rfl⟩
    · rintro ⟨z, neg', ds', ⟨-, -, rfl⟩, -, -⟩
      exact str.nul

/-- A value that can be held is the number exactly if the number can be held. -/
theorem strtoValue_eq_iff {n : Nat} :
    (strtoValue T neg n : Int) = withSign neg n ↔ T.Fits (withSign neg n) := by
  refine ⟨fun h => h ▸ (strtoValue T neg n).2, fun h => ?_⟩
  unfold strtoValue
  split
  next => exact IntType.clamp_eq_iff.mpr h
  next hs =>
    split
    next => exact IntType.conv_eq_iff.mpr h
    next hmax =>
      -- the number has no minus sign, or it is zero
      cases neg with
      | false => exact IntType.clamp_eq_iff.mpr h
      | true =>
        have hle := IntType.zero_le_max (T := T)
        rw [IntType.fits_unsigned hs] at h
        simp only [withSign, if_true] at h
        omega

/-- The value of a string that denotes a number is that number exactly if the type can hold
    it. -/
theorem strto_eq_iff (h : Numeral str.bytes z) : ((strto T str).1 : Int) = z ↔ T.Fits z := by
  obtain ⟨neg, ds, hscan, hne, rfl⟩ := numeral_iff.mp h
  simp only [strto, hscan, if_neg hne]
  exact strtoValue_eq_iff

/-- A signed type takes the value that is nearest to the number. -/
theorem strto_signed (hs : T.signed = true) (h : Numeral str.bytes z) :
    (strto T str).1 = T.clamp z := by
  obtain ⟨neg, ds, hscan, hne, rfl⟩ := numeral_iff.mp h
  simp only [strto, hscan, if_neg hne]
  exact if_pos hs

end CModel
