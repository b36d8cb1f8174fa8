import Sancus.Types.Model

namespace Sancus.Types

open CModel

/-!
# Types — strings as integers

A string is taken for a number if the digits go on to its end.  Whether the number fits the type
is not looked at, and the library has no room in its result to say so, except that a narrower
range than that of the type shows what has been cut.

* `Denotes` — the string is a number, and which;
* `Exact` — the conversion takes the numbers that fit the type, and stores them;
* `getStrto_exact_iff_fits` — so it does exactly with the strings whose number fits;
* `getGeleStrtoK_exact` — so it does with all strings if it goes through a wider type.
-/

/-- The string is a number and nothing else, and `z` is the number. -/
def Denotes (s : Option CString) (z : Int) : Prop := ∃ str ∈ s, Numeral str.bytes z

/-- What a conversion of `s` should do: succeed exactly with a number that the type can hold, and
    store that number. -/
structure Exact {T : IntType} (s : Option CString) (out : Cell T) (r : Bool × Cell T) : Prop where
  accepts : r.1 = true ↔ ∃ z, Denotes s z ∧ T.Fits z
  stores : ∀ z (h : T.Fits z), Denotes s z → r.2 = store out ⟨z, h⟩

variable {T T0 T1 : IntType} {s : Option CString} {z z' : Int}

theorem Denotes.unique (h : Denotes s z) (h' : Denotes s z') : z = z' := by
  obtain ⟨str, hstr, hz⟩ := h
  obtain ⟨str', hstr', hz'⟩ := h'
  cases Option.mem_unique hstr hstr'
  exact hz.unique hz'

/-! ### The conversions of the library -/

/-- The empty string is no number. -/
theorem not_numeral_of_nul {str : CString} (hnul : str.byte 0 = 0) : ¬ Numeral str.bytes z := by
  have hnil : str.bytes = [] := by
    rw [← List.length_eq_zero_iff, CString.bytes_length]
    by_contra hne
    exact str.ne_nul 0 (Nat.pos_of_ne_zero hne) hnul
  rw [hnil]
  exact not_numeral_nil

/-- A string is accepted exactly if it is a number, of any size. -/
theorem getStrto_accepts (s : Option CString) (out : Cell T) :
    (getStrto (strto T) s out).1 = true ↔ ∃ z, Denotes s z := by
  cases s with
  | none => simp [getStrto, Denotes]
  | some str =>
    by_cases hnul : str.byte 0 = 0
    · simp [getStrto, Denotes, hnul, not_numeral_of_nul]
    · simp [getStrto, Denotes, hnul, strto_end_iff hnul]

/-- What is stored for a number is the value of the library. -/
theorem getStrto_stores (h : Denotes s z) (out : Cell T) :
    ∃ str ∈ s, Numeral str.bytes z ∧ (getStrto (strto T) s out).2 = store out (strto T str).1 := by
  obtain ⟨str, rfl, hz⟩ := h
  have hnul : str.byte 0 ≠ 0 := fun hnul => not_numeral_of_nul hnul hz
  exact ⟨str, rfl, hz, by simp [getStrto, hnul]⟩

/-- A conversion is exact precisely on the strings whose number, if they are one, fits the
    type. -/
theorem getStrto_exact_iff_fits (s : Option CString) (out : Cell T) :
    Exact s out (getStrto (strto T) s out) ↔ ∀ z, Denotes s z → T.Fits z := by
  refine ⟨?_, ?_⟩
  · intro hexact z hz
    obtain ⟨z', hz', hfits⟩ := hexact.accepts.mp ((getStrto_accepts s out).mpr ⟨z, hz⟩)
    rwa [hz.unique hz']
  · intro hfits
    refine ⟨?_, ?_⟩
    · rw [getStrto_accepts]
      exact exists_congr fun z => (and_iff_left_of_imp (hfits z)).symm
    · intro z h hz
      obtain ⟨str, -, hnum, hstore⟩ := getStrto_stores hz out
      rw [hstore]
      congr
      exact Subtype.ext ((strto_eq_iff hnum).mpr h)

/-- **The conversions of strings**: each of the four is exact precisely on the strings whose number,
    if they are one, fits its type. -/
theorem get_strto_exact_iff (s : Option CString) (l : Cell .long) (ll : Cell .longLong)
    (ul : Cell .unsignedLong) (ull : Cell .unsignedLongLong) :
    (Exact s l (sancusGetLs s l) ↔ ∀ z, Denotes s z → IntType.long.Fits z) ∧
    (Exact s ll (sancusGetLls s ll) ↔ ∀ z, Denotes s z → IntType.longLong.Fits z) ∧
    (Exact s ul (sancusGetUls s ul) ↔ ∀ z, Denotes s z → IntType.unsignedLong.Fits z) ∧
    (Exact s ull (sancusGetUlls s ull) ↔ ∀ z, Denotes s z → IntType.unsignedLongLong.Fits z) :=
  ⟨getStrto_exact_iff_fits s l, getStrto_exact_iff_fits s ll, getStrto_exact_iff_fits s ul,
    getStrto_exact_iff_fits s ull⟩

/-- `"9223372036854775808"`, which is one more than the largest `long`. -/
def pastLongMax : CString :=
  .ofBytes [57, 50, 50, 51, 51, 55, 50, 48, 51, 54, 56, 53, 52, 55, 55, 53, 56, 48, 56]

/-- `"-1"` -/
def minusOne : CString := .ofBytes [45, 49]

/-- A number too large is taken for the largest of the type, and one below zero for a large one. -/
theorem get_strto_inexact :
    ¬ Exact (some pastLongMax) (some (IntType.long.conv 0))
      (sancusGetLs (some pastLongMax) (some (IntType.long.conv 0))) ∧
    ¬ Exact (some minusOne) (some (IntType.unsignedLong.conv 0))
      (sancusGetUls (some minusOne) (some (IntType.unsignedLong.conv 0))) := by
  have hmax : Denotes (some pastLongMax) (2 ^ 63) :=
    ⟨_, rfl, numeral_iff.mpr ⟨false, pastLongMax.bytes, by decide, by decide, by decide⟩⟩
  have hminus : Denotes (some minusOne) (-1) :=
    ⟨_, rfl, numeral_iff.mpr ⟨true, [49], by decide, by decide, by decide⟩⟩
  refine ⟨fun h => ?_, fun h => ?_⟩
  · exact absurd ((getStrto_exact_iff_fits _ _).mp h _ hmax) (by decide)
  · exact absurd ((getStrto_exact_iff_fits _ _).mp h _ hminus) (by decide)

/-! ### An `int` by way of a `long` -/

/-- A signed type gets the nearest value to the number. -/
theorem getStrto_signed (hs : T.signed = true) (h : Denotes s z) (out : Cell T) :
    getStrto (strto T) s out = (true, store out (T.clamp z)) := by
  obtain ⟨str, -, hnum, hstore⟩ := getStrto_stores h out
  rw [strto_signed hs hnum] at hstore
  exact Prod.ext ((getStrto_accepts s out).mpr ⟨z, h⟩) hstore

/-- A string that is no number is refused. -/
theorem getStrto_refuses (h : ∀ z, ¬ Denotes s z) (out : Cell T) :
    ∃ r, getStrto (strto T) s out = (false, r) := by
  refine ⟨_, Prod.ext ?_ rfl⟩
  rw [← Bool.not_eq_true, getStrto_accepts]
  exact fun ⟨z, hz⟩ => h z hz

/-- A range within that of the type that the string is read as is checked in full: what does not
    fit that type is out of the range after it has been cut. -/
theorem getGeleStrtoK_denotes (hs : T0.signed = true) (hmin : T0.min < T1.min)
    (hmax : T1.max < T0.max) (h : Denotes s z) (out : Cell T1) :
    getGeleStrtoK (getStrto (strto T0)) T1.min T1.max s out =
      if T1.Fits z then (true, store out (T1.conv z)) else (false, out) := by
  have hrange : (T1.min ≤ T0.clamp z ∧ T0.clamp z ≤ T1.max) ↔ T1.Fits z :=
    IntType.fits_clamp_iff hmin hmax
  simp only [getGeleStrtoK, getStrto_signed hs h, store, Option.map_some, ge_iff_le, hrange]
  split
  next hfits =>
    have hcut : (T0.clamp z : Int) = z := by
      apply IntType.clamp_eq_iff.mpr
      exact hfits.mono (Int.le_of_lt hmin) (Int.le_of_lt hmax)
    rw [hcut]
  next => rfl

theorem getGeleStrtoK_refuses (h : ∀ z, ¬ Denotes s z) (a b : Int) (out : Cell T1) :
    getGeleStrtoK (getStrto (strto T0)) a b s out = (false, out) := by
  obtain ⟨r, hr⟩ := getStrto_refuses h (some (T0.conv 0))
  rw [getGeleStrtoK, hr]

/-- A conversion by way of a wider type is exact on every string. -/
theorem getGeleStrtoK_exact (hs : T0.signed = true) (hmin : T0.min < T1.min)
    (hmax : T1.max < T0.max) (s : Option CString) (out : Cell T1) :
    Exact s out (getGeleStrtoK (getStrto (strto T0)) T1.min T1.max s out) ∧
    ((getGeleStrtoK (getStrto (strto T0)) T1.min T1.max s out).1 = false →
      (getGeleStrtoK (getStrto (strto T0)) T1.min T1.max s out).2 = out) := by
  by_cases h : ∃ z, Denotes s z ∧ T1.Fits z
  · obtain ⟨z, hz, hfits⟩ := h
    rw [getGeleStrtoK_denotes hs hmin hmax hz, if_pos hfits]
    refine ⟨⟨by simpa using ⟨z, hz, hfits⟩, fun z' h' hz' => ?_⟩, by simp⟩
    obtain rfl := hz.unique hz'
    rw [IntType.conv_of_fits h']
  · have hrefuses : getGeleStrtoK (getStrto (strto T0)) T1.min T1.max s out = (false, out) := by
      by_cases hs' : ∃ z, Denotes s z
      · obtain ⟨z, hz⟩ := hs'
        rw [getGeleStrtoK_denotes hs hmin hmax hz, if_neg fun hfits => h ⟨z, hz, hfits⟩]
      · exact getGeleStrtoK_refuses (not_exists.mp hs') _ _ out
    rw [hrefuses]
    exact ⟨⟨by simp [h], fun z hfits hz => absurd ⟨z, hz, hfits⟩ h⟩, fun _ => rfl⟩

/-- **Parsing an `int` is exact**: it takes the strings that are a number and no other, of those
    the ones that an `int` can hold, and leaves what `out` points to alone otherwise. -/
theorem sancusGetDs_exact (s : Option CString) (out : Cell .int) :
    Exact s out (sancusGetDs s out) ∧
    ((sancusGetDs s out).1 = false → (sancusGetDs s out).2 = out) := by
  have hmin : IntType.long.min < IntType.int.min := by decide
  have hmax : IntType.int.max < IntType.long.max := by decide
  exact getGeleStrtoK_exact rfl hmin hmax s out

end Sancus.Types
