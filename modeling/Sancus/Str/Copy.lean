import Sancus.CModel.CString
import Sancus.CModel.IntType

namespace Sancus.Str

open CModel

/-!
# Strings — bounded copies

The copies of `string.h` take the size of their destination as a signed number and the length
of their source as an unsigned one.  `sancus_memcpy` compares the two as signed numbers, and
copies as many bytes as the size has when it is read as an unsigned one.

* `sancusMemcpy`, `sancusStrncpy`, `sancusStrcpy` — the code, on the memory from `dest` on;
* `CopiesBytes`, `CopiesString` — what a bounded copy of bytes is to do, and one of a string;
* `copies_bounded_iff` — the copies of strings do it, and that of bytes does when the size is not
  negative.
-/

def ENOBUFS : Int := 105

/-! ### The code -/

/-- `sancus_memcpy`, with `src` the bytes from the source pointer on. -/
def sancusMemcpy (dest : Mem) (destSize : IntType.ssizeT.Value) (src : Nat → UInt8)
    (n : IntType.sizeT.Value) : Int × Mem :=
  let (n, ret) : IntType.sizeT.Value × Int :=
    if (IntType.ssizeT.conv n : Int) > destSize then (IntType.sizeT.conv destSize, -ENOBUFS)
    else (n, IntType.ssizeT.conv n)
  let dest := if (0 : Int) < n then dest.memcpy 0 src (n : Int).toNat else dest
  (ret, dest)

/-- `sancus_strncpy`. -/
def sancusStrncpy (dest : Mem) (destSize : IntType.ssizeT.Value) (src : Nat → UInt8)
    (n : IntType.sizeT.Value) : Int × Mem :=
  if (0 : Int) < destSize then
    let sz := IntType.sizeT.conv destSize
    let (n, ret) : IntType.sizeT.Value × Int :=
      if (n : Int) < sz then (n, IntType.ssizeT.conv n)
      else (IntType.sizeT.conv (sz - 1), -ENOBUFS)
    let dest := if (0 : Int) < n then dest.memcpy 0 src (n : Int).toNat else dest
    (ret, dest.store (n : Int).toNat [0])
  else (-ENOBUFS, dest)

/-- The bytes from a pointer on; there are none from a null pointer on. -/
def bytesFrom : Option CString → Nat → UInt8
  | some src, i => src.byte i
  | none,     _ => 0

/-- The length `sancus_strcpy` takes of its source. -/
def lengthOf : Option CString → Nat
  | some src => if src.byte 0 ≠ 0 then src.strlen else 0
  | none     => 0

/-- `sancus_strcpy`. -/
def sancusStrcpy (dest : Mem) (destSize : IntType.ssizeT.Value) (src : Option CString) :
    Int × Mem :=
  sancusStrncpy dest destSize (bytesFrom src) (IntType.sizeT.conv (lengthOf src))

/-! ### What a bounded copy is -/

/-- The first `n` bytes of the source. -/
def first (src : Nat → UInt8) (n : Nat) : List UInt8 := (Mem.fresh src).load 0 n

/-- A destination that nothing has been stored to. -/
def untouched (byte : Nat → UInt8) : Mem := Mem.fresh byte

/-- The copy of `n` bytes stores below `room` only; it returns `n` and has copied these when they
    fit, and `-ENOBUFS` and those that fit when they do not. -/
structure CopiesBytes (byte src : Nat → UInt8) (room n : Nat) (r : Int × Mem) : Prop where
  bounded : ∀ i ∈ r.2.stored, i < room
  fits : n ≤ room → r.1 = n ∧ (untouched byte).Wrote r.2 0 (first src n)
  cut : room < n → r.1 = -ENOBUFS ∧ (untouched byte).Wrote r.2 0 (first src room)

/-- The same for a string, which needs room for a NUL and ends with one where there is room for
    that at least. -/
structure CopiesString (byte src : Nat → UInt8) (room n : Nat) (r : Int × Mem) : Prop where
  bounded : ∀ i ∈ r.2.stored, i < room
  fits : n < room → r.1 = n ∧ (untouched byte).Wrote r.2 0 (first src n ++ [0])
  cut : room ≤ n → r.1 = -ENOBUFS ∧
    (untouched byte).Wrote r.2 0 (if 0 < room then first src (room - 1) ++ [0] else [])
  terminated : 0 < room → ∃ i < room, r.2.byte i = 0

variable {byte src : Nat → UInt8} {destSize : IntType.ssizeT.Value} {n : IntType.sizeT.Value}
  {k room : Nat} {ret : Int} {m : Mem}

/-! ### Sizes -/

theorem ssizeT_fits_iff {z : Int} : IntType.ssizeT.Fits z ↔ -2 ^ 63 ≤ z ∧ z < 2 ^ 63 :=
  IntType.fits_signed rfl

theorem sizeT_fits_iff {z : Int} : IntType.sizeT.Fits z ↔ 0 ≤ z ∧ z < 2 ^ 64 :=
  IntType.fits_unsigned (by decide)

/-- A size that is not negative is the same number when it is unsigned. -/
theorem sizeT_conv_of_nonneg {z : Int} (h : 0 ≤ z) (hz : z < 2 ^ 63) :
    (IntType.sizeT.conv z : Int) = z :=
  IntType.conv_eq_iff.mpr (sizeT_fits_iff.mpr ⟨h, by omega⟩)

/-- A negative one is far above every size. -/
theorem sizeT_conv_of_neg {z : Int} (h : z < 0) (hz : -2 ^ 63 ≤ z) :
    2 ^ 63 ≤ (IntType.sizeT.conv z : Int) := by
  have hmod : (IntType.sizeT.conv z : Int) = z % 2 ^ 64 := rfl
  rw [hmod]
  omega

theorem ssizeT_conv_of_lt {z : Int} (h : 0 ≤ z) (hz : z < 2 ^ 63) :
    (IntType.ssizeT.conv z : Int) = z :=
  IntType.conv_eq_iff.mpr (ssizeT_fits_iff.mpr ⟨by omega, hz⟩)

/-- A length of more than a signed number can hold is negative as one. -/
theorem ssizeT_conv_of_ge {z : Int} (h : 2 ^ 63 ≤ z) (hz : z < 2 ^ 64) :
    (IntType.ssizeT.conv z : Int) < 0 := by
  have hmod : (IntType.ssizeT.conv z : Int) = z.bmod (2 ^ 64) := rfl
  rw [hmod, Int.bmod]
  omega

/-! ### What is stored -/

@[simp] theorem first_length (src : Nat → UInt8) (k : Nat) : (first src k).length = k :=
  Mem.load_length _ 0 k

/-- The `memcpy` of the functions, which they leave out for no bytes. -/
theorem stored_copied (z : Int) :
    (if 0 < z then m.memcpy 0 src z.toNat else m).stored = List.range' 0 z.toNat ++ m.stored := by
  split
  · exact m.stored_memcpy 0 src z.toNat
  · next hz =>
    have hzero : z.toNat = 0 := by omega
    rw [hzero]
    rfl

theorem wrote_copied (m : Mem) (src : Nat → UInt8) (z : Int) :
    m.Wrote (if 0 < z then m.memcpy 0 src z.toNat else m) 0 (first src z.toNat) := by
  split
  · exact m.wrote_store 0 (first src z.toNat)
  · next hz =>
    have hzero : z.toNat = 0 := by omega
    rw [hzero]
    exact m.wrote_nil 0

/-- What was written of a run of at most `room` bytes is below `room`. -/
theorem bounded_of_wrote {bs : List UInt8} (h : (untouched byte).Wrote m 0 bs)
    (hroom : bs.length ≤ room) : ∀ i ∈ m.stored, i < room := by
  intro i hi
  rcases h.stored_sub i hi with hi | ⟨_, hi⟩
  · simp [untouched] at hi
  · omega

/-! ### The copy of bytes -/

/-- As long as its size is not negative, and its length not as a signed number. -/
theorem sancusMemcpy_copies (hsize : 0 ≤ (destSize : Int)) (hn : (n : Int) < 2 ^ 63) :
    CopiesBytes byte src (destSize : Int).toNat (n : Int).toNat
      (sancusMemcpy (untouched byte) destSize src n) := by
  have hds := ssizeT_fits_iff.mp destSize.2
  have hnpos := (sizeT_fits_iff.mp n.2).1
  unfold sancusMemcpy
  rw [ssizeT_conv_of_lt hnpos hn]
  by_cases hgt : (n : Int) > destSize
  · rw [if_pos hgt]
    dsimp only
    rw [sizeT_conv_of_nonneg hsize hds.2]
    have hwrote := wrote_copied (untouched byte) src destSize
    refine ⟨bounded_of_wrote hwrote (by simp), fun hle => ?_, fun _ => ⟨rfl, hwrote⟩⟩
    omega
  · rw [if_neg hgt]
    have hwrote := wrote_copied (untouched byte) src n
    refine ⟨bounded_of_wrote hwrote (by simp; omega), fun _ => ⟨?_, hwrote⟩, fun hlt => ?_⟩
    · exact (Int.toNat_of_nonneg hnpos).symm
    · omega

/-- It is not bounded otherwise. -/
theorem CopiesBytes.nonneg (h : CopiesBytes byte src (destSize : Int).toNat (n : Int).toNat
    (sancusMemcpy (untouched byte) destSize src n)) :
    0 ≤ (destSize : Int) ∧ (n : Int) < 2 ^ 63 := by
  have hds := ssizeT_fits_iff.mp destSize.2
  have hn := sizeT_fits_iff.mp n.2
  -- no more bytes were copied than there is room for
  have hle : ∀ z : Int, (sancusMemcpy (untouched byte) destSize src n).2 =
      (if 0 < z then (untouched byte).memcpy 0 src z.toNat else untouched byte) →
        z.toNat ≤ (destSize : Int).toNat := by
    intro z hz
    by_contra hlt
    have hmem : (destSize : Int).toNat ∈
        (sancusMemcpy (untouched byte) destSize src n).2.stored := by
      rw [hz, stored_copied, List.mem_append, List.mem_range'_1]
      exact .inl ⟨Nat.zero_le _, by omega⟩
    exact absurd (h.bounded _ hmem) (lt_irrefl _)
  by_cases hgt : (IntType.ssizeT.conv n : Int) > destSize
  · have hcopied := hle (IntType.sizeT.conv destSize) (by rw [sancusMemcpy, if_pos hgt])
    have hsize : 0 ≤ (destSize : Int) := by
      by_contra hneg
      have hfar := sizeT_conv_of_neg (not_le.mp hneg) hds.1
      omega
    refine ⟨hsize, ?_⟩
    by_contra hge
    have hneg := ssizeT_conv_of_ge (not_lt.mp hge) hn.2
    omega
  · have hcopied := hle n (by rw [sancusMemcpy, if_neg hgt])
    have hlt : (n : Int) < 2 ^ 63 := by omega
    rw [ssizeT_conv_of_lt hn.1 hlt] at hgt
    exact ⟨by omega, hlt⟩

/-! ### The copies of strings -/

/-- The bytes that fit, and a NUL behind them. -/
theorem copiesString_of_wrote {l : Nat} (hfirst : (untouched byte).Wrote m 0 (first src l))
    (hl : l < room) (hfits : k < room → ret = k ∧ l = k)
    (hcut : room ≤ k → ret = -ENOBUFS ∧ l = room - 1) :
    CopiesString byte src room k (ret, m.store l [0]) := by
  have hnul := m.wrote_store (0 + (first src l).length) [0]
  have hwrote := hfirst.append hnul
  rw [Nat.zero_add, first_length] at hwrote
  refine ⟨bounded_of_wrote hwrote (by simp; omega), ?_, ?_, ?_⟩
  · intro hlt
    obtain ⟨hret, hlk⟩ := hfits hlt
    exact ⟨hret, hlk ▸ hwrote⟩
  · intro hle
    obtain ⟨hret, hlr⟩ := hcut hle
    rw [if_pos (by omega)]
    exact ⟨hret, hlr ▸ hwrote⟩
  · intro _
    refine ⟨l, hl, ?_⟩
    simp [Mem.store]

/-- Whatever the size and the length: the comparison is one of unsigned numbers, and is made
    when the size is not negative. -/
theorem sancusStrncpy_copies :
    CopiesString byte src (destSize : Int).toNat (n : Int).toNat
      (sancusStrncpy (untouched byte) destSize src n) := by
  have hds := ssizeT_fits_iff.mp destSize.2
  have hn := sizeT_fits_iff.mp n.2
  unfold sancusStrncpy
  by_cases hpos : (0 : Int) < destSize
  · rw [if_pos hpos]
    dsimp only
    rw [sizeT_conv_of_nonneg (z := (destSize : Int)) (by omega) hds.2]
    by_cases hlt : (n : Int) < destSize
    · rw [if_pos hlt]
      dsimp only
      rw [ssizeT_conv_of_lt hn.1 (by omega)]
      exact copiesString_of_wrote (wrote_copied _ _ n) (by omega) (by omega) (by omega)
    · rw [if_neg hlt]
      dsimp only
      rw [sizeT_conv_of_nonneg (by omega) (by omega)]
      exact copiesString_of_wrote (wrote_copied _ _ (destSize - 1)) (by omega) (by omega) (by omega)
  · rw [if_neg hpos]
    have hzero : (destSize : Int).toNat = 0 := by omega
    rw [hzero]
    refine ⟨by simp [untouched], by simp, ?_, by simp⟩
    intro _
    exact ⟨rfl, (untouched byte).wrote_nil 0⟩

/-! ### The result -/

/-- **When the copies respect their destination.**  For every size, negative ones included, every
    length and every source: `sancus_memcpy` exactly when the size is not negative, and the length
    one that a signed number can hold; `sancus_strncpy` always, and `sancus_strcpy` too. -/
theorem copies_bounded_iff (byte src : Nat → UInt8) (destSize : IntType.ssizeT.Value)
    (n : IntType.sizeT.Value) (str : Option CString)
    (hstr : IntType.sizeT.Fits (lengthOf str)) :
    (CopiesBytes byte src (destSize : Int).toNat (n : Int).toNat
        (sancusMemcpy (untouched byte) destSize src n) ↔
      0 ≤ (destSize : Int) ∧ (n : Int) < 2 ^ 63) ∧
    CopiesString byte src (destSize : Int).toNat (n : Int).toNat
      (sancusStrncpy (untouched byte) destSize src n) ∧
    CopiesString byte (bytesFrom str) (destSize : Int).toNat (lengthOf str)
      (sancusStrcpy (untouched byte) destSize str) := by
  refine ⟨⟨CopiesBytes.nonneg, fun ⟨hsize, hn⟩ => sancusMemcpy_copies hsize hn⟩,
    sancusStrncpy_copies, ?_⟩
  have hlength : ((IntType.sizeT.conv (lengthOf str) : Int)).toNat = lengthOf str := by
    rw [IntType.conv_eq_iff.mpr hstr, Int.toNat_natCast]
  rw [← hlength]
  exact sancusStrncpy_copies

/-- A size of -1, which is no room at all, and a string of two characters. -/
theorem copies_bounded_iff_negative :
    (CopiesBytes (fun _ => 0) (fun _ => 65) (IntType.ssizeT.conv (-1) : Int).toNat
        (IntType.sizeT.conv 3 : Int).toNat
        (sancusMemcpy (untouched fun _ => 0) (IntType.ssizeT.conv (-1)) (fun _ => 65)
          (IntType.sizeT.conv 3)) ↔
      0 ≤ (IntType.ssizeT.conv (-1) : Int) ∧ (IntType.sizeT.conv 3 : Int) < 2 ^ 63) ∧
    CopiesString (fun _ => 0) (fun _ => 65) (IntType.ssizeT.conv (-1) : Int).toNat
      (IntType.sizeT.conv 3 : Int).toNat
      (sancusStrncpy (untouched fun _ => 0) (IntType.ssizeT.conv (-1)) (fun _ => 65)
        (IntType.sizeT.conv 3)) ∧
    CopiesString (fun _ => 0) (bytesFrom (some (.ofBytes [104, 105])))
      (IntType.ssizeT.conv (-1) : Int).toNat (lengthOf (some (.ofBytes [104, 105])))
      (sancusStrcpy (untouched fun _ => 0) (IntType.ssizeT.conv (-1))
        (some (.ofBytes [104, 105]))) :=
  copies_bounded_iff (fun _ => 0) (fun _ => 65) (IntType.ssizeT.conv (-1)) (IntType.sizeT.conv 3)
    (some (.ofBytes [104, 105])) (by decide)

/-- **Out of bounds.**  Of no bytes, and with a size of -1, `sancus_memcpy` copies as many as an
    address space has. -/
theorem memcpy_negative_size :
    ¬ CopiesBytes (fun _ => 0) (fun _ => 65) (IntType.ssizeT.conv (-1) : Int).toNat
        (IntType.sizeT.conv 0 : Int).toNat
        (sancusMemcpy (untouched fun _ => 0) (IntType.ssizeT.conv (-1)) (fun _ => 65)
          (IntType.sizeT.conv 0)) := by
  intro h
  exact absurd h.nonneg.1 (by decide)

end Sancus.Str
