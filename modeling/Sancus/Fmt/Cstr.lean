import Sancus.CModel.Greedy
import Sancus.CModel.Memory

namespace Sancus.Fmt

open CModel

/-!
# Formatting — data as the text of a C string

`sancus_fmt_ascii_cstr` writes each byte as itself, as a backslash and a letter, or in hexadecimal,
and stops at the first that would leave no room for the NUL.

* `ascii`, `cstrLoop`, `sancusFmtAsciiCstr` — the code;
* `cstrEscape` — what is written for one byte;
* `cstr_longest_fitting` — the text is the encoding of the longest prefix that fits.
-/

/-! ### The code -/

/-- The table `ascii`. -/
def ascii : List UInt8 :=
  [48, 0, 0, 0, 0, 0, 0, 97, 98, 116, 110, 118, 102, 114, 0, 0,
   0, 0, 0, 0, 0, 0, 0, 0, 0, 0, 0, 0, 0, 0, 0, 0,
   32, 33, 34, 35, 36, 37, 38, 39, 40, 41, 42, 43, 44, 45, 46, 47,
   48, 49, 50, 51, 52, 53, 54, 55, 56, 57, 58, 59, 60, 61, 62, 63,
   64, 65, 66, 67, 68, 69, 70, 71, 72, 73, 74, 75, 76, 77, 78, 79,
   80, 81, 82, 83, 84, 85, 86, 87, 88, 89, 90, 91, 92, 93, 94, 95,
   96, 97, 98, 99, 100, 101, 102, 103, 104, 105, 106, 107, 108, 109, 110, 111,
   112, 113, 114, 115, 116, 117, 118, 119, 120, 121, 122, 123, 124, 125, 126, 0]

/-- The characters of the string `hexa`. -/
def hexa : List UInt8 := [48, 49, 50, 51, 52, 53, 54, 55, 56, 57, 97, 98, 99, 100, 101, 102]

/-- The letter `e` of a byte, 0 if it has none. -/
def cstrLetter (c : UInt8) : UInt8 := if c &&& 0x80 ≠ 0 then 0 else ascii.getD c.toNat 0

/-- The number `l` of characters a byte takes. -/
def cstrWidth (c : UInt8) : Nat :=
  if cstrLetter c = 0 then 4
  else if c < 32 ∨ cstrLetter c = 34 ∨ cstrLetter c = 92 then 2
  else 1

/-- The characters that the `switch` stores, with the case of 2 falling through to that of 1. -/
def cstrSwitch (l : Nat) (c : UInt8) : List UInt8 :=
  match l with
  | 2 => [92, cstrLetter c]
  | 1 => [cstrLetter c]
  | 4 => [92, 120, hexa.getD ((c &&& 0xf0) >>> 4).toNat 0, hexa.getD (c &&& 0x0f).toNat 0]
  | _ => []

/-- The loop, with what is left of the data and of `buf_len`: the memory, where `buf` points to
    in the end, and `len`. -/
def cstrLoop : List UInt8 → Mem → Nat → Nat → Nat → Mem × Nat × Nat
  | [],        m, buf, _,      len => (m, buf, len)
  | c :: data, m, buf, bufLen, len =>
    let l := cstrWidth c
    if bufLen ≤ l then (m, buf, len)
    else
      let chars := cstrSwitch l c
      cstrLoop data (m.store buf chars) (buf + chars.length) (bufLen - l) (len + l)

/-- `sancus_fmt_ascii_cstr`, with the memory from the buffer on and the length it returns; `none`
    if an assertion fails. -/
def sancusFmtAsciiCstr (m : Mem) (bufLen : Nat) (data : List UInt8) : Option (Mem × Nat) :=
  if 0 < bufLen ∧ 0 < data.length then
    let (m', buf, len) := cstrLoop data m 0 bufLen 0
    some (m'.store buf [0], len)
  else none

/-! ### The encoding -/

/-- What is written for a byte. -/
def cstrEscape (c : UInt8) : List UInt8 := cstrSwitch (cstrWidth c) c

/-- The room that is asked for is what is written. -/
theorem cstrEscape_length (c : UInt8) : (cstrEscape c).length = cstrWidth c := by
  unfold cstrEscape cstrWidth
  split
  · rfl
  · split <;> rfl

/-- The loop appends the encoding of the longest prefix that leaves room for a NUL. -/
theorem cstrLoop_eq (data : List UInt8) (m : Mem) (buf len : Nat) {bufLen : Nat}
    (hpos : 0 < bufLen) :
    ∃ m', cstrLoop data m buf bufLen len =
        (m', buf + ((fitting cstrEscape (bufLen - 1) data).flatMap cstrEscape).length,
          len + ((fitting cstrEscape (bufLen - 1) data).flatMap cstrEscape).length) ∧
      Mem.Wrote m m' buf ((fitting cstrEscape (bufLen - 1) data).flatMap cstrEscape) := by
  induction data generalizing m buf bufLen len with
  | nil => exact ⟨m, rfl, m.wrote_nil buf⟩
  | cons c data ih =>
    have hwidth := cstrEscape_length c
    rw [cstrLoop, fitting]
    by_cases hroom : bufLen ≤ cstrWidth c
    · rw [if_pos hroom, if_neg (by omega)]
      exact ⟨m, rfl, m.wrote_nil buf⟩
    · rw [if_neg hroom, if_pos (by omega), hwidth]
      have hrest : bufLen - 1 - cstrWidth c = bufLen - cstrWidth c - 1 := by omega
      obtain ⟨m', heq, hwrote⟩ := ih (m.store buf (cstrEscape c)) (buf + (cstrEscape c).length)
        (len + cstrWidth c) (show 0 < bufLen - cstrWidth c by omega)
      refine ⟨m', ?_, ?_⟩
      · show cstrLoop data (m.store buf (cstrEscape c)) (buf + (cstrEscape c).length) _ _ = _
        rw [heq, hrest, List.flatMap_cons, List.length_append, hwidth, Nat.add_assoc,
          Nat.add_assoc]
      · rw [hrest, List.flatMap_cons]
        exact (m.wrote_store buf _).append hwrote

/-- What a call leaves in the buffer and returns. -/
theorem sancusFmtAsciiCstr_eq (m : Mem) {bufLen : Nat} {data : List UInt8} (hpos : 0 < bufLen)
    (hdata : data ≠ []) :
    ∃ m', sancusFmtAsciiCstr m bufLen data =
        some (m', ((fitting cstrEscape (bufLen - 1) data).flatMap cstrEscape).length) ∧
      Mem.Wrote m m' 0 ((fitting cstrEscape (bufLen - 1) data).flatMap cstrEscape ++ [0]) := by
  obtain ⟨m', heq, hwrote⟩ := cstrLoop_eq data m 0 0 hpos
  unfold sancusFmtAsciiCstr
  rw [if_pos ⟨hpos, List.length_pos_iff.mpr hdata⟩, heq, Nat.zero_add]
  exact ⟨_, rfl, hwrote.append (by rw [Nat.zero_add]; exact m'.wrote_store _ [0])⟩

/-- **The text is the encoding of the longest prefix that fits.**  For every buffer that is not
    empty and all data that are not: only the buffer is written to, the length returned is that of
    the encoding of the longest prefix that takes less than the buffer, and the buffer holds this
    encoding and a NUL.  With a longer buffer the text goes on where it ended. -/
theorem cstr_longest_fitting (data : List UInt8) (hdata : data ≠ []) :
    (∀ (byte : Nat → UInt8) (bufLen : Nat), 1 ≤ bufLen →
      ∃ m' p, sancusFmtAsciiCstr (Mem.fresh byte) bufLen data =
          some (m', (p.flatMap cstrEscape).length) ∧
        LongestFitting cstrEscape (bufLen - 1) data p ∧ (∀ i ∈ m'.stored, i < bufLen) ∧
        m'.load 0 ((p.flatMap cstrEscape).length + 1) = p.flatMap cstrEscape ++ [0]) ∧
    ∀ (m₁ m₂ m₁' m₂' : Mem) (b₁ b₂ n₁ n₂ : Nat), 1 ≤ b₁ → b₁ ≤ b₂ →
      sancusFmtAsciiCstr m₁ b₁ data = some (m₁', n₁) →
      sancusFmtAsciiCstr m₂ b₂ data = some (m₂', n₂) → m₁'.load 0 n₁ <+: m₂'.load 0 n₂ := by
  refine ⟨?_, ?_⟩
  · intro byte bufLen hpos
    obtain ⟨m', heq, hwrote⟩ := sancusFmtAsciiCstr_eq (Mem.fresh byte) hpos hdata
    have hlongest := fitting_longest cstrEscape (bufLen - 1) data
    refine ⟨m', _, heq, hlongest, ?_, ?_⟩
    · intro i hi
      have hfits := hlongest.fits
      have hin := hwrote.stored_sub i hi
      rw [Mem.fresh_stored, List.length_append, List.length_singleton] at hin
      have hlt := hin.resolve_left List.not_mem_nil
      omega
    · have hload := hwrote.load_eq
      rwa [List.length_append] at hload
  · intro m₁ m₂ m₁' m₂' b₁ b₂ n₁ n₂ hpos hle h₁ h₂
    have htext : ∀ {m m' : Mem} {b n : Nat}, 1 ≤ b →
        sancusFmtAsciiCstr m b data = some (m', n) →
        m'.load 0 n = (fitting cstrEscape (b - 1) data).flatMap cstrEscape := by
      intro m m' b n hb h
      obtain ⟨m₀, heq, hwrote⟩ := sancusFmtAsciiCstr_eq m hb hdata
      obtain ⟨rfl, rfl⟩ := Prod.mk.inj (Option.some.inj (heq.symm.trans h))
      have hload := hwrote.load_eq
      rw [List.length_append, Mem.load_add] at hload
      exact List.append_inj_left hload (Mem.load_length _ _ _)
    rw [htext hpos h₁, htext (by omega) h₂]
    apply prefix_flatMap
    exact (fitting_longest _ (b₁ - 1) data).mono (by omega) (fitting_longest _ (b₂ - 1) data)

/-- The rule for an `A` and a bell, in three bytes and in four. -/
theorem cstr_longest_fitting_bell :
    (∀ (byte : Nat → UInt8) (bufLen : Nat), 1 ≤ bufLen →
      ∃ m' p, sancusFmtAsciiCstr (Mem.fresh byte) bufLen [65, 7] =
          some (m', (p.flatMap cstrEscape).length) ∧
        LongestFitting cstrEscape (bufLen - 1) [65, 7] p ∧ (∀ i ∈ m'.stored, i < bufLen) ∧
        m'.load 0 ((p.flatMap cstrEscape).length + 1) = p.flatMap cstrEscape ++ [0]) ∧
    (fitting cstrEscape (3 - 1) [65, 7]).flatMap cstrEscape = [65] ∧
    (fitting cstrEscape (4 - 1) [65, 7]).flatMap cstrEscape = [65, 92, 97] :=
  ⟨(cstr_longest_fitting [65, 7] (by decide)).1, by decide, by decide⟩

end Sancus.Fmt
