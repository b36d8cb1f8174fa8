import Sancus.CModel.Memory
import Mathlib.Data.List.GetD

namespace CModel

/-!
# C memory models — strings

A `const char *` argument that points to something: the bytes from the pointer on, of which
a function reads as many as it is told to, or those up to the first NUL.
-/

/-- The bytes from a pointer on, the first NUL being at `strlen`. -/
structure CString where
  byte : Nat → UInt8
  strlen : Nat
  nul : byte strlen = 0
  ne_nul : ∀ i < strlen, byte i ≠ 0

namespace CString

/-- The first `n` bytes from the pointer on, past the NUL or not. -/
def read (s : CString) (n : Nat) : List UInt8 := (Mem.fresh s.byte).load 0 n

/-- The characters of the string, without the NUL. -/
def bytes (s : CString) : List UInt8 := s.read s.strlen

/-- The bytes `bs`, and NULs behind them. -/
def ofBytes (bs : List UInt8) : CString where
  byte i := bs.getD i 0
  strlen := bs.findIdx (· == 0)
  nul := by
    by_cases h : bs.findIdx (· == 0) < bs.length
    · rw [List.getD_eq_getElem _ _ h]
      exact eq_of_beq (List.findIdx_getElem (w := h))
    · exact List.getD_eq_default _ _ (Nat.not_lt.mp h)
  ne_nul i hi := by
    have hlen : i < bs.length := Nat.lt_of_lt_of_le hi List.findIdx_le_length
    rw [List.getD_eq_getElem _ _ hlen]
    exact ne_of_beq_false (List.not_of_lt_findIdx hi)

/-- The empty string. -/
def empty : CString := ⟨fun _ => 0, 0, rfl, nofun⟩

@[simp] theorem read_length (s : CString) (n : Nat) : (s.read n).length = n :=
  Mem.load_length _ 0 n

@[simp] theorem bytes_length (s : CString) : s.bytes.length = s.strlen := s.read_length s.strlen

@[simp] theorem read_ofBytes (bs : List UInt8) : (ofBytes bs).read bs.length = bs :=
  Mem.load_ofBytes bs

theorem strlen_ofBytes {bs : List UInt8} (h : 0 ∉ bs) : (ofBytes bs).strlen = bs.length := by
  show bs.findIdx (· == 0) = bs.length
  rw [List.findIdx_eq_length]
  intro c hc
  exact beq_false_of_ne fun h0 => h (h0 ▸ hc)

/-- The characters and the NUL. -/
theorem read_succ_strlen (s : CString) : s.read (s.strlen + 1) = s.bytes ++ [0] := by
  unfold bytes read
  rw [Mem.load_add]
  simp [Mem.load, Mem.fresh, s.nul]

/-! ### The characters as a list -/

variable {s : CString} {bs : List UInt8}

theorem bytes_getElem {i : Nat} (h : i < s.bytes.length) : s.bytes[i] = s.byte i := by
  simp [bytes, read, Mem.load, Mem.fresh]

theorem not_mem_bytes (s : CString) : 0 ∉ s.bytes := by
  intro h
  obtain ⟨i, hi, hzero⟩ := List.mem_iff_getElem.mp h
  rw [bytes_getElem] at hzero
  exact s.ne_nul i (by simpa using hi) hzero

/-- The length is that of any run without a NUL in front of one. -/
theorem strlen_eq {n : Nat} (hne : ∀ i < n, s.byte i ≠ 0) (hnul : s.byte n = 0) :
    s.strlen = n := by
  rcases Nat.lt_trichotomy s.strlen n with hlt | heq | hgt
  · exact absurd s.nul (hne _ hlt)
  · exact heq
  · exact absurd hnul (s.ne_nul n hgt)

/-- Which characters a string has, one by one. -/
theorem bytes_eq_iff (h : 0 ∉ bs) :
    s.bytes = bs ↔ (∀ i, (hi : i < bs.length) → s.byte i = bs[i]) ∧ s.byte bs.length = 0 := by
  constructor
  · rintro rfl
    refine ⟨?_, ?_⟩
    · intro i hi
      rw [bytes_getElem]
    · rw [bytes_length]
      exact s.nul
  · rintro ⟨hbytes, hnul⟩
    have hlen : s.strlen = bs.length := by
      apply strlen_eq ?_ hnul
      intro i hi hzero
      exact h (hzero ▸ hbytes i hi ▸ List.getElem_mem hi)
    apply List.ext_getElem
    · rw [bytes_length, hlen]
    · intro i hi hi'
      rw [← hbytes i hi', bytes_getElem]

/-- A string written in front of its NUL is read back. -/
theorem bytes_ofBytes_append (h : 0 ∉ bs) (rest : List UInt8) :
    (ofBytes (bs ++ 0 :: rest)).bytes = bs := by
  rw [bytes_eq_iff h]
  refine ⟨?_, ?_⟩
  · intro i hi
    show (bs ++ 0 :: rest).getD i 0 = bs[i]
    rw [List.getD_append _ _ _ _ hi, List.getD_eq_getElem _ _ hi]
  · show (bs ++ 0 :: rest).getD bs.length 0 = 0
    rw [List.getD_append_right _ _ _ _ le_rfl, Nat.sub_self]
    rfl

end CString

end CModel
