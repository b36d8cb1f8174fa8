import Sancus.Log.Model

namespace Sancus.Log

open CModel Sancus.Buffer

/-!
# Loggers — a line of a hex dump

A line is built by many small appends, none of which is checked.  If the line is longer than the
buffer, those at its end have no effect, and these are the ones that close the ASCII column.

* `hexLine` — the code that builds a line;
* `hexContents` — what it leaves in the buffer;
* `HexLine` — the lines in which every byte is in both columns;
* `hexLine_iff` — the lines that are such.
-/

/-! ### The code -/

/-- A character of the ASCII column. -/
def hexChar (c : UInt8) : UInt8 := if c < 0x20 ∨ 0x7e < c then 46 else c

/-- The loops with `" %02x"`. -/
def hexBytes : SancusBuffer → List UInt8 → SancusBuffer
  | buf, []     => buf
  | buf, c :: p => hexBytes (sancusBufferAppendf buf false (.text (32 :: hexPadded 2 c.toNat))).2 p

/-- The loop that aligns the last line, with the cells that are left. -/
def hexAlign : SancusBuffer → Nat → SancusBuffer
  | buf, 0     => buf
  | buf, k + 1 => hexAlign (sancusBufferAppend buf false (some (.ofBytes [32, 32, 32])) 3).2 k

/-- The loop over the ASCII column. -/
def hexAscii : SancusBuffer → List UInt8 → SancusBuffer
  | buf, []     => buf
  | buf, c :: q => hexAscii (sancusBufferAppend buf false (some (.ofBytes [hexChar c])) 1).2 q

/-- A line with the bytes from `q` up to `p`. -/
def hexLine (buf : SancusBuffer) (width off : Nat) (bytes : List UInt8) : SancusBuffer :=
  let buf :=
    if width ≠ 0 then
      let buf := (sancusBufferAppendf buf false (.text (hexPadded 8 off ++ [32]))).2
      let buf := hexBytes buf bytes
      -- align
      hexAlign buf (width - bytes.length)
    else hexBytes buf bytes
  -- ascii
  let buf := (sancusBufferAppend buf false (some (.ofBytes [32, 124])) 2).2
  let buf := hexAscii buf bytes
  (sancusBufferAppend buf false (some (.ofBytes [124])) 1).2

/-! ### What is in the buffer -/

/-- The offset in front of a line, if it has a width. -/
def hexHead (width off : Nat) : List UInt8 := if width = 0 then [] else hexPadded 8 off ++ [32]

/-- The cells of the bytes. -/
def hexCells (bytes : List UInt8) : List (List UInt8) :=
  bytes.map fun c => 32 :: hexPadded 2 c.toNat

/-- The part of a line in front of the bars. -/
def hexArea (width off : Nat) (bytes : List UInt8) : List UInt8 :=
  fill 256 (fill 255 (hexHead width off) (hexCells bytes))
    (List.replicate (width - bytes.length) [32, 32, 32])

/-- All that is left of a line. -/
def hexContents (width off : Nat) (bytes : List UInt8) : List UInt8 :=
  put 256 (fill 256 (put 256 (hexArea width off bytes) [32, 124])
    ((bytes.map hexChar).map fun c => [c])) [124]

variable {b : SancusBuffer} {c bytes text : List UInt8} {width off i : Nat}

theorem hexBytes_holds (h : Holds b LOG_DATA_SIZE c) :
    Holds (hexBytes b bytes) LOG_DATA_SIZE (fill 255 c (hexCells bytes)) := by
  induction bytes generalizing b c with
  | nil => exact h
  | cons x bytes ih => exact ih (h.appendf_put (32 :: hexPadded 2 x.toNat))

theorem hexAlign_holds (h : Holds b LOG_DATA_SIZE c) (k : Nat) :
    Holds (hexAlign b k) LOG_DATA_SIZE (fill 256 c (List.replicate k [32, 32, 32])) := by
  induction k generalizing b c with
  | zero => exact h
  | succ k ih => exact ih (h.append_put [32, 32, 32])

theorem hexAscii_holds (h : Holds b LOG_DATA_SIZE c) :
    Holds (hexAscii b bytes) LOG_DATA_SIZE
      (fill 256 c ((bytes.map hexChar).map fun c => [c])) := by
  induction bytes generalizing b c with
  | nil => exact h
  | cons x bytes ih => exact ih (h.append_put [hexChar x])

/-- The head of a line takes nine characters or none. -/
theorem hexHead_length (width : Nat) (hoff : off < 2 ^ 32) :
    (hexHead width off).length = if width = 0 then 0 else 9 := by
  unfold hexHead
  split
  · rfl
  · have hlen : (hexPadded 8 off).length = 8 := (hexPadded_length_iff (by decide)).mpr hoff
    rw [List.length_append, hlen]
    rfl

/-- A line built in an empty buffer. -/
theorem hexLine_holds (h : Holds b LOG_DATA_SIZE []) (hoff : off < 2 ^ 32) :
    Holds (hexLine b width off bytes) LOG_DATA_SIZE (hexContents width off bytes) := by
  have harea : Holds
      (if width ≠ 0 then
        hexAlign (hexBytes (sancusBufferAppendf b false (.text (hexPadded 8 off ++ [32]))).2 bytes)
          (width - bytes.length)
      else hexBytes b bytes) LOG_DATA_SIZE (hexArea width off bytes) := by
    have hlen := hexHead_length width hoff
    unfold hexArea
    by_cases hw : width = 0
    · rw [if_neg (not_not.mpr hw), hexHead, if_pos hw, hw, Nat.zero_sub]
      exact hexBytes_holds h
    · rw [if_neg hw, hexHead, if_neg hw] at hlen
      have hhead := h.appendf_put (hexPadded 8 off ++ [32])
      rw [put_fits (by rw [hlen]; decide)] at hhead
      rw [if_pos hw, hexHead, if_neg hw]
      exact hexAlign_holds (hexBytes_holds hhead) _
  exact (hexAscii_holds (harea.append_put [32, 124])).append_put [124]

/-! ### The size of a line -/

/-- The characters of a line that are in front of the bars, a cell for every byte that it has or
    could have. -/
def areaSize (width n : Nat) : Nat := (if width = 0 then 0 else 9) + 3 * (n + (width - n))

theorem hexCells_length (bytes : List UInt8) : ∀ p ∈ hexCells bytes, p.length = 3 := by
  intro p hp
  obtain ⟨c, _, rfl⟩ := List.mem_map.mp hp
  have hc : c.toNat < 16 ^ 2 := c.toNat_lt
  rw [List.length_cons, (hexPadded_length_iff (by decide)).mpr hc]

theorem blanks_length (k : Nat) :
    ∀ p ∈ List.replicate k ([32, 32, 32] : List UInt8), p.length = 3 := by
  intro p hp
  rw [List.eq_of_mem_replicate hp]
  rfl

theorem length_flatten_cells {ps : List (List UInt8)} (h : ∀ p ∈ ps, p.length = 3) :
    ps.flatten.length = 3 * ps.length := by
  induction ps with
  | nil => rfl
  | cons p ps ih =>
    rw [List.flatten_cons, List.length_append, h p List.mem_cons_self,
      ih fun q hq => h q (List.mem_cons_of_mem _ hq), List.length_cons]
    omega

/-- The part in front of the bars is there up to the last cell that fits, of which none is
    cut. -/
theorem hexArea_length (width : Nat) (bytes : List UInt8) (hoff : off < 2 ^ 32) :
    (hexArea width off bytes).length = min 255 (areaSize width bytes.length) := by
  have hhead := hexHead_length width hoff
  have hcells := length_fill (by decide) (hexCells_length bytes)
    (show (hexHead width off).length ≤ 255 by rw [hhead]; split <;> decide)
  have hcount : (hexCells bytes).length = bytes.length := List.length_map ..
  rw [hcount, hhead] at hcells
  have hle : (fill 255 (hexHead width off) (hexCells bytes)).length ≤ 256 := by
    split at hcells <;> omega
  unfold hexArea areaSize
  rw [length_fill (by decide) (blanks_length _) hle, List.length_replicate, hcells]
  split <;> omega

/-- And it is there whole, if there is room. -/
theorem hexArea_fits (hoff : off < 2 ^ 32) (h : areaSize width bytes.length ≤ 255) :
    hexArea width off bytes = hexHead width off ++ (hexCells bytes).flatten ++
      (List.replicate (width - bytes.length) [32, 32, 32]).flatten := by
  have hhead := hexHead_length width hoff
  have hcells := length_flatten_cells (hexCells_length bytes)
  have hblanks := length_flatten_cells (blanks_length (width - bytes.length))
  have hcount : (hexCells bytes).length = bytes.length := List.length_map ..
  rw [hcount] at hcells
  rw [List.length_replicate] at hblanks
  rw [areaSize, ← hhead] at h
  have hfirst : fill 255 (hexHead width off) (hexCells bytes) =
      hexHead width off ++ (hexCells bytes).flatten := fill_fits (by omega)
  rw [hexArea, hfirst, fill_fits (by rw [List.length_append]; omega)]

/-- There is no bar in it. -/
theorem bar_notMem_hexHead (width off : Nat) : 124 ∉ hexHead width off := by
  intro h
  unfold hexHead at h
  split at h
  · exact List.not_mem_nil h
  · rcases List.mem_append.mp h with h | h
    · exact absurd (mem_hexPadded h).2 (by decide)
    · exact absurd (List.mem_singleton.mp h) (by decide)

theorem bar_notMem_cell {p : List UInt8} (hp : p ∈ hexCells bytes) : 124 ∉ p := by
  obtain ⟨c, _, rfl⟩ := List.mem_map.mp hp
  intro h
  rcases List.mem_cons.mp h with h | h
  · exact absurd h (by decide)
  · exact absurd (mem_hexPadded h).2 (by decide)

theorem bar_notMem_hexArea (width off : Nat) (bytes : List UInt8) :
    124 ∉ hexArea width off bytes := by
  intro h
  rcases mem_fill h with h | ⟨p, hp, h⟩
  · rcases mem_fill h with h | ⟨p, hp, h⟩
    · exact bar_notMem_hexHead _ _ h
    · exact bar_notMem_cell hp h
  · rw [List.eq_of_mem_replicate hp] at h
    exact absurd h (by decide)

/-! ### Lines that lose nothing -/

/-- The text of line `i` shows the bytes: behind its offset, unless there is no width, the cells of
    the bytes, blanks, and between bars their characters. -/
def HexLine (width i : Nat) (bytes text : List UInt8) : Prop :=
  ∃ blanks : List UInt8, (∀ c ∈ blanks, c = 32) ∧
    text = hexHead width (i * width) ++ (hexCells bytes).flatten ++ blanks ++ [32, 124] ++
      bytes.map hexChar ++ [124]

/-- What is in front of the first occurrence of a character, and behind it. -/
theorem eq_of_append_cons {x : UInt8} {s s' t t' : List UInt8} (hs : x ∉ s) (hs' : x ∉ s')
    (h : s ++ x :: t = s' ++ x :: t') : s = s' ∧ t = t' := by
  have hlen := congrArg (List.idxOf x) h
  rw [List.idxOf_append_of_notMem hs, List.idxOf_append_of_notMem hs', List.idxOf_cons_self,
    List.idxOf_cons_self] at hlen
  obtain ⟨hfront, hback⟩ := List.append_inj h hlen
  exact ⟨hfront, (List.cons.inj hback).2⟩

/-- A text that shows the bytes up to its first bar. -/
theorem HexLine.first_bar (h : HexLine width i bytes text) :
    ∃ front, 124 ∉ front ∧ text = front ++ 124 :: (bytes.map hexChar ++ [124]) := by
  obtain ⟨blanks, hblanks, rfl⟩ := h
  refine ⟨hexHead width (i * width) ++ (hexCells bytes).flatten ++ blanks ++ [32], ?_, ?_⟩
  · intro h
    simp only [List.mem_append, List.mem_singleton] at h
    rcases h with ((h | h) | h) | h
    · exact bar_notMem_hexHead _ _ h
    · obtain ⟨p, hp, h⟩ := List.mem_flatten.mp h
      exact bar_notMem_cell hp h
    · exact absurd (hblanks _ h) (by decide)
    · exact absurd h (by decide)
  · simp only [List.append_assoc, List.cons_append, List.nil_append]

/-- It has two bars at least. -/
theorem HexLine.two_bars (h : HexLine width i bytes text) : 2 ≤ text.count 124 := by
  obtain ⟨front, _, rfl⟩ := h.first_bar
  rw [List.count_append, List.count_cons_self, List.count_append, List.count_singleton_self]
  omega

/-- Trimming leaves the text up to the first bar alone. -/
theorem trim_bar (front back : List UInt8) :
    ∃ back', (front ++ 124 :: back).rdropWhile isBlank = front ++ 124 :: back' ∧
      back'.length ≤ back.length := by
  induction back using List.reverseRecOn with
  | nil => exact ⟨[], List.rdropWhile_concat_neg _ _ _ (by decide), le_refl _⟩
  | append_singleton back x ih =>
    have hsnoc : front ++ 124 :: (back ++ [x]) = (front ++ 124 :: back) ++ [x] := by simp
    rw [hsnoc, List.length_append]
    by_cases hx : isBlank x = true
    · obtain ⟨back', heq, hle⟩ := ih
      rw [List.rdropWhile_concat_pos _ _ _ hx]
      exact ⟨back', heq, by omega⟩
    · rw [List.rdropWhile_concat_neg _ _ _ hx]
      exact ⟨back ++ [x], hsnoc.symm, by rw [List.length_append]⟩

/-- The characters of a line. -/
def lineSize (width n : Nat) : Nat := areaSize width n + 2 + n + 1

/-- What is in the buffer if the bars have room: the characters up to the end of the buffer, and
    a bar if there is room for it. -/
theorem hexContents_bars (h : (hexArea width off bytes).length ≤ 254) :
    hexContents width off bytes = put 256 (hexArea width off bytes ++ [32, 124] ++
      (bytes.map hexChar).take (254 - (hexArea width off bytes).length)) [124] := by
  have hbars : put 256 (hexArea width off bytes) [32, 124] =
      hexArea width off bytes ++ [32, 124] := put_fits (Nat.add_le_add_right h 2)
  have hlen : (hexArea width off bytes ++ [32, 124]).length =
      (hexArea width off bytes).length + 2 := List.length_append
  have hroom : 256 - ((hexArea width off bytes).length + 2) =
      254 - (hexArea width off bytes).length := by omega
  rw [hexContents, hbars, fill_singles _ (by rw [hlen]; omega), hlen, hroom]

/-- A line that has room is there whole. -/
theorem hexContents_fits (hoff : off < 2 ^ 32) (h : lineSize width bytes.length ≤ 256) :
    hexContents width off bytes = hexHead width off ++ (hexCells bytes).flatten ++
      (List.replicate (width - bytes.length) [32, 32, 32]).flatten ++ [32, 124] ++
      bytes.map hexChar ++ [124] := by
  unfold lineSize at h
  have hlen := hexArea_length width bytes hoff
  have hall : (bytes.map hexChar).take (254 - (hexArea width off bytes).length) =
      bytes.map hexChar := by
    apply List.take_of_length_le
    rw [List.length_map]
    omega
  rw [hexContents_bars (by omega), hall, put_fits, hexArea_fits hoff (by omega)]
  rw [List.length_append, List.length_append, List.length_map, List.length_cons,
    List.length_singleton]
  omega

/-- A line that has no room for the bars in front of its characters has one bar at most. -/
theorem not_hexLine_of_full (hbytes : bytes ≠ [])
    (hfull : (hexArea width off bytes).length = 255) :
    ¬ HexLine width i bytes ((hexContents width off bytes).rdropWhile isBlank) := by
  intro hline
  have hbars : put 256 (hexArea width off bytes) [32, 124] = hexArea width off bytes :=
    put_full (show 256 < (hexArea width off bytes).length + 2 by omega)
  have hone : ((bytes.map hexChar).take 1).length = 1 := by
    rw [List.length_take, List.length_map]
    have hpos := List.length_pos_iff.mpr hbytes
    omega
  have hcontents : hexContents width off bytes =
      hexArea width off bytes ++ (bytes.map hexChar).take 1 := by
    rw [hexContents, hbars, fill_singles _ (by omega), hfull, put_full]
    rw [List.length_append, hone, List.length_singleton]
    omega
  have hcount : (hexContents width off bytes).count 124 ≤ 1 := by
    rw [hcontents, List.count_append,
      List.count_eq_zero_of_not_mem (bar_notMem_hexArea width off bytes), Nat.zero_add]
    exact (List.count_le_length).trans hone.le
  have htrim := (List.rdropWhile_prefix isBlank (l := hexContents width off bytes)).sublist
  have htwo := hline.two_bars
  have hle := htrim.count_le 124
  omega

/-- One that has room for them, and none for the last bar, has too little behind the first. -/
theorem not_hexLine_of_cut (hroom : (hexArea width off bytes).length ≤ 254)
    (hcut : 254 < (hexArea width off bytes).length + bytes.length + 1) :
    ¬ HexLine width i bytes ((hexContents width off bytes).rdropWhile isBlank) := by
  intro hline
  have htake : ((bytes.map hexChar).take (254 - (hexArea width off bytes).length)).length =
      254 - (hexArea width off bytes).length := by
    rw [List.length_take, List.length_map]
    omega
  have hcontents : hexContents width off bytes = (hexArea width off bytes ++ [32]) ++
      124 :: (bytes.map hexChar).take (254 - (hexArea width off bytes).length) := by
    rw [hexContents_bars hroom, put_full]
    · simp
    · rw [List.length_append, List.length_append, htake, List.length_cons,
        List.length_singleton]
      omega
  have hblank : 124 ∉ hexArea width off bytes ++ [32] := by
    intro hmem
    rcases List.mem_append.mp hmem with hmem | hmem
    · exact bar_notMem_hexArea width off bytes hmem
    · exact absurd hmem (by decide)
  obtain ⟨back, htrim, hle⟩ := trim_bar (hexArea width off bytes ++ [32])
    ((bytes.map hexChar).take (254 - (hexArea width off bytes).length))
  rw [hcontents, htrim] at hline
  obtain ⟨front, hfront, heq⟩ := hline.first_bar
  obtain ⟨_, hback⟩ := eq_of_append_cons hblank hfront heq
  rw [hback, List.length_append, List.length_map, htake, List.length_singleton] at hle
  omega

/-- So a line that is too long loses its last bar. -/
theorem not_hexLine_of_long (hoff : off < 2 ^ 32) (hbytes : bytes ≠ [])
    (h : 256 < lineSize width bytes.length) :
    ¬ HexLine width i bytes ((hexContents width off bytes).rdropWhile isBlank) := by
  unfold lineSize at h
  have hlen := hexArea_length width bytes hoff
  rcases Nat.lt_or_ge 254 (hexArea width off bytes).length with hfull | hroom
  · exact not_hexLine_of_full hbytes (by omega)
  · exact not_hexLine_of_cut hroom (by omega)

/-- A line with an offset that has wrapped starts with the wrong one. -/
theorem not_hexLine_of_wrap (hwidth : width ≠ 0) (hoff : off < 2 ^ 32)
    (h : lineSize width bytes.length ≤ 256) (hwrap : 2 ^ 32 ≤ i * width) :
    ¬ HexLine width i bytes ((hexContents width off bytes).rdropWhile isBlank) := by
  have hno : ∀ n, (32 : UInt8) ∉ hexPadded 8 n := fun n hmem =>
    absurd (mem_hexPadded hmem).1 (by decide)
  rw [hexContents_fits hoff h, List.rdropWhile_concat_neg _ _ _ (by decide)]
  rintro ⟨blanks, _, heq⟩
  rw [hexHead, if_neg hwidth, hexHead, if_neg hwidth] at heq
  simp only [List.append_assoc, List.singleton_append] at heq
  obtain ⟨hoffset, _⟩ := eq_of_append_cons (hno _) (hno _) heq
  -- the offset printed has eight digits, and the right one has more
  have height := (hexPadded_length_iff (w := 8) (by decide)).mpr hoff
  rw [hoffset, hexPadded_length_iff (by decide)] at height
  omega

/-- **When a line loses nothing.**  Line `i` is there whole exactly when it has room in the buffer
    and its offset has not wrapped. -/
theorem hexLine_iff (hbytes : bytes ≠ []) :
    HexLine width i bytes
        ((hexContents width (i * width % 2 ^ 32) bytes).rdropWhile isBlank) ↔
      lineSize width bytes.length ≤ 256 ∧ i * width < 2 ^ 32 := by
  have hoff : i * width % 2 ^ 32 < 2 ^ 32 := Nat.mod_lt _ (by decide)
  constructor
  · intro h
    have hroom : lineSize width bytes.length ≤ 256 := by
      by_contra hlong
      exact not_hexLine_of_long hoff hbytes (Nat.lt_of_not_le hlong) h
    refine ⟨hroom, ?_⟩
    by_contra hwrap
    have hwidth : width ≠ 0 := by
      rintro rfl
      omega
    exact not_hexLine_of_wrap hwidth hoff hroom (Nat.le_of_not_lt hwrap) h
  · rintro ⟨hroom, hlt⟩
    rw [Nat.mod_eq_of_lt hlt, hexContents_fits hlt hroom,
      List.rdropWhile_concat_neg _ _ _ (by decide)]
    refine ⟨_, ?_, rfl⟩
    intro c hc
    obtain ⟨p, hp, hc⟩ := List.mem_flatten.mp hc
    rw [List.eq_of_mem_replicate hp] at hc
    simpa using hc

end Sancus.Log
