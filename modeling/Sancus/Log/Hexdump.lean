import Sancus.CModel.Loop
import Sancus.Log.HexLine

namespace Sancus.Log

open CModel Sancus.Buffer

/-!
# Loggers — data in lines of their own

A hex dump is cut into lines of a width, or is a single line when the width is 0, and every line is
handed to the backend.

* `hexRound`, `sancusLoggerVhexdumpf` — the code;
* `Lossless` — every byte is in both columns of its line, behind the offset of this;
* `Written` — what every round keeps, and `hexdump_lines`, the lines a backend is called with;
* `hexdump_lossless_iff` — the widths and lengths for which nothing is lost.
-/

/-! ### The code -/

/-- The variables of the loop: the bytes from `p` up to `pe`, `off`, `buf` and `rc`, and the
    calls of backends. -/
structure HexState where
  rest : List UInt8
  off : Nat
  buf : SancusBuffer
  rc : Int
  calls : List Record

/-- A round of the loop, a line. -/
def hexRound (defaultBackend : SetBackend) (ctx : Chain) (level : Nat) (pbuf mbuf : SancusBuffer)
    (width : Nat) (s : HexState) : Round HexState (Int × List Record) :=
  if s.rest = [] then .leave (s.rc, s.calls)
  else
    let bytes := if width ≠ 0 then s.rest.take width else s.rest
    let buf := hexLine s.buf width s.off bytes
    let (rc, calls) := logWrite defaultBackend ctx level pbuf mbuf (some buf) s.calls
    if rc < 0 then .leave (rc, calls)
    else .again ⟨s.rest.drop bytes.length, toUnsigned 32 (s.off + bytes.length),
      (sancusBufferTruncate buf 0).2, rc, calls⟩

/-- `sancus_logger__vhexdumpf`: the value it returns, and the calls of backends. -/
def sancusLoggerVhexdumpf (fuel : Nat) (defaultBackend : SetBackend) (ctx : Chain) (level : Nat)
    (func : Option CString) (line : Nat) (width : Nat) (data : Data) (fmt : Option Format)
    (calls : List Record) : Option (Int × List Record) :=
  if data.Missing then some (-EINVAL, calls)
  else
    let (rc, pbuf) := logCtxPrefix2 ctx (lbuffer LOG_PREFIX_SIZE)
    if rc < 0 then some (intToInt32 rc, calls)
    else
      let (rc, mbuf) := logFmt (lbuffer LOG_MESSAGE_SIZE) func line fmt
      if rc < 0 then some (intToInt32 rc, calls)
      else if data.bytes = [] then
        let (rc, calls) := logWrite defaultBackend ctx level pbuf mbuf none calls
        some (intToInt32 rc, calls)
      else do
        let (rc, calls) ← Loop.run (hexRound defaultBackend ctx level pbuf mbuf width) fuel
          ⟨data.bytes, 0, lbuffer LOG_DATA_SIZE, rc, calls⟩
        some (intToInt32 rc, calls)

/-! ### Lines -/

/-- The bytes a line has room for in its columns; all of them when there is no width. -/
def lineWidth (width n : Nat) : Nat := if width = 0 then n else width

/-- The bytes of line `i`. -/
def lineBytes (width : Nat) (data : List UInt8) (i : Nat) : List UInt8 :=
  (data.drop (i * lineWidth width data.length)).take (lineWidth width data.length)

/-- The number of lines: the length by the width, rounded up. -/
def lineCount (width n : Nat) : Nat := (n + lineWidth width n - 1) / lineWidth width n

/-- The backends are called with lines that lose nothing, as many as it takes. -/
def Lossless (fuel : Nat) (defaultBackend : SetBackend) (ctx : Chain) (level : Nat)
    (func : Option CString) (line width : Nat) (data : List UInt8) (fmt : Option Format)
    (calls : List Record) : Prop :=
  ∃ rc lines, sancusLoggerVhexdumpf fuel defaultBackend ctx level func line width (.block data) fmt
      calls = some (rc, calls ++ lines) ∧
    lines.length = lineCount width data.length ∧
    ∀ i r, lines[i]? = some r → HexLine width i (lineBytes width data i) r.data

variable {data : List UInt8} {width n i : Nat}

theorem lineWidth_pos (width : Nat) (hn : 0 < n) : 0 < lineWidth width n := by
  unfold lineWidth
  split <;> omega

/-- A line begins before the end of the data, if it is one of them. -/
theorem lt_lineCount_iff (hn : 0 < n) : i < lineCount width n ↔ i * lineWidth width n < n := by
  have hpos := lineWidth_pos width hn
  rw [lineCount, ← Nat.succ_le_iff, Nat.le_div_iff_mul_le hpos, Nat.succ_mul]
  omega

theorem lineBytes_length (width : Nat) (data : List UInt8) (i : Nat) :
    (lineBytes width data i).length =
      min (lineWidth width data.length) (data.length - i * lineWidth width data.length) := by
  rw [lineBytes, List.length_take, List.length_drop]

/-- A line has bytes. -/
theorem lineBytes_ne_nil (h : i * lineWidth width data.length < data.length) :
    lineBytes width data i ≠ [] := by
  have hpos := lineWidth_pos width (show 0 < data.length by omega)
  have hlen := lineBytes_length width data i
  intro hnil
  rw [hnil, List.length_nil] at hlen
  omega

/-- Behind the bytes of a line there are those of the next. -/
theorem drop_lineBytes (width : Nat) (data : List UInt8) (i : Nat) :
    (data.drop (i * lineWidth width data.length)).drop (lineBytes width data i).length =
      data.drop ((i + 1) * lineWidth width data.length) := by
  rw [List.drop_drop, lineBytes_length, Nat.succ_mul]
  by_cases hlast : data.length - i * lineWidth width data.length < lineWidth width data.length
  · rw [List.drop_of_length_le (by omega), List.drop_of_length_le (by omega)]
  · rw [min_eq_left (by omega)]

/-- And the next, if there is one, has the offset of its number. -/
theorem offset_succ (hpos : 0 < data.length) (hnext : i + 1 < lineCount width data.length) :
    toUnsigned 32 (i * width % 2 ^ 32 + (lineBytes width data i).length) =
      (i + 1) * width % 2 ^ 32 := by
  have hfull := (lt_lineCount_iff hpos).mp hnext
  rw [Nat.succ_mul] at hfull
  have hw : width ≠ 0 := by
    rintro rfl
    rw [lineWidth, if_pos rfl] at hfull
    omega
  have hlen := lineBytes_length width data i
  rw [min_eq_left (by omega), lineWidth, if_neg hw] at hlen
  rw [hlen, toUnsigned, Nat.succ_mul, Nat.mod_add_mod]

/-- Something of a line is not blank. -/
theorem hexContents_not_blank (width : Nat) {off : Nat} {bytes : List UInt8}
    (hoff : off < 2 ^ 32) (hbytes : bytes ≠ []) :
    0 < ((hexContents width off bytes).rdropWhile isBlank).length := by
  obtain ⟨c, bytes, rfl⟩ := List.exists_cons_of_ne_nil hbytes
  -- the cell of the first byte has room in every line
  have hcell : hexHead width off ++ 32 :: hexPadded 2 c.toNat <+:
      hexContents width off (c :: bytes) := by
    have hhead := hexHead_length width hoff
    have hlen := hexCells_length [c] _ (List.mem_singleton_self _)
    have hfits : put 255 (hexHead width off) (32 :: hexPadded 2 c.toNat) =
        hexHead width off ++ 32 :: hexPadded 2 c.toNat := by
      apply put_fits
      rw [hhead, hlen]
      split <;> decide
    rw [← hfits]
    exact (((prefix_fill _ _ _).trans (prefix_fill _ _ _)).trans
      ((prefix_put _ _ _).trans (prefix_fill _ _ _))).trans (prefix_put _ _ _)
  have hdigits : (hexPadded 2 c.toNat).length = 2 :=
    (hexPadded_length_iff (by decide)).mpr c.toNat_lt
  obtain ⟨d, hd⟩ := List.exists_mem_of_length_pos (show 0 < (hexPadded 2 c.toNat).length by omega)
  have hmem : d ∈ hexContents width off (c :: bytes) := by
    apply hcell.subset
    exact List.mem_append_right _ (List.mem_cons_of_mem _ hd)
  apply List.length_pos_iff.mpr
  intro hnil
  have hblank := List.rdropWhile_eq_nil_iff.mp hnil d hmem
  have hlow := (mem_hexPadded hd).1
  rcases of_decide_eq_true hblank with rfl | rfl | rfl <;> exact absurd hlow (by decide)

/-! ### The loop -/

/-- What is handed over for line `i`. -/
def lineRecord (level : Nat) (pbuf mbuf : SancusBuffer) (width : Nat) (data : List UInt8)
    (i : Nat) : Record :=
  ⟨level, logBufferTrim (some pbuf), logBufferTrim (some mbuf),
    (hexContents width (i * width % 2 ^ 32) (lineBytes width data i)).rdropWhile isBlank⟩

/-- The lines up to `i` are written, and the next one starts at its offset. -/
structure Written (level : Nat) (pbuf mbuf : SancusBuffer) (width : Nat) (data : List UInt8)
    (calls : List Record) (i : Nat) (s : HexState) : Prop where
  le_count : i ≤ lineCount width data.length
  rest_eq : s.rest = data.drop (i * lineWidth width data.length)
  off_eq : i < lineCount width data.length → s.off = i * width % 2 ^ 32
  holds : Holds s.buf LOG_DATA_SIZE []
  calls_eq : s.calls = calls ++ (List.range i).map (lineRecord level pbuf mbuf width data)

variable {defaultBackend : SetBackend} {ctx : Chain} {level : Nat} {pbuf mbuf : SancusBuffer}
  {calls : List Record} {s : HexState}

namespace Written

/-- The loop goes on exactly if a line is left. -/
theorem rest_nil_iff (hdata : data ≠ []) (h : Written level pbuf mbuf width data calls i s) :
    s.rest = [] ↔ i = lineCount width data.length := by
  have hlt : i < lineCount width data.length ↔ i * lineWidth width data.length < data.length :=
    lt_lineCount_iff (List.length_pos_iff.mpr hdata)
  have hle := h.le_count
  rw [h.rest_eq, List.drop_eq_nil_iff]
  omega

/-- The bytes a round takes are those of its line. -/
theorem bytes_eq (hlt : i * lineWidth width data.length < data.length)
    (h : Written level pbuf mbuf width data calls i s) :
    (if width ≠ 0 then s.rest.take width else s.rest) = lineBytes width data i := by
  rw [h.rest_eq, lineBytes]
  by_cases hw : width = 0
  · rw [if_neg (not_not.mpr hw), List.take_of_length_le]
    rw [List.length_drop, lineWidth, if_pos hw]
    omega
  · rw [if_pos hw, lineWidth, if_neg hw]

/-- A round builds a line, and hands it over. -/
theorem hexRound_eq (hdata : data ≠ []) (h : Written level pbuf mbuf width data calls i s)
    (hlt : i < lineCount width data.length)
    (hbackend : ∀ calls r, 0 ≤ (logFindBackend ctx defaultBackend).f calls r) :
    ∃ buf rc, Holds buf LOG_DATA_SIZE [] ∧
      hexRound defaultBackend ctx level pbuf mbuf width s =
        .again ⟨s.rest.drop (lineBytes width data i).length,
          toUnsigned 32 (i * width % 2 ^ 32 + (lineBytes width data i).length), buf, rc,
          s.calls ++ [lineRecord level pbuf mbuf width data i]⟩ := by
  have hstart := (lt_lineCount_iff (List.length_pos_iff.mpr hdata)).mp hlt
  have hrest : s.rest ≠ [] := fun hnil => by
    have hi := (h.rest_nil_iff hdata).mp hnil
    omega
  have hoff : i * width % 2 ^ 32 < 2 ^ 32 := Nat.mod_lt _ (by decide)
  have hline : Holds (hexLine s.buf width (i * width % 2 ^ 32) (lineBytes width data i))
      LOG_DATA_SIZE (hexContents width (i * width % 2 ^ 32) (lineBytes width data i)) :=
    hexLine_holds h.holds hoff
  have htrim := logBufferTrim_holds hline
  have hsome := hexContents_not_blank width hoff (lineBytes_ne_nil hstart)
  rw [← htrim] at hsome
  rw [hexRound, if_neg hrest, h.bytes_eq hstart, h.off_eq hlt]
  dsimp only
  rw [logWrite_data defaultBackend ctx level s.calls hsome, htrim]
  dsimp only
  rw [if_neg (not_lt.mpr (hbackend _ _))]
  exact ⟨_, _, hline.reset, rfl⟩

/-- A round writes a line. -/
theorem round (hdata : data ≠ []) (h : Written level pbuf mbuf width data calls i s)
    (hlt : i < lineCount width data.length)
    (hbackend : ∀ calls r, 0 ≤ (logFindBackend ctx defaultBackend).f calls r) :
    ∃ s', hexRound defaultBackend ctx level pbuf mbuf width s = .again s' ∧
      s'.rest.length < s.rest.length ∧
      Written level pbuf mbuf width data calls (i + 1) s' := by
  have hpos : 0 < data.length := List.length_pos_iff.mpr hdata
  have hstart := (lt_lineCount_iff hpos).mp hlt
  have hbytes := List.length_pos_iff.mpr (lineBytes_ne_nil hstart)
  have hrest : s.rest.length = data.length - i * lineWidth width data.length := by
    rw [h.rest_eq, List.length_drop]
  obtain ⟨buf, rc, hbuf, heq⟩ := h.hexRound_eq hdata hlt hbackend
  refine ⟨_, heq, ?_, hlt, ?_, ?_, hbuf, ?_⟩
  · dsimp only
    rw [List.length_drop]
    omega
  · dsimp only
    rw [h.rest_eq, drop_lineBytes]
  · exact fun hnext => offset_succ hpos hnext
  · dsimp only
    rw [h.calls_eq, List.range_succ, List.map_append, List.append_assoc]
    rfl

/-- So a round that goes on has written a line, … -/
theorem again (hdata : data ≠ []) {s' : HexState}
    (hbackend : ∀ calls r, 0 ≤ (logFindBackend ctx defaultBackend).f calls r)
    (h : ∃ i, Written level pbuf mbuf width data calls i s)
    (hround : hexRound defaultBackend ctx level pbuf mbuf width s = .again s') :
    (∃ i, Written level pbuf mbuf width data calls i s') ∧ s'.rest.length < s.rest.length := by
  obtain ⟨i, h⟩ := h
  rcases lt_or_eq_of_le h.le_count with hlt | heq
  · obtain ⟨t, ht, hless, hwritten⟩ := h.round hdata hlt hbackend
    obtain rfl := Round.again.inj (hround.symm.trans ht)
    exact ⟨⟨_, hwritten⟩, hless⟩
  · rw [hexRound, if_pos ((h.rest_nil_iff hdata).mpr heq)] at hround
    cases hround

/-- … and one that leaves has written them all before. -/
theorem leave (hdata : data ≠ []) {r : Int × List Record}
    (hbackend : ∀ calls r, 0 ≤ (logFindBackend ctx defaultBackend).f calls r)
    (h : ∃ i, Written level pbuf mbuf width data calls i s)
    (hround : hexRound defaultBackend ctx level pbuf mbuf width s = .leave r) :
    r.2 = calls ++ (List.range (lineCount width data.length)).map
      (lineRecord level pbuf mbuf width data) := by
  obtain ⟨i, h⟩ := h
  rcases lt_or_eq_of_le h.le_count with hlt | heq
  · obtain ⟨t, ht, _, _⟩ := h.round hdata hlt hbackend
    rw [ht] at hround
    cases hround
  · rw [hexRound, if_pos ((h.rest_nil_iff hdata).mpr heq)] at hround
    obtain rfl := Round.leave.inj hround
    rw [h.calls_eq, heq]

end Written

/-- **The lines of a hex dump.**  The loop ends, and has handed over every line. -/
theorem hexdump_lines {fuel : Nat} (level : Nat) (pbuf mbuf : SancusBuffer) (width : Nat)
    (rc : Int) (calls : List Record) (hdata : data ≠ [])
    (hbackend : ∀ calls r, 0 ≤ (logFindBackend ctx defaultBackend).f calls r)
    (hfuel : data.length < fuel) :
    ∃ rc', Loop.run (hexRound defaultBackend ctx level pbuf mbuf width) fuel
        ⟨data, 0, lbuffer LOG_DATA_SIZE, rc, calls⟩ = some (rc', calls ++
          (List.range (lineCount width data.length)).map
            (lineRecord level pbuf mbuf width data)) := by
  have hstart : Written level pbuf mbuf width data calls 0
      ⟨data, 0, lbuffer LOG_DATA_SIZE, rc, calls⟩ := by
    refine ⟨Nat.zero_le _, ?_, fun _ => ?_, holds_lbuffer (by decide) (by decide), ?_⟩
    · rw [Nat.zero_mul, List.drop_zero]
    · rw [Nat.zero_mul]
      rfl
    · rw [List.range_zero, List.map_nil, List.append_nil]
  have hrun : ∃ r : Int × List Record,
      Loop.run (hexRound defaultBackend ctx level pbuf mbuf width) fuel
        ⟨data, 0, lbuffer LOG_DATA_SIZE, rc, calls⟩ = some r ∧
      r.2 = calls ++ (List.range (lineCount width data.length)).map
        (lineRecord level pbuf mbuf width data) := by
    refine Loop.run_total
      (I := fun s => ∃ i, Written level pbuf mbuf width data calls i s)
      (fun s => s.rest.length) ?_ ?_ ⟨0, hstart⟩ hfuel
    · exact fun s s' => Written.again hdata hbackend
    · exact fun s r => Written.leave hdata hbackend
  obtain ⟨⟨rc', calls'⟩, hsome, rfl⟩ := hrun
  exact ⟨rc', hsome⟩

/-! ### When nothing is lost -/

/-- The lines of a width have room in the buffer, of which the first is the longest, and the last
    of them has an offset of 32 bits. -/
def HexFits (width n : Nat) : Prop :=
  if width = 0 then n ≤ 63
  else 3 * width + min width n ≤ 244 ∧ (n - 1) / width * width < 2 ^ 32

instance (width n : Nat) : Decidable (HexFits width n) := by
  unfold HexFits
  infer_instance

/-- A line with a width has the characters of all its cells, and of the bytes it has. -/
theorem lineSize_of_width (hw : width ≠ 0) {k : Nat} (hk : k ≤ width) :
    lineSize width k = 12 + 3 * width + k := by
  rw [lineSize, areaSize, if_neg hw]
  omega

/-- A line without a width has three characters and one for each byte, and two bars. -/
theorem lineSize_zero (n : Nat) : lineSize 0 n = 4 * n + 3 := by
  rw [lineSize, areaSize, if_pos rfl]
  omega

/-- Without a width there is one line, with all of the data. -/
theorem line_fits_iff (hn : 0 < n) :
    (∀ i < lineCount 0 n, lineSize 0 (min (lineWidth 0 n) (n - i * lineWidth 0 n)) ≤ 256 ∧
      i * 0 < 2 ^ 32) ↔ n ≤ 63 := by
  have hall : lineWidth 0 n = n := if_pos rfl
  have honly : ∀ i, i < lineCount 0 n ↔ i = 0 := by
    intro i
    rw [lt_lineCount_iff hn, hall]
    cases i with
    | zero =>
      rw [Nat.zero_mul, eq_self, iff_true]
      exact hn
    | succ i =>
      rw [Nat.succ_mul]
      omega
  simp only [honly, forall_eq, hall, Nat.zero_mul, Nat.sub_zero, min_self, lineSize_zero]
  omega

/-- With a width all lines fit if the first and the last of them do. -/
theorem lines_fit_iff (hn : 0 < n) (hw : width ≠ 0) :
    (∀ i < lineCount width n, lineSize width (min (lineWidth width n)
      (n - i * lineWidth width n)) ≤ 256 ∧ i * width < 2 ^ 32) ↔
      3 * width + min width n ≤ 244 ∧ (n - 1) / width * width < 2 ^ 32 := by
  have hstep : lineWidth width n = width := if_neg hw
  have hcount : ∀ i, i < lineCount width n ↔ i ≤ (n - 1) / width := by
    intro i
    rw [lt_lineCount_iff hn, hstep, Nat.le_div_iff_mul_le (Nat.pos_of_ne_zero hw)]
    omega
  rw [hstep]
  constructor
  · intro h
    have hroom := (h 0 ((hcount 0).mpr (Nat.zero_le _))).1
    rw [Nat.zero_mul, Nat.sub_zero, lineSize_of_width hw (min_le_left _ _)] at hroom
    exact ⟨by omega, (h _ ((hcount _).mpr le_rfl)).2⟩
  · rintro ⟨hroom, hoff⟩ i hi
    rw [lineSize_of_width hw (min_le_left _ _)]
    exact ⟨by omega, (Nat.mul_le_mul_right width ((hcount i).mp hi)).trans_lt hoff⟩

/-- So all lines fit exactly for these widths and lengths. -/
theorem hexFits_iff (width : Nat) (hn : 0 < n) :
    HexFits width n ↔ ∀ i < lineCount width n, lineSize width (min (lineWidth width n)
      (n - i * lineWidth width n)) ≤ 256 ∧ i * width < 2 ^ 32 := by
  unfold HexFits
  split
  · next hw =>
    subst hw
    exact (line_fits_iff hn).symm
  · next hw => exact (lines_fit_iff hn hw).symm

variable {func : Option CString} {line fuel : Nat} {fmt : Option Format}

/-- Where the prefix or the message fail, no line is written. -/
theorem vhexdumpf_fails (fuel : Nat) (defaultBackend : SetBackend) (level width : Nat)
    (data : List UInt8) (calls : List Record)
    (h : ¬ (0 ≤ (logCtxPrefix2 ctx (lbuffer LOG_PREFIX_SIZE)).1 ∧
      0 ≤ (logFmt (lbuffer LOG_MESSAGE_SIZE) func line fmt).1)) :
    ∃ rc, sancusLoggerVhexdumpf fuel defaultBackend ctx level func line width (.block data) fmt
      calls = some (rc, calls) := by
  rw [sancusLoggerVhexdumpf, if_neg (Data.not_missing_block data)]
  dsimp only
  by_cases hpre : (logCtxPrefix2 ctx (lbuffer LOG_PREFIX_SIZE)).1 < 0
  · rw [if_pos hpre]
    exact ⟨_, rfl⟩
  · have hmsg : (logFmt (lbuffer LOG_MESSAGE_SIZE) func line fmt).1 < 0 := by omega
    rw [if_neg hpre, if_pos hmsg]
    exact ⟨_, rfl⟩

/-- Where they do not, all lines are. -/
theorem vhexdumpf_eq (level width : Nat) (calls : List Record) (hdata : data ≠ [])
    (hbackend : ∀ calls r, 0 ≤ (logFindBackend ctx defaultBackend).f calls r)
    (hpre : 0 ≤ (logCtxPrefix2 ctx (lbuffer LOG_PREFIX_SIZE)).1)
    (hmsg : 0 ≤ (logFmt (lbuffer LOG_MESSAGE_SIZE) func line fmt).1)
    (hfuel : data.length < fuel) :
    ∃ rc, sancusLoggerVhexdumpf fuel defaultBackend ctx level func line width (.block data) fmt
      calls = some (rc, calls ++ (List.range (lineCount width data.length)).map
        (lineRecord level (logCtxPrefix2 ctx (lbuffer LOG_PREFIX_SIZE)).2
          (logFmt (lbuffer LOG_MESSAGE_SIZE) func line fmt).2 width data)) := by
  obtain ⟨rc, hloop⟩ := hexdump_lines level (logCtxPrefix2 ctx (lbuffer LOG_PREFIX_SIZE)).2
    (logFmt (lbuffer LOG_MESSAGE_SIZE) func line fmt).2 width
    (logFmt (lbuffer LOG_MESSAGE_SIZE) func line fmt).1 calls hdata hbackend hfuel
  have hbytes : (Data.block data).bytes ≠ [] := hdata
  refine ⟨intToInt32 rc, ?_⟩
  rw [sancusLoggerVhexdumpf, if_neg (Data.not_missing_block data)]
  dsimp only
  rw [if_neg (not_lt.mpr hpre), if_neg (not_lt.mpr hmsg), if_neg hbytes]
  rw [show (Data.block data).bytes = data from rfl, hloop]
  rfl

/-- So nothing is lost exactly if every line fits. -/
theorem lossless_iff_fits (width : Nat) (hdata : data ≠ [])
    (hbackend : ∀ calls r, 0 ≤ (logFindBackend ctx defaultBackend).f calls r)
    (hpre : 0 ≤ (logCtxPrefix2 ctx (lbuffer LOG_PREFIX_SIZE)).1)
    (hmsg : 0 ≤ (logFmt (lbuffer LOG_MESSAGE_SIZE) func line fmt).1)
    (hfuel : data.length < fuel) :
    Lossless fuel defaultBackend ctx level func line width data fmt calls ↔
      HexFits width data.length := by
  have hpos : 0 < data.length := List.length_pos_iff.mpr hdata
  obtain ⟨rc, heq⟩ := vhexdumpf_eq level width calls hdata hbackend hpre hmsg hfuel
  have hline : ∀ i < lineCount width data.length, HexLine width i (lineBytes width data i)
      (lineRecord level (logCtxPrefix2 ctx (lbuffer LOG_PREFIX_SIZE)).2
        (logFmt (lbuffer LOG_MESSAGE_SIZE) func line fmt).2 width data i).data ↔
      lineSize width (min (lineWidth width data.length)
        (data.length - i * lineWidth width data.length)) ≤ 256 ∧ i * width < 2 ^ 32 := by
    intro i hi
    rw [← lineBytes_length]
    exact hexLine_iff (lineBytes_ne_nil ((lt_lineCount_iff hpos).mp hi))
  rw [hexFits_iff width hpos]
  constructor
  · rintro ⟨rc', lines, hlines, hcount, hall⟩
    have hcalls := congrArg Prod.snd (Option.some.inj (hlines.symm.trans heq))
    obtain rfl := List.append_cancel_left hcalls
    refine fun i hi => (hline i hi).mp (hall i _ ?_)
    rw [List.getElem?_map, List.getElem?_range hi]
    rfl
  · intro hfit
    refine ⟨rc, _, heq, ?_, ?_⟩
    · rw [List.length_map, List.length_range]
    · intro i r hr
      rw [List.getElem?_map] at hr
      obtain ⟨j, hj, rfl⟩ := Option.map_eq_some_iff.mp hr
      obtain ⟨hi, rfl⟩ := List.getElem?_eq_some_iff.mp hj
      rw [List.length_range] at hi
      rw [List.getElem_range]
      exact (hline i hi).mpr (hfit i hi)

/-- **When a hex dump loses nothing.**  For all loggers, messages, widths and data, and a backend
    that does not fail: exactly if the prefix and the message are rendered, the lines have room
    in their buffer, and the offsets in 32 bits. -/
theorem hexdump_lossless_iff (defaultBackend : SetBackend) (ctx : Chain) (level : Nat)
    (func : Option CString) (line width : Nat) (data : List UInt8) (fmt : Option Format)
    (calls : List Record) (fuel : Nat) (hdata : data ≠ [])
    (hbackend : ∀ calls r, 0 ≤ (logFindBackend ctx defaultBackend).f calls r)
    (hfuel : data.length < fuel) :
    Lossless fuel defaultBackend ctx level func line width data fmt calls ↔
      (0 ≤ (logCtxPrefix2 ctx (lbuffer LOG_PREFIX_SIZE)).1 ∧
        0 ≤ (logFmt (lbuffer LOG_MESSAGE_SIZE) func line fmt).1) ∧
      HexFits width data.length := by
  by_cases hrendered : 0 ≤ (logCtxPrefix2 ctx (lbuffer LOG_PREFIX_SIZE)).1 ∧
      0 ≤ (logFmt (lbuffer LOG_MESSAGE_SIZE) func line fmt).1
  · rw [lossless_iff_fits width hdata hbackend hrendered.1 hrendered.2 hfuel]
    exact (and_iff_right hrendered).symm
  · refine ⟨?_, fun h => absurd h.1 hrendered⟩
    -- there is a line to write
    have hfirst : 0 < lineCount width data.length := by
      rw [lt_lineCount_iff (List.length_pos_iff.mpr hdata), Nat.zero_mul]
      exact List.length_pos_iff.mpr hdata
    obtain ⟨rc, heq⟩ := vhexdumpf_fails fuel defaultBackend level width data calls hrendered
    rintro ⟨rc', lines, hlines, hcount, _⟩
    have hcalls := congrArg Prod.snd (Option.some.inj (hlines.symm.trans heq))
    have hnil : lines = [] := List.append_right_eq_self.mp hcalls
    rw [hnil, List.length_nil] at hcount
    omega

/-- The rule for three bytes in lines of two. -/
theorem hexdump_lossless_iff_three :
    Lossless 4 ⟨⟨some fun _ _ => 0⟩, rfl⟩ [] 0 none 0 2 [65, 0, 66] none [] ↔
      (0 ≤ (logCtxPrefix2 [] (lbuffer LOG_PREFIX_SIZE)).1 ∧
        0 ≤ (logFmt (lbuffer LOG_MESSAGE_SIZE) none 0 none).1) ∧
      HexFits 2 ([65, 0, 66] : List UInt8).length :=
  hexdump_lossless_iff ⟨⟨some fun _ _ => 0⟩, rfl⟩ [] 0 none 0 2 [65, 0, 66] none [] 4
    (by decide) (fun _ _ => le_refl 0) (by decide)

/-- In a line without a width, 64 bytes lose the end of their column. -/
theorem hexdump_loses :
    ¬ Lossless 65 ⟨⟨some fun _ _ => 0⟩, rfl⟩ [] 0 none 0 0 (List.replicate 64 65) none [] := by
  rw [lossless_iff_fits 0 (by decide) (fun _ _ => le_refl 0) (by decide) (by decide) (by decide)]
  decide

end Sancus.Log
