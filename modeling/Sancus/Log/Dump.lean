import Sancus.CModel.Greedy
import Sancus.CModel.Loop
import Sancus.Log.Model

namespace Sancus.Log

open CModel Sancus.Buffer

/-!
# Loggers — data in a line

The data of a dump are encoded in blocks that fit in the worst case.  When the buffer is full,
whole bytes are taken off again until there is room for an ellipsis and the length of the data.

* `dumpOut`, `dumpEnc`, `sancusLoggerVdumpf` — the code;
* `dumpText` — the text of a dump of which some bytes are shown;
* `dumpData_text` — the bytes that are shown, and that the loops end;
* `dump_shape` — the shape of what a backend is called with;
* `dump_reaches_iff` — the blocks of data for which one is called.
-/

/-! ### The code -/

/-- The string `hexa` of `dump_enc`. -/
def hexa : List UInt8 := [48, 49, 50, 51, 52, 53, 54, 55, 56, 57, 97, 98, 99, 100, 101, 102]

/-- The string `CEC`. -/
def CEC : List UInt8 := [97, 98, 116, 110, 118, 102, 114]

/-- The characters a byte is encoded as. -/
def dumpOut (c : UInt8) : List UInt8 :=
  if 0x1f < c ∧ c < 0x7f then
    -- ASCII printable characters
    if c = 34 ∨ c = 92 then [92, c] else [c]
  -- C Character Escape Codes
  else if 7 ≤ c ∧ c ≤ 13 then [92, CEC.getD (c.toNat - 7) 0]
  -- not printable, hexa encoded
  else [92, 120, hexa.getD ((c &&& 0xf0) >>> 4).toNat 0, hexa.getD (c &&& 0x0f).toNat 0]

/-- The loop of `dump_enc`; with a null `buf` it only counts. -/
def dumpEncLoop : Option SancusBuffer → List UInt8 → Int → Int × Option SancusBuffer
  | buf,    [],     count => (count, buf)
  | none,   c :: p, count => dumpEncLoop none p (count + (dumpOut c).length)
  | some b, c :: p, count =>
    let (rc, b) := sancusBufferAppend b false (some (.ofBytes (dumpOut c))) (dumpOut c).length
    if rc < 0 then (rc, some b) else dumpEncLoop (some b) p (count + (dumpOut c).length)

/-- `dump_enc`. -/
def dumpEnc (buf : Option SancusBuffer) (sp : List UInt8) : Int × Option SancusBuffer :=
  dumpEncLoop buf sp 0

/-- The variables of the loops: `p` as an offset, `len` and `buf`. -/
structure DumpState where
  p : Nat
  len : Nat
  buf : SancusBuffer

def MIN_SUFFIX : Nat := 4 + 6
def MAX_SUFFIX : Nat := MIN_SUFFIX + 3

/-- The number `bytes` of a block that would fit in the worst case. -/
def blockBytes (s : DumpState) : Nat :=
  let bytes := intToUnsigned 64 (sancusBufferTailSize s.buf - MIN_SUFFIX) / 4
  if bytes < s.len then bytes else s.len

/-- A round of the loop that encodes.  It is left at the end of the data, or, with true, for
    `truncate`. -/
def encodeRound (data : List UInt8) (s : DumpState) : Round DumpState (Bool × DumpState) :=
  if s.p < data.length then
    let bytes := blockBytes s
    if bytes = 0 then .leave (true, s)
    else
      let block := (data.drop s.p).take bytes
      .again ⟨s.p + bytes, s.len - bytes, (dumpEnc (some s.buf) block).2.getD s.buf⟩
  else .leave (false, s)

/-- A round of the loop that takes bytes off again. -/
def truncateRound (data : List UInt8) (s : DumpState) : Round DumpState SancusBuffer :=
  if 0 < s.p ∧ sancusBufferTailSize s.buf < MAX_SUFFIX then
    let rc := (dumpEnc none ((data.drop (s.p - 1)).take 1)).1
    .again ⟨s.p - 1, s.len, (sancusBufferStripn s.buf (intToUnsigned 64 rc)).2⟩
  else .leave s.buf

/-- The loops, and the ellipsis. -/
def dumpData (fuel : Nat) (data : List UInt8) (buf : SancusBuffer) :
    Option (Int × SancusBuffer) := do
  let (truncate, s) ← Loop.run (encodeRound data) fuel ⟨0, data.length, buf⟩
  if truncate then
    let buf ← Loop.run (truncateRound data) fuel s
    -- append max suffix
    pure (sancusBufferAppend buf false (some (.ofBytes [46, 46, 46])) 3)
  else pure (0, s.buf)

/-- What is formatted with `"\" (%zu)"`. -/
def minSuffix (n : Nat) : List UInt8 := [34, 32, 40] ++ decimal n ++ [41]

/-- `sancus_logger__vdumpf`: the value it returns, and the calls of backends. -/
def sancusLoggerVdumpf (fuel : Nat) (defaultBackend : SetBackend) (ctx : Chain) (level : Nat)
    (func : Option CString) (line : Nat) (data : Data) (fmt : Option Format)
    (calls : List Record) : Option (Int × List Record) :=
  if data.Missing then some (-EINVAL, calls)
  else
    let (rc, pbuf) := logCtxPrefix2 ctx (lbuffer LOG_PREFIX_SIZE)
    if rc < 0 then some (intToInt32 rc, calls)
    else
      let (rc, mbuf) := logFmt (lbuffer LOG_MESSAGE_SIZE) func line fmt
      if rc < 0 then some (intToInt32 rc, calls)
      else
        let (rc, buf) := sancusBufferAppend (lbuffer LOG_DATA_SIZE) false (some (.ofBytes [34])) 1
        if rc < 0 then some (intToInt32 rc, calls)
        else do
          let (rc, buf) ← dumpData fuel data.bytes buf
          if rc < 0 then some (intToInt32 rc, calls)
          else
            -- append min suffix
            let (rc, buf) := sancusBufferAppendf buf false (.text (minSuffix data.bytes.length))
            if rc < 0 then some (intToInt32 rc, calls)
            else
              let (rc, calls) := logWrite defaultBackend ctx level pbuf mbuf (some buf) calls
              some (intToInt32 rc, calls)

/-! ### The encoding -/

/-- The encoding of the first `k` bytes. -/
def dumpPrefix (data : List UInt8) (k : Nat) : List UInt8 := (data.take k).flatMap dumpOut

variable {data : List UInt8} {k : Nat}

/-- A byte takes at least one character, and at most four. -/
theorem dumpOut_length (c : UInt8) : 1 ≤ (dumpOut c).length ∧ (dumpOut c).length ≤ 4 := by
  unfold dumpOut
  split
  · split <;> exact ⟨by simp, by simp⟩
  · split <;> exact ⟨by simp, by simp⟩

theorem flatMap_dumpOut_length (bs : List UInt8) :
    bs.length ≤ (bs.flatMap dumpOut).length ∧ (bs.flatMap dumpOut).length ≤ 4 * bs.length := by
  induction bs with
  | nil => exact ⟨Nat.le_refl _, Nat.le_refl _⟩
  | cons c bs ih =>
    have hc := dumpOut_length c
    rw [List.flatMap_cons, List.length_append, List.length_cons]
    omega

theorem dumpPrefix_add (data : List UInt8) (i k : Nat) :
    dumpPrefix data (i + k) =
      dumpPrefix data i ++ ((data.drop i).take k).flatMap dumpOut := by
  rw [dumpPrefix, List.take_add, List.flatMap_append, dumpPrefix]

/-- All of the data. -/
theorem dumpPrefix_length (data : List UInt8) :
    dumpPrefix data data.length = data.flatMap dumpOut := by
  rw [dumpPrefix, List.take_length]

/-- One byte more takes room. -/
theorem dumpPrefix_lt_succ (hk : k < data.length) :
    (dumpPrefix data k).length < (dumpPrefix data (k + 1)).length := by
  have hone : ((data.drop k).take 1).length = 1 := by
    rw [List.length_take, List.length_drop]
    omega
  have hlen := (flatMap_dumpOut_length ((data.drop k).take 1)).1
  rw [dumpPrefix_add, List.length_append]
  omega

/-! ### `dump_enc` -/

variable {b : SancusBuffer} {size : Nat} {c : List UInt8}

/-- With a null buffer it counts the characters. -/
theorem dumpEncLoop_none (sp : List UInt8) (count : Int) :
    dumpEncLoop none sp count = (count + (sp.flatMap dumpOut).length, none) := by
  induction sp generalizing count with
  | nil => simp [dumpEncLoop]
  | cons x p ih =>
    rw [dumpEncLoop, ih, List.flatMap_cons, List.length_append]
    congr 1
    omega

theorem dumpEnc_none (sp : List UInt8) :
    dumpEnc none sp = (((sp.flatMap dumpOut).length : Int), none) := by
  rw [dumpEnc, dumpEncLoop_none, Int.zero_add]

/-- With a buffer it appends the characters of the bytes that fit, one byte after the other. -/
theorem dumpEncLoop_holds (h : Holds b size c) (sp : List UInt8) (count : Int) :
    ∃ b', dumpEncLoop (some b) sp count =
        (if c.length + (sp.flatMap dumpOut).length ≤ size
          then count + (sp.flatMap dumpOut).length else -ENOBUFS, some b') ∧
      Holds b' size (c ++ (fitting dumpOut (size - c.length) sp).flatMap dumpOut) := by
  induction sp generalizing b c count with
  | nil =>
    have hle := h.length_le
    refine ⟨b, ?_, by rwa [fitting, List.flatMap_nil, List.append_nil]⟩
    simp [dumpEncLoop, hle]
  | cons x p ih =>
    obtain ⟨hret, hholds⟩ := h.append (dumpOut x)
    rw [dumpEncLoop, fitting, List.flatMap_cons, List.length_append]
    generalize sancusBufferAppend b false (some (.ofBytes (dumpOut x))) (dumpOut x).length = r at *
    obtain ⟨rc, b₁⟩ := r
    dsimp only at hret hholds ⊢
    by_cases hx : c.length + (dumpOut x).length ≤ size
    · have hroom : (dumpOut x).length ≤ size - c.length := by omega
      rw [put_fits hx] at hholds
      obtain ⟨b', heq, hb'⟩ := ih hholds (count + (dumpOut x).length)
      rw [List.length_append, Nat.sub_add_eq, List.append_assoc, ← List.flatMap_cons] at hb'
      rw [List.length_append, Nat.add_assoc] at heq
      rw [hret, if_pos hx, if_neg (by omega), heq, if_pos hroom]
      refine ⟨b', ?_, hb'⟩
      rw [Int.add_assoc, Int.natCast_add]
    · -- the escape that does not fit is not begun
      have hfull : ¬ (dumpOut x).length ≤ size - c.length := by
        have hle := h.length_le
        omega
      have hall : ¬ c.length + ((dumpOut x).length + (p.flatMap dumpOut).length) ≤ size := by omega
      rw [put_full (by omega)] at hholds
      rw [hret, if_neg hx, if_pos (by decide), if_neg hall, if_neg hfull]
      exact ⟨b₁, rfl, by rwa [List.flatMap_nil, List.append_nil]⟩

/-- With room for all of them it appends them. -/
theorem dumpEncLoop_fits (h : Holds b size c) (sp : List UInt8) (count : Int)
    (hfits : c.length + (sp.flatMap dumpOut).length ≤ size) :
    ∃ b', (dumpEncLoop (some b) sp count).2 = some b' ∧
      Holds b' size (c ++ sp.flatMap dumpOut) := by
  obtain ⟨b', heq, hb'⟩ := dumpEncLoop_holds h sp count
  rw [(fitting_longest dumpOut (size - c.length) sp).eq_self (by omega)] at hb'
  exact ⟨b', by rw [heq], hb'⟩

/-! ### The loops -/

/-- The buffer holds the quote and the encoding of what is in front of `p`. -/
structure Encoded (data : List UInt8) (s : DumpState) : Prop where
  holds : Holds s.buf LOG_DATA_SIZE (34 :: dumpPrefix data s.p)
  p_le : s.p ≤ data.length
  len_eq : s.len = data.length - s.p

/-- What is left of the buffer. -/
theorem Encoded.tailSize {s : DumpState} (h : Encoded data s) :
    sancusBufferTailSize s.buf = 255 - (dumpPrefix data s.p).length := by
  rw [h.holds.tailSize_eq, List.length_cons, LOG_DATA_SIZE]
  omega

/-- The reserve for the suffix is never touched, and the subtraction of it does not wrap. -/
theorem Encoded.blockBytes_eq {s : DumpState} (h : Encoded data s)
    (hroom : (dumpPrefix data s.p).length ≤ 245) :
    blockBytes s = min ((245 - (dumpPrefix data s.p).length) / 4) (data.length - s.p) := by
  unfold blockBytes
  rw [h.tailSize, h.len_eq, MIN_SUFFIX, intToUnsigned]
  dsimp only
  split <;> omega

/-- A block is encoded whole. -/
theorem Encoded.block {s : DumpState} (h : Encoded data s) {bytes : Nat}
    (hle : bytes ≤ data.length - s.p)
    (hfits : 4 * bytes ≤ 255 - (dumpPrefix data s.p).length) :
    Encoded data ⟨s.p + bytes, s.len - bytes,
      (dumpEnc (some s.buf) ((data.drop s.p).take bytes)).2.getD s.buf⟩ := by
  have henc := (flatMap_dumpOut_length ((data.drop s.p).take bytes)).2
  have htake := List.length_take_le bytes (data.drop s.p)
  have hp := h.p_le
  have hlen := h.len_eq
  have hsize := h.holds.length_le
  rw [List.length_cons, LOG_DATA_SIZE] at hsize
  obtain ⟨b', heq, hb'⟩ := dumpEncLoop_fits h.holds ((data.drop s.p).take bytes) 0
    (by rw [List.length_cons, LOG_DATA_SIZE]; omega)
  refine ⟨?_, ?_, ?_⟩
  · rw [dumpEnc, heq, dumpPrefix_add]
    exact hb'
  · dsimp only
    omega
  · dsimp only
    omega

/-- **The first loop** ends, at the end of the data or where no block fits any more. -/
theorem encode_total {buf : SancusBuffer} {fuel : Nat} (hbuf : Holds buf LOG_DATA_SIZE [34])
    (hfuel : data.length < fuel) :
    ∃ r : Bool × DumpState, Loop.run (encodeRound data) fuel ⟨0, data.length, buf⟩ = some r ∧
      Encoded data r.2 ∧ (dumpPrefix data r.2.p).length ≤ 245 ∧
      (r.1 = false → r.2.p = data.length) ∧
      (r.1 = true → r.2.p < data.length ∧ 242 ≤ (dumpPrefix data r.2.p).length) := by
  refine Loop.run_total
    (I := fun s => Encoded data s ∧ (dumpPrefix data s.p).length ≤ 245)
    (fun s => data.length - s.p) ?_ ?_ ⟨⟨hbuf, Nat.zero_le _, rfl⟩, Nat.zero_le _⟩ hfuel
  · rintro s s' ⟨hs, hroom⟩ hround
    have hbytes := hs.blockBytes_eq hroom
    unfold encodeRound at hround
    generalize blockBytes s = bytes at *
    dsimp only at hround
    split at hround
    · split at hround
      · cases hround
      · obtain rfl := Round.again.inj hround
        have henc := (flatMap_dumpOut_length ((data.drop s.p).take bytes)).2
        have htake := List.length_take_le bytes (data.drop s.p)
        refine ⟨⟨hs.block (by omega) (by omega), ?_⟩, ?_⟩
        · dsimp only
          rw [dumpPrefix_add, List.length_append]
          omega
        · dsimp only
          omega
    · cases hround
  · rintro s r ⟨hs, hroom⟩ hround
    have hbytes := hs.blockBytes_eq hroom
    have hple := hs.p_le
    unfold encodeRound at hround
    generalize blockBytes s = bytes at *
    dsimp only at hround
    split at hround
    · next hp =>
      split at hround
      · obtain rfl := Round.leave.inj hround
        exact ⟨hs, hroom, fun h => Bool.noConfusion h, fun _ => ⟨hp, by dsimp only; omega⟩⟩
      · cases hround
    · obtain rfl := Round.leave.inj hround
      exact ⟨hs, hroom, fun _ => by dsimp only; omega, fun h => Bool.noConfusion h⟩

/-- The last byte is taken off again whole. -/
theorem stripn_last {buf : SancusBuffer}
    (h : Holds buf LOG_DATA_SIZE (34 :: dumpPrefix data (k + 1))) :
    Holds (sancusBufferStripn buf (intToUnsigned 64 (dumpEnc none ((data.drop k).take 1)).1)).2
      LOG_DATA_SIZE (34 :: dumpPrefix data k) := by
  have hshort := (flatMap_dumpOut_length ((data.drop k).take 1)).2
  have hone := List.length_take_le 1 (data.drop k)
  have hrc : intToUnsigned 64 ((((data.drop k).take 1).flatMap dumpOut).length : Int) =
      (((data.drop k).take 1).flatMap dumpOut).length := by
    rw [intToUnsigned]
    omega
  have hcut := h.stripn (((data.drop k).take 1).flatMap dumpOut).length
  rw [dumpPrefix_add, ← List.cons_append, List.length_append, Nat.add_sub_cancel,
    List.take_left] at hcut
  rw [dumpEnc_none, hrc]
  exact hcut

/-- **The second loop** ends, with as many bytes as leave room for the longest suffix. -/
theorem truncate_total {s : DumpState} {fuel : Nat} (hs : Encoded data s)
    (hp : s.p < data.length) (hfull : 242 ≤ (dumpPrefix data s.p).length)
    (hfuel : data.length < fuel) :
    ∃ buf, Loop.run (truncateRound data) fuel s = some buf ∧
      ∃ k < data.length, Holds buf LOG_DATA_SIZE (34 :: dumpPrefix data k) ∧
        (dumpPrefix data k).length ≤ 242 ∧ 242 < (dumpPrefix data (k + 1)).length := by
  refine Loop.run_total
    (I := fun s => s.p < data.length ∧ Holds s.buf LOG_DATA_SIZE (34 :: dumpPrefix data s.p) ∧
      242 < (dumpPrefix data (s.p + 1)).length)
    (fun s => s.p) ?_ ?_ ⟨hp, hs.holds, ?_⟩ (by omega)
  · rintro s s' ⟨hp, hholds, hmore⟩ hround
    have htail := hholds.tailSize_eq
    unfold truncateRound at hround
    rw [htail, List.length_cons, LOG_DATA_SIZE, MAX_SUFFIX, MIN_SUFFIX] at hround
    split at hround
    · next hcond =>
      obtain rfl := Round.again.inj hround
      have hback : s.p - 1 + 1 = s.p := by omega
      rw [← hback] at hholds
      refine ⟨⟨?_, stripn_last hholds, ?_⟩, ?_⟩
      · dsimp only
        omega
      · dsimp only
        rw [hback]
        omega
      · dsimp only
        omega
    · cases hround
  · rintro s buf ⟨hp, hholds, hmore⟩ hround
    have htail := hholds.tailSize_eq
    unfold truncateRound at hround
    rw [htail, List.length_cons, LOG_DATA_SIZE, MAX_SUFFIX, MIN_SUFFIX] at hround
    split at hround
    · cases hround
    · next hcond =>
      obtain rfl := Round.leave.inj hround
      refine ⟨s.p, hp, hholds, ?_, hmore⟩
      by_cases h0 : s.p = 0
      · rw [h0]
        exact Nat.zero_le _
      · omega
  · have hlt := dumpPrefix_lt_succ hp
    omega

/-! ### The text -/

/-- The text of a dump with the first `k` bytes. -/
def dumpText (data : List UInt8) (k : Nat) : List UInt8 :=
  [34] ++ dumpPrefix data k ++ (if k < data.length then [46, 46, 46] else []) ++
    minSuffix data.length

/-- The bytes that are shown: all, if they leave room for any suffix, and otherwise as many as
    leave room for the longest, or all with room for the one without an ellipsis. -/
structure Shown (data : List UInt8) (k : Nat) : Prop where
  le : k ≤ data.length
  whole : (data.flatMap dumpOut).length ≤ 242 → k = data.length
  fits : k < data.length → (dumpPrefix data k).length ≤ 242
  more : k < data.length → 242 < (dumpPrefix data (k + 1)).length
  reserve : k = data.length → (data.flatMap dumpOut).length ≤ 245

/-- A part of the data has no longer an encoding than all of them. -/
theorem dumpPrefix_le (data : List UInt8) (k : Nat) :
    (dumpPrefix data k).length ≤ (data.flatMap dumpOut).length :=
  (prefix_flatMap (data.take_prefix k)).length_le

/-- The bytes shown of data that are cut are the longest prefix that fits. -/
theorem Shown.eq_fitting (h : Shown data k) (hk : k < data.length) :
    dumpPrefix data k = (fitting dumpOut 242 data).flatMap dumpOut := by
  have hlongest := longestFitting_take (h.fits hk) (h.more hk)
  rw [← hlongest.eq_fitting]
  rfl

/-- What the loops leave in the buffer. -/
theorem dumpData_text {buf : SancusBuffer} {fuel : Nat} (hbuf : Holds buf LOG_DATA_SIZE [34])
    (hfuel : data.length < fuel) :
    ∃ k rc dbuf, Shown data k ∧ dumpData fuel data buf = some (rc, dbuf) ∧ 0 ≤ rc ∧
      Holds dbuf LOG_DATA_SIZE
        ([34] ++ dumpPrefix data k ++ (if k < data.length then [46, 46, 46] else [])) := by
  obtain ⟨⟨truncate, s⟩, hrun, hs, hroom, hdone, hfull⟩ := encode_total hbuf hfuel
  unfold dumpData
  rw [hrun]
  cases truncate with
  | false =>
    have hp : s.p = data.length := hdone rfl
    have hholds := hs.holds
    rw [hp] at hroom hholds
    rw [dumpPrefix_length] at hroom
    refine ⟨data.length, 0, s.buf, ⟨le_refl _, fun _ => rfl, ?_, ?_, fun _ => hroom⟩, rfl,
      le_refl _, ?_⟩
    · exact fun h => absurd h (lt_irrefl _)
    · exact fun h => absurd h (lt_irrefl _)
    · rw [if_neg (lt_irrefl _), List.append_nil]
      exact hholds
  | true =>
    obtain ⟨hp, hmin⟩ := hfull rfl
    obtain ⟨cut, hcut, k, hk, hholds, hfits, hmore⟩ := truncate_total hs hp hmin hfuel
    have hall := dumpPrefix_le data (k + 1)
    obtain ⟨hret, happend⟩ := hholds.append [46, 46, 46]
    have hlen : (34 :: dumpPrefix data k).length + ([46, 46, 46] : List UInt8).length ≤
        LOG_DATA_SIZE := by
      show (dumpPrefix data k).length + 1 + 3 ≤ 256
      omega
    rw [if_pos hlen] at hret
    rw [put_fits hlen] at happend
    generalize hr : sancusBufferAppend cut false (some (.ofBytes [46, 46, 46]))
      ([46, 46, 46] : List UInt8).length = r at hret happend
    refine ⟨k, r.1, r.2, ⟨hk.le, ?_, fun _ => hfits, fun _ => hmore, ?_⟩, ?_, ?_, ?_⟩
    · intro h
      omega
    · intro h
      omega
    · show (Loop.run (truncateRound data) fuel s >>= _) = _
      rw [hcut]
      exact congrArg some hr
    · rw [hret]
      decide
    · rw [if_pos hk]
      exact happend

/-- The text of a dump does not end in a blank. -/
theorem dumpText_trim (data : List UInt8) (k : Nat) :
    (dumpText data k).rdropWhile isBlank = dumpText data k := by
  rw [dumpText, minSuffix, ← List.append_assoc,
    List.rdropWhile_concat_neg _ _ _ (by decide : ¬ isBlank 41 = true)]

theorem dumpText_length (data : List UInt8) (k : Nat) :
    (dumpText data k).length = (dumpPrefix data k).length +
      (if k < data.length then 3 else 0) + (decimal data.length).length + 5 := by
  rw [dumpText, minSuffix]
  split <;> simp <;> omega

/-- The suffix completes the text, or has no room. -/
theorem suffix_holds {dbuf : SancusBuffer} (h : Holds dbuf LOG_DATA_SIZE
      ([34] ++ dumpPrefix data k ++ (if k < data.length then [46, 46, 46] else []))) :
    ((dumpText data k).length ≤ LOG_DATA_SIZE - 1 →
      0 ≤ (sancusBufferAppendf dbuf false (.text (minSuffix data.length))).1 ∧
      logBufferTrim (some (sancusBufferAppendf dbuf false (.text (minSuffix data.length))).2) =
        dumpText data k) ∧
    (LOG_DATA_SIZE - 1 < (dumpText data k).length →
      (sancusBufferAppendf dbuf false (.text (minSuffix data.length))).1 = -ENOBUFS) := by
  obtain ⟨hret, hdone⟩ := h.appendf (minSuffix data.length)
  rw [← List.length_append] at hret
  change _ = if (dumpText data k).length ≤ LOG_DATA_SIZE - 1 then _ else _ at hret
  constructor
  · intro hfit
    rw [if_pos hfit] at hret
    rw [put_fits (by rw [← List.length_append]; exact hfit)] at hdone
    rw [hret, logBufferTrim_holds hdone]
    exact ⟨Int.natCast_nonneg _, dumpText_trim data k⟩
  · intro hlong
    rw [hret, if_neg (not_le.mpr hlong)]

variable {defaultBackend : SetBackend} {ctx : Chain} {level line fuel : Nat}
  {func : Option CString} {fmt : Option Format} {calls : List Record} {block : Data}

/-- What a line is handed over as when the prefix and the message have been rendered. -/
def dumpRecord (ctx : Chain) (level : Nat) (func : Option CString) (line : Nat)
    (fmt : Option Format) (text : List UInt8) : Record :=
  ⟨level, logBufferTrim (some (logCtxPrefix2 ctx (lbuffer LOG_PREFIX_SIZE)).2),
    logBufferTrim (some (logFmt (lbuffer LOG_MESSAGE_SIZE) func line fmt).2), text⟩

/-- With more fuel the loops leave the same. -/
theorem dumpData_of_le {buf : SancusBuffer} {fuel fuel' : Nat} {r : Int × SancusBuffer}
    (h : dumpData fuel data buf = some r) (hle : fuel ≤ fuel') : dumpData fuel' data buf = some r := by
  obtain ⟨⟨truncate, s⟩, hencode, hrest⟩ := Option.bind_eq_some_iff.mp h
  rw [dumpData, Loop.run_of_le hencode hle]
  cases truncate with
  | false => exact hrest
  | true =>
    obtain ⟨cut, hcut, hr⟩ := Option.bind_eq_some_iff.mp hrest
    show (Loop.run (truncateRound data) fuel' s >>= _) = _
    rw [Loop.run_of_le hcut hle]
    exact hr

/-- **A dump with its prefix and message rendered**: it is handed to the backend, if its text and
    a NUL have room in the buffer, and otherwise it is dropped. -/
theorem vdumpf_eq (hdata : ¬ block.Missing)
    (hpre : 0 ≤ (logCtxPrefix2 ctx (lbuffer LOG_PREFIX_SIZE)).1)
    (hmsg : 0 ≤ (logFmt (lbuffer LOG_MESSAGE_SIZE) func line fmt).1) :
    ∃ k, Shown block.bytes k ∧ ∀ (defaultBackend : SetBackend) (level : Nat)
      (calls : List Record) (fuel : Nat), block.bytes.length < fuel →
      sancusLoggerVdumpf fuel defaultBackend ctx level func line block fmt calls =
        if (dumpText block.bytes k).length ≤ LOG_DATA_SIZE - 1 then
          some (intToInt32 ((logFindBackend ctx defaultBackend).f calls
              (dumpRecord ctx level func line fmt (dumpText block.bytes k))),
            calls ++ [dumpRecord ctx level func line fmt (dumpText block.bytes k)])
        else some (-ENOBUFS, calls) := by
  have hempty := holds_lbuffer (show 0 < LOG_DATA_SIZE by decide) (by decide)
  obtain ⟨hquote, hbuf⟩ := hempty.append [34]
  rw [if_pos (by decide)] at hquote
  rw [put_fits (by decide)] at hbuf
  unfold sancusLoggerVdumpf dumpRecord
  generalize logCtxPrefix2 ctx (lbuffer LOG_PREFIX_SIZE) = rp at *
  generalize logFmt (lbuffer LOG_MESSAGE_SIZE) func line fmt = rm at *
  obtain ⟨prc, pbuf⟩ := rp
  obtain ⟨mrc, mbuf⟩ := rm
  generalize hq : sancusBufferAppend (lbuffer LOG_DATA_SIZE) false (some (.ofBytes [34])) 1 = rq
  obtain ⟨qrc, buf⟩ := rq
  have hquote' : qrc = 1 := (congrArg Prod.fst hq).symm.trans hquote
  have hbuf' : Holds buf LOG_DATA_SIZE [34] := by
    rw [← show _ = buf from congrArg Prod.snd hq]
    exact hbuf
  obtain ⟨k, rc, dbuf, hshown, hrun, hrc, hholds⟩ := dumpData_text hbuf' (Nat.lt_succ_self _)
  obtain ⟨hroom, hfull⟩ := suffix_holds hholds
  refine ⟨k, hshown, fun defaultBackend level calls fuel hfuel => ?_⟩
  dsimp only at hpre hmsg ⊢
  rw [if_neg hdata, if_neg (not_lt.mpr hpre), if_neg (not_lt.mpr hmsg), if_neg (by omega),
    dumpData_of_le hrun hfuel]
  show (if rc < 0 then _ else _) = _
  rw [if_neg (not_lt.mpr hrc)]
  generalize sancusBufferAppendf dbuf false _ = r at *
  obtain ⟨src, sbuf⟩ := r
  dsimp only at hroom hfull ⊢
  by_cases hfit : (dumpText block.bytes k).length ≤ LOG_DATA_SIZE - 1
  · obtain ⟨hret, hline⟩ := hroom hfit
    have hpos : 0 < (logBufferTrim (some sbuf)).length := by
      rw [hline, dumpText_length]
      exact Nat.succ_pos _
    rw [if_neg (not_lt.mpr hret), logWrite_data defaultBackend ctx level calls hpos, hline,
      if_pos hfit]
  · rw [hfull (not_le.mp hfit), if_pos (by decide), if_neg hfit]
    rfl

/-- A dump whose prefix or message cannot be rendered calls no backend. -/
theorem vdumpf_fails (h : block.Missing ∨ (logCtxPrefix2 ctx (lbuffer LOG_PREFIX_SIZE)).1 < 0 ∨
      (logFmt (lbuffer LOG_MESSAGE_SIZE) func line fmt).1 < 0) :
    ∃ rc, sancusLoggerVdumpf fuel defaultBackend ctx level func line block fmt calls =
      some (rc, calls) := by
  unfold sancusLoggerVdumpf
  generalize logCtxPrefix2 ctx (lbuffer LOG_PREFIX_SIZE) = rp at *
  generalize logFmt (lbuffer LOG_MESSAGE_SIZE) func line fmt = rm at *
  dsimp only
  by_cases hdata : block.Missing
  · rw [if_pos hdata]
    exact ⟨_, rfl⟩
  rw [if_neg hdata]
  by_cases hpre : rp.1 < 0
  · rw [if_pos hpre]
    exact ⟨_, rfl⟩
  · rw [if_neg hpre, if_pos ((h.resolve_left hdata).resolve_left hpre)]
    exact ⟨_, rfl⟩

/-- **The shape of a dump.**  For all data, whatever the loggers, the message and the backend: the
    function returns, and if it calls a backend, it does so once, with the text of the first `k`
    bytes; these are all if their encoding takes at most 242 characters, and otherwise they take
    at most these and one more would take more, or they are all. -/
theorem dump_shape (defaultBackend : SetBackend) (ctx : Chain) (level : Nat)
    (func : Option CString) (line : Nat) (block : Data) (fmt : Option Format)
    (calls : List Record) (fuel : Nat) (hfuel : block.bytes.length < fuel) :
    ∃ rc calls', sancusLoggerVdumpf fuel defaultBackend ctx level func line block fmt calls =
        some (rc, calls') ∧
      (calls' = calls ∨ ∃ r k, calls' = calls ++ [r] ∧ r.data = dumpText block.bytes k ∧
        Shown block.bytes k) := by
  by_cases hok : block.Missing ∨ (logCtxPrefix2 ctx (lbuffer LOG_PREFIX_SIZE)).1 < 0 ∨
      (logFmt (lbuffer LOG_MESSAGE_SIZE) func line fmt).1 < 0
  · obtain ⟨rc, hrc⟩ := vdumpf_fails hok
    exact ⟨rc, calls, hrc, .inl rfl⟩
  · obtain ⟨hdata, hok⟩ := not_or.mp hok
    obtain ⟨hpre, hmsg⟩ := not_or.mp hok
    obtain ⟨k, hshown, hall⟩ := vdumpf_eq hdata (not_lt.mp hpre) (not_lt.mp hmsg)
    rw [hall defaultBackend level calls fuel hfuel]
    split
    · exact ⟨_, _, rfl, .inr ⟨_, k, rfl, rfl, hshown⟩⟩
    · exact ⟨_, _, rfl, .inl rfl⟩

/-- Of 300 bytes the first ones are shown only. -/
theorem dump_shape_truncated :
    ∃ rc r k, sancusLoggerVdumpf 301 ⟨⟨some fun _ _ => 0⟩, rfl⟩ [] 0 none 0
        (.block (List.replicate 300 65)) none [] = some (rc, [r]) ∧
      r.data = dumpText (List.replicate 300 65) k ∧ Shown (List.replicate 300 65) k ∧
      k < 300 := by
  have hlen : (List.replicate 300 65 : List UInt8).length = 300 := List.length_replicate
  have hfuel : (Data.block (List.replicate 300 65)).bytes.length < 301 :=
    hlen.trans_lt (by decide)
  obtain ⟨rc, calls', hrun, hcalls⟩ := dump_shape ⟨⟨some fun _ _ => 0⟩, rfl⟩ [] 0 none 0
    (.block (List.replicate 300 65)) none [] 301 hfuel
  have hcalled : (sancusLoggerVdumpf 301 ⟨⟨some fun _ _ => 0⟩, rfl⟩ [] 0 none 0
      (.block (List.replicate 300 65)) none []).map (fun out => out.2.length) = some 1 := by
    decide +kernel
  rw [hrun] at hcalled
  rcases hcalls with rfl | ⟨r, k, rfl, hr, hk⟩
  · cases hcalled
  · change Shown (List.replicate 300 65) k at hk
    refine ⟨rc, r, k, hrun, hr, hk, lt_of_le_of_ne (hlen ▸ hk.le) ?_⟩
    intro hall
    exact absurd (hk.reserve (hall.trans hlen.symm)) (by decide +kernel)

/-! ### Whether a backend is called -/

/-- The dump is handed to the nearest backend, with its whole text. -/
def Dumped (fuel : Nat) (defaultBackend : SetBackend) (ctx : Chain) (level : Nat)
    (func : Option CString) (line : Nat) (block : Data) (fmt : Option Format)
    (calls : List Record) : Prop :=
  ∃ r k, sancusLoggerVdumpf fuel defaultBackend ctx level func line block fmt calls =
      some (intToInt32 ((logFindBackend ctx defaultBackend).f calls r), calls ++ [r]) ∧
    r = dumpRecord ctx level func line fmt (dumpText block.bytes k) ∧ Shown block.bytes k

/-- The text has room exactly when the longest prefix that is kept and the digits of the length
    have. -/
theorem Shown.room_iff (h : Shown data k) :
    (dumpText data k).length ≤ LOG_DATA_SIZE - 1 ↔ data.length < 100000 ∨
      ((fitting dumpOut 242 data).flatMap dumpOut).length + (decimal data.length).length ≤ 247 := by
  have hlen := dumpText_length data k
  have hfive := decimal_length_le_iff (n := data.length) (k := 5) (by decide)
  rw [show 10 ^ 5 = 100000 from rfl] at hfive
  rw [← hfive, LOG_DATA_SIZE]
  rcases lt_or_eq_of_le h.le with hk | hk
  · have hfits := h.fits hk
    rw [if_pos hk] at hlen
    rw [← h.eq_fitting hk]
    omega
  · -- all of them are shown, and so they are few
    have hreserve := h.reserve hk
    have hmany := (flatMap_dumpOut_length data).1
    have hthree := decimal_length_le_iff (n := data.length) (k := 3) (by decide)
    have hdigits := hthree.mpr (by omega)
    rw [if_neg (by omega), hk, dumpPrefix_length] at hlen
    rw [hk]
    omega

/-- **When a dump is not dropped.**  For all data, whatever the loggers, the backend and the
    message, as long as this and the prefix are rendered: exactly if the data have at most five
    digits of bytes, or leave room for more digits when they are cut. -/
theorem dump_reaches_iff (defaultBackend : SetBackend) (ctx : Chain) (level : Nat)
    (func : Option CString) (line : Nat) (block : Data) (fmt : Option Format)
    (calls : List Record) (fuel : Nat) (hdata : ¬ block.Missing)
    (hpre : 0 ≤ (logCtxPrefix2 ctx (lbuffer LOG_PREFIX_SIZE)).1)
    (hmsg : 0 ≤ (logFmt (lbuffer LOG_MESSAGE_SIZE) func line fmt).1)
    (hfuel : block.bytes.length < fuel) :
    Dumped fuel defaultBackend ctx level func line block fmt calls ↔
      block.bytes.length < 100000 ∨ ((fitting dumpOut 242 block.bytes).flatMap dumpOut).length +
        (decimal block.bytes.length).length ≤ 247 := by
  obtain ⟨k, hshown, hall⟩ := vdumpf_eq hdata hpre hmsg
  have heq := hall defaultBackend level calls fuel hfuel
  rw [← hshown.room_iff]
  constructor
  · rintro ⟨r, _, hdumped, _⟩
    by_contra hno
    rw [heq, if_neg hno] at hdumped
    have hcalls := congrArg Prod.snd (Option.some.inj hdumped)
    exact absurd hcalls (by simp)
  · intro hroom
    rw [if_pos hroom] at heq
    exact ⟨_, k, heq, rfl, hshown⟩

/-- The rule for three bytes and no loggers. -/
theorem dump_reaches_iff_three :
    Dumped 4 ⟨⟨some fun _ _ => 0⟩, rfl⟩ [] 0 none 0 (.block [65, 34, 66]) none [] ↔
      ([65, 34, 66] : List UInt8).length < 100000 ∨
        ((fitting dumpOut 242 [65, 34, 66]).flatMap dumpOut).length +
          (decimal ([65, 34, 66] : List UInt8).length).length ≤ 247 :=
  dump_reaches_iff ⟨⟨some fun _ _ => 0⟩, rfl⟩ [] 0 none 0 (.block [65, 34, 66]) none [] 4
    (Data.not_missing_block _) (by decide) (by decide) (by decide)

/-- A text of bytes that need no escape is its own encoding. -/
theorem flatMap_dumpOut_replicate (n : Nat) :
    (List.replicate n 65).flatMap dumpOut = List.replicate n 65 := by
  induction n with
  | zero => rfl
  | succ n ih =>
    rw [List.replicate_succ, List.flatMap_cons, ih]
    rfl

/-- Where there is no room for the length, nothing is handed over. -/
theorem vdumpf_drops (hdata : ¬ block.Missing)
    (hpre : 0 ≤ (logCtxPrefix2 ctx (lbuffer LOG_PREFIX_SIZE)).1)
    (hmsg : 0 ≤ (logFmt (lbuffer LOG_MESSAGE_SIZE) func line fmt).1)
    (hfuel : block.bytes.length < fuel) (hmany : 100000 ≤ block.bytes.length)
    (hlong : 247 < ((fitting dumpOut 242 block.bytes).flatMap dumpOut).length +
      (decimal block.bytes.length).length) :
    sancusLoggerVdumpf fuel defaultBackend ctx level func line block fmt calls =
      some (-ENOBUFS, calls) := by
  obtain ⟨k, hshown, hall⟩ := vdumpf_eq hdata hpre hmsg
  have heq := hall defaultBackend level calls fuel hfuel
  have hroom := hshown.room_iff
  rw [heq, if_neg]
  omega

/-- So it is with many bytes that need no escape: 242 of them are shown, and six digits have no
    room behind them. -/
theorem vdumpf_drops_plain {n : Nat} (hn : 100000 ≤ n) (hfuel : n < fuel) :
    sancusLoggerVdumpf fuel defaultBackend [] level none 0 (.block (List.replicate n 65)) none
      calls = some (-ENOBUFS, calls) := by
  have hlen : (Data.block (List.replicate n 65)).bytes.length = n := List.length_replicate
  have hsix : ¬ (decimal n).length ≤ 5 := by
    rw [decimal_length_le_iff (by decide)]
    omega
  have hshown : 242 ≤ ((fitting dumpOut 242 (List.replicate n 65)).flatMap dumpOut).length := by
    -- a prefix of 242 bytes fits, and the longest that fits has no fewer
    have hpre : List.replicate 242 65 <+: fitting dumpOut 242 (List.replicate n 65) := by
      apply (fitting_longest dumpOut 242 (List.replicate n 65)).longest
      · refine ⟨List.replicate (n - 242) 65, ?_⟩
        rw [List.replicate_append_replicate, Nat.add_sub_cancel' (by omega)]
      · rw [flatMap_dumpOut_replicate, List.length_replicate]
    have hle := hpre.length_le
    rw [List.length_replicate] at hle
    exact hle.trans (flatMap_dumpOut_length _).1
  apply vdumpf_drops (Data.not_missing_block _) (by decide) (by decide)
  · omega
  · omega
  · rw [hlen]
    show 247 < ((fitting dumpOut 242 (List.replicate n 65)).flatMap dumpOut).length + _
    omega

/-- **A dump is dropped.**  For 100000 bytes no backend is called, and the value returned is
    `-ENOBUFS`. -/
theorem dump_drops :
    sancusLoggerVdumpf 100001 ⟨⟨some fun _ _ => 0⟩, rfl⟩ [] 0 none 0
        (.block (List.replicate 100000 65)) none [] = some (-ENOBUFS, []) ∧
      ¬ Dumped 100001 ⟨⟨some fun _ _ => 0⟩, rfl⟩ [] 0 none 0
        (.block (List.replicate 100000 65)) none [] := by
  refine ⟨vdumpf_drops_plain (le_refl _) (by decide), ?_⟩
  rintro ⟨r, k, hdumped, _⟩
  rw [vdumpf_drops_plain (le_refl _) (by decide)] at hdumped
  have hcalls := congrArg Prod.snd (Option.some.inj hdumped)
  exact absurd hcalls (by simp)

end Sancus.Log
