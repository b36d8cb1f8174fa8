import Sancus.Log.Model

namespace Sancus.Log

open CModel Sancus.Buffer

/-!
# Loggers — the prefix and its buffer

The nearest logger of the chain that has a prefix gives it, and it is copied with a NUL behind.
It is cut when it is longer than the buffer, but not when it just fills it.

* `nearestPrefix` — the prefix that is rendered;
* `RendersInside` — it is cut to the buffer, and only the buffer is written to;
* `render_prefix_inside_iff` — for which prefixes this holds.
-/

/-- The prefix of the nearest logger that has one. -/
def nearestPrefix : Chain → List UInt8
  | []               => []
  | logger :: parent =>
    match logger.prefix_ with
    | some prefix_ => prefix_.bytes
    | none         => nearestPrefix parent

/-- Rendering the prefix into `size` bytes at `buf` writes to these only, and returns the length
    of what it leaves there: the prefix, or as much of it as there is room for, and a NUL. -/
structure RendersInside (ctx : Chain) (byte : Nat → UInt8) (buf size : Nat) : Prop where
  stored : ∀ i ∈ (sancusLoggerRenderPrefix ctx (Mem.fresh byte) (some buf) size).2.stored,
    buf ≤ i ∧ i < buf + size
  ret : (sancusLoggerRenderPrefix ctx (Mem.fresh byte) (some buf) size).1 =
    ((nearestPrefix ctx).take (size - 1)).length
  text : (sancusLoggerRenderPrefix ctx (Mem.fresh byte) (some buf) size).2.load buf
      ((nearestPrefix ctx).take (size - 1)).length = (nearestPrefix ctx).take (size - 1)
  nul : 0 < (sancusLoggerRenderPrefix ctx (Mem.fresh byte) (some buf) size).1 →
    (sancusLoggerRenderPrefix ctx (Mem.fresh byte) (some buf) size).2.byte
      (buf + ((nearestPrefix ctx).take (size - 1)).length) = 0

variable {ctx : Chain} {buf size : Nat}

/-- What is copied of a prefix of the length `l`. -/
def copied (size l : Nat) : Nat := if size < l then size - 1 else l

/-- The first bytes of a string are copied, and a NUL is stored behind them. -/
theorem wrote_copied (m : Mem) (buf : Nat) (prefix_ : CString) {l : Nat} (hl : l ≤ prefix_.strlen) :
    Mem.Wrote m ((m.memcpy buf prefix_.byte l).store (buf + l) [0]) buf
      (prefix_.bytes.take l ++ [0]) := by
  have hcopy : (Mem.fresh prefix_.byte).load 0 l = prefix_.bytes.take l := (Mem.load_take _ hl).symm
  have hlen : (prefix_.bytes.take l).length = l := by rw [← hcopy, Mem.load_length]
  have htext : Mem.Wrote m (m.memcpy buf prefix_.byte l) buf (prefix_.bytes.take l) := by
    rw [Mem.memcpy, hcopy]
    exact m.wrote_store _ _
  refine htext.append ?_
  rw [hlen]
  exact Mem.wrote_store _ _ _

/-- A logger without a prefix leaves the memory alone, and otherwise the prefix is copied with a
    NUL behind it. -/
theorem logCtxPrefix_eq (hno : ∀ logger ∈ ctx, logger.prefixer = none) (m : Mem)
    (hsize : 0 < size) :
    ∃ m', logCtxPrefix ctx m (some buf) size =
        ((copied size (nearestPrefix ctx).length : Int), m') ∧
      ((nearestPrefix ctx = [] ∧ m' = m) ∨
        (nearestPrefix ctx ≠ [] ∧ buf + copied size (nearestPrefix ctx).length ∈ m'.stored ∧
          Mem.Wrote m m' buf
            ((nearestPrefix ctx).take (copied size (nearestPrefix ctx).length) ++ [0]))) := by
  have hnil : ((copied size ([] : List UInt8).length : Nat) : Int) = 0 := by
    rw [copied, List.length_nil, if_neg (Nat.not_lt_zero size)]
    rfl
  induction ctx with
  | nil => exact ⟨m, by rw [nearestPrefix, hnil]; rfl, .inl ⟨rfl, rfl⟩⟩
  | cons logger parent ih =>
    rw [nearestPrefix, logCtxPrefix, if_pos hsize, hno logger List.mem_cons_self]
    cases hpre : logger.prefix_ with
    | none => exact ih fun l hl => hno l (List.mem_cons_of_mem _ hl)
    | some prefix_ =>
      dsimp only
      have hlen := prefix_.bytes_length
      by_cases hempty : prefix_.strlen = 0
      · have hbytes : prefix_.bytes = [] := List.eq_nil_of_length_eq_zero (hlen.trans hempty)
        have hfirst : prefix_.byte 0 = 0 := hempty ▸ prefix_.nul
        rw [if_neg (not_not.mpr hfirst), hbytes, hnil]
        exact ⟨m, rfl, .inl ⟨rfl, rfl⟩⟩
      · have hne : prefix_.bytes ≠ [] := by
          intro hbytes
          rw [hbytes] at hlen
          exact hempty hlen.symm
        have hle : copied size prefix_.strlen ≤ prefix_.strlen := by
          unfold copied
          split <;> omega
        rw [if_pos (prefix_.ne_nul 0 (by omega)), hlen]
        refine ⟨_, rfl, .inr ⟨hne, ?_, wrote_copied m buf prefix_ hle⟩⟩
        rw [Mem.stored_store, List.mem_append]
        exact .inl (List.mem_range'_1.mpr ⟨Nat.le_refl _, Nat.lt_succ_self _⟩)

/-- A prefix that does not just fill the buffer is cut to it. -/
theorem take_copied {p : List UInt8} (hne : p.length ≠ size) :
    p.take (copied size p.length) = p.take (size - 1) ∧
      copied size p.length = (p.take (size - 1)).length := by
  rw [copied, List.length_take]
  split
  · exact ⟨rfl, by omega⟩
  · exact ⟨by rw [List.take_of_length_le (Nat.le_refl _), List.take_of_length_le (by omega)],
      by omega⟩

/-- A buffer that is left alone holds the empty prefix. -/
theorem rendersInside_of_nil {byte : Nat → UInt8} (hnil : nearestPrefix ctx = [])
    (heq : sancusLoggerRenderPrefix ctx (Mem.fresh byte) (some buf) size = (0, Mem.fresh byte)) :
    RendersInside ctx byte buf size := by
  have hnone : (nearestPrefix ctx).take (size - 1) = [] := by rw [hnil, List.take_nil]
  refine ⟨?_, ?_, ?_, ?_⟩
  · intro i hi
    rw [heq] at hi
    exact absurd hi List.not_mem_nil
  · rw [heq, hnone]
    rfl
  · rw [hnone]
    rfl
  · intro hpos
    rw [heq] at hpos
    exact absurd hpos (lt_irrefl (0 : Int))

/-- A buffer to which the prefix is written as far as there is room, with its NUL. -/
theorem rendersInside_of_wrote {byte : Nat → UInt8} {m' : Mem} (hsize : 0 < size)
    (heq : sancusLoggerRenderPrefix ctx (Mem.fresh byte) (some buf) size =
      ((((nearestPrefix ctx).take (size - 1)).length : Int), m'))
    (hwrote : Mem.Wrote (Mem.fresh byte) m' buf ((nearestPrefix ctx).take (size - 1) ++ [0])) :
    RendersInside ctx byte buf size := by
  have hle : ((nearestPrefix ctx).take (size - 1)).length ≤ size - 1 := List.length_take_le _ _
  have hload := hwrote.load_eq
  rw [List.length_append, Mem.load_add] at hload
  obtain ⟨htext, hnul⟩ := List.append_inj hload (Mem.load_length _ _ _)
  refine ⟨?_, ?_, ?_, ?_⟩
  · intro i hi
    rw [heq] at hi
    have hin := (hwrote.stored_sub i hi).resolve_left List.not_mem_nil
    rw [List.length_append, List.length_singleton] at hin
    omega
  · rw [heq]
  · rw [heq]
    exact htext
  · intro _
    rw [heq]
    exact List.head_eq_of_cons_eq hnul

/-- **When rendering stays inside**: when the prefix does not just fill the buffer. -/
theorem rendersInside_iff (hno : ∀ logger ∈ ctx, logger.prefixer = none) (byte : Nat → UInt8)
    (hsize : 0 < size) : RendersInside ctx byte buf size ↔ (nearestPrefix ctx).length ≠ size := by
  obtain ⟨m', heq, hmem⟩ := @logCtxPrefix_eq ctx buf size hno (Mem.fresh byte) hsize
  constructor
  · -- a prefix that fills the buffer is returned in its full length
    intro h hlen
    have hret := h.ret
    rw [sancusLoggerRenderPrefix, heq, copied, hlen, if_neg (lt_irrefl size), List.length_take,
      hlen] at hret
    dsimp only at hret
    omega
  · intro hne
    obtain ⟨htake, hlen⟩ := take_copied hne
    rw [htake, hlen] at hmem
    rw [hlen] at heq
    rcases hmem with ⟨hnil, rfl⟩ | ⟨_, _, hwrote⟩
    · apply rendersInside_of_nil hnil
      rw [sancusLoggerRenderPrefix, heq, hnil, List.take_nil]
      rfl
    · exact rendersInside_of_wrote hsize heq hwrote

/-! ### The buffer of a line -/

/-- The storage of the prefix is that which rendering it leaves. -/
theorem logCtxPrefix2_buf (ctx : Chain) (b : SancusBuffer) :
    (logCtxPrefix2 ctx b).2.buf =
      (logCtxPrefix ctx b.buf (some (b.base + b.len)) (sancusBufferTailSize b)).2 := by
  unfold logCtxPrefix2 sancusBufferSparse
  dsimp only
  split
  · split <;> rfl
  · rfl

/-- A line writes nothing else to it. -/
theorem vprintf_pbuf (defaultBackend : SetBackend) (ctx : Chain) (level : Nat)
    (func : Option CString) (line : Nat) (fmt : Option Format) (calls : List Record) :
    (sancusLoggerVprintf defaultBackend ctx level func line fmt calls).pbuf =
      (logCtxPrefix2 ctx (lbuffer LOG_PREFIX_SIZE)).2 := by
  unfold sancusLoggerVprintf
  dsimp only
  split
  · rfl
  · split <;> rfl

/-- A prefix that just fills the buffer of a line has its NUL stored behind it. -/
theorem vprintf_overruns (hno : ∀ logger ∈ ctx, logger.prefixer = none)
    (hlen : (nearestPrefix ctx).length = LOG_PREFIX_SIZE) (defaultBackend : SetBackend)
    (level : Nat) (func : Option CString) (line : Nat) (fmt : Option Format)
    (calls : List Record) :
    LOG_PREFIX_SIZE ∈
      (sancusLoggerVprintf defaultBackend ctx level func line fmt calls).pbuf.buf.stored := by
  have hpos : 0 < LOG_PREFIX_SIZE := by decide
  have htail := (holds_lbuffer hpos (by decide)).tailSize_eq
  obtain ⟨m', heq, hmem⟩ := @logCtxPrefix_eq ctx 0 LOG_PREFIX_SIZE hno (Mem.fresh fun _ => 0) hpos
  have hne : nearestPrefix ctx ≠ [] := by
    intro hnil
    rw [hnil] at hlen
    exact absurd hlen (by decide)
  have hstored := (hmem.resolve_left fun hn => hne hn.1).2.1
  rw [hlen, copied, if_neg (lt_irrefl _), Nat.zero_add] at hstored
  rw [vprintf_pbuf, logCtxPrefix2_buf, htail]
  show _ ∈ (logCtxPrefix ctx (Mem.fresh fun _ => 0) (some 0) LOG_PREFIX_SIZE).2.stored
  rw [heq]
  exact hstored

/-- **When the prefix stays in its buffer.**  For every chain of loggers without prefixers: in a
    buffer of any size that is not 0, exactly when the nearest prefix does not just fill it; and
    in the buffer of a line, exactly when it does not have 128 bytes. -/
theorem render_prefix_inside_iff (ctx : Chain) (hno : ∀ logger ∈ ctx, logger.prefixer = none) :
    (∀ (byte : Nat → UInt8) (buf size : Nat), 1 ≤ size →
      (RendersInside ctx byte buf size ↔ (nearestPrefix ctx).length ≠ size)) ∧
    ∀ (defaultBackend : SetBackend) (level : Nat) (func : Option CString) (line : Nat)
      (fmt : Option Format) (calls : List Record),
      ((∀ i ∈ (sancusLoggerVprintf defaultBackend ctx level func line fmt calls).pbuf.buf.stored,
          i < LOG_PREFIX_SIZE) ↔ (nearestPrefix ctx).length ≠ LOG_PREFIX_SIZE) := by
  refine ⟨fun byte buf size hsize => rendersInside_iff hno byte hsize, ?_⟩
  intro defaultBackend level func line fmt calls
  constructor
  · intro h hlen
    exact absurd (h _ (vprintf_overruns hno hlen defaultBackend level func line fmt calls))
      (lt_irrefl _)
  · intro hne i hi
    have hpos : 0 < LOG_PREFIX_SIZE := by decide
    have htail := (holds_lbuffer hpos (by decide)).tailSize_eq
    have hinside := (@rendersInside_iff ctx 0 LOG_PREFIX_SIZE hno (fun _ => 0) hpos).mpr hne
    rw [vprintf_pbuf, logCtxPrefix2_buf, htail] at hi
    have hlt := hinside.stored i hi
    omega

/-- The rule for a logger with the prefix `ab`, in a chain of one, and three bytes. -/
theorem render_prefix_inside_iff_two :
    RendersInside [⟨some (.ofBytes [97, 98]), 0, none, none⟩] (fun _ => 7) 0 3 ↔
      (nearestPrefix [⟨some (.ofBytes [97, 98]), 0, none, none⟩]).length ≠ 3 :=
  (render_prefix_inside_iff [⟨some (.ofBytes [97, 98]), 0, none, none⟩]
    (fun _ h => by rw [List.mem_singleton.mp h])).1 (fun _ => 7) 0 3 (by decide)

/-- **A NUL behind the buffer.**  A prefix of two bytes is rendered into a buffer of two with the
    NUL behind it, and the value returned is 2; and one of 128 bytes overruns the buffer of a
    line. -/
theorem render_prefix_overruns :
    (sancusLoggerRenderPrefix [⟨some (.ofBytes [97, 98]), 0, none, none⟩] (Mem.fresh fun _ => 7)
        (some 0) 2).1 = 2 ∧
      2 ∈ (sancusLoggerRenderPrefix [⟨some (.ofBytes [97, 98]), 0, none, none⟩]
        (Mem.fresh fun _ => 7) (some 0) 2).2.stored ∧
      ¬ RendersInside [⟨some (.ofBytes [97, 98]), 0, none, none⟩] (fun _ => 7) 0 2 ∧
      128 ∈ (sancusLoggerVprintf ⟨⟨some fun _ _ => 0⟩, rfl⟩
        [⟨some (.ofBytes (List.replicate 128 97)), 0, none, none⟩] 0 none 0 none
        []).pbuf.buf.stored := by
  refine ⟨by decide, by decide, ?_, ?_⟩
  · intro h
    exact absurd h.ret (by decide)
  · apply vprintf_overruns
    · intro logger hlogger
      rw [List.mem_singleton.mp hlogger]
    · show (CString.bytes _).length = _
      have hchars : (0 : UInt8) ∉ List.replicate 128 97 := fun h =>
        absurd (List.eq_of_mem_replicate h) (by decide)
      rw [CString.bytes_length, CString.strlen_ofBytes hchars, List.length_replicate]
      rfl

end Sancus.Log
