import Sancus.Log.Prefix

namespace Sancus.Log

open CModel Sancus.Buffer

/-!
# Loggers — what a line says

A line is the prefix of the nearest logger that has one, and a message: the function and the
number of the line it comes from, if they are given, and the text of the format.  Each is put
together in a buffer of its own, cut to it, and trimmed at its end.

* `prefixText`, `messageText` — the two texts, in terms of bytes;
* `logCtxPrefix2_text`, `logFmt_text` — that the code puts them together;
* `spoken` — the record that is handed over, if there is anything to say;
* `vprintf_spoken` — that it is handed to one backend, once.
-/

/-! ### The texts -/

/-- The prefix as far as it is copied, trimmed. -/
def prefixText (ctx : Chain) : List UInt8 :=
  ((nearestPrefix ctx).take (copied LOG_PREFIX_SIZE (nearestPrefix ctx).length)).rdropWhile isBlank

/-- The characters stripped off the end of a message. -/
def isLoose (c : UInt8) : Bool := [10, 9, 32, 58].contains c

/-- The source file context, the parts of it that have room. -/
def contextText (func : Option CString) (line : Nat) : List UInt8 :=
  match func.filter fun func => func.byte 0 ≠ 0 with
  | none      => []
  | some func =>
    let c := put LOG_MESSAGE_SIZE [] func.bytes
    let c := if line ≠ 0 then put (LOG_MESSAGE_SIZE - 1) c (58 :: decimal line) else c
    put LOG_MESSAGE_SIZE c [58, 32]

/-- The context and the text of the format, of which there is what has room with a NUL; nothing
    when the format fails, or when the context has left no room. -/
def messageText (func : Option CString) (line : Nat) (fmt : Option Format) : Option (List UInt8) :=
  let c := contextText func line
  match fmt.filter fun fmt => fmt.fmt.byte 0 ≠ 0 with
  | none     => some (c.rdropWhile isLoose)
  | some fmt =>
    match fmt.text with
    | .error _ _  => none
    | .text bytes =>
      if c.length < LOG_MESSAGE_SIZE then
        some ((c ++ bytes.take (LOG_MESSAGE_SIZE - 1 - c.length)).rdropWhile isLoose)
      else none

variable {ctx : Chain}

/-! ### The prefix -/

/-- The prefix is rendered into the empty buffer of a line, with a NUL behind it. -/
theorem logCtxPrefix2_eq (hno : ∀ logger ∈ ctx, logger.prefixer = none) :
    ∃ m', logCtxPrefix2 ctx (lbuffer LOG_PREFIX_SIZE) =
        ((copied LOG_PREFIX_SIZE (nearestPrefix ctx).length : Int),
          ⟨m', 0, copied LOG_PREFIX_SIZE (nearestPrefix ctx).length, LOG_PREFIX_SIZE⟩) ∧
      ((nearestPrefix ctx = [] ∧ m' = (lbuffer LOG_PREFIX_SIZE).buf) ∨
        Mem.Wrote (lbuffer LOG_PREFIX_SIZE).buf m' 0
          ((nearestPrefix ctx).take (copied LOG_PREFIX_SIZE (nearestPrefix ctx).length) ++ [0])) := by
  have hbuf : Holds (lbuffer LOG_PREFIX_SIZE) LOG_PREFIX_SIZE [] :=
    holds_lbuffer (by decide) (by decide)
  have htail : sancusBufferTailSize (lbuffer LOG_PREFIX_SIZE) = LOG_PREFIX_SIZE := hbuf.tailSize_eq
  obtain ⟨m', heq, hmem⟩ := @logCtxPrefix_eq ctx 0 LOG_PREFIX_SIZE hno
    (lbuffer LOG_PREFIX_SIZE).buf (by decide)
  refine ⟨m', ?_, hmem.imp id fun h => h.2.2⟩
  have hcut : copied LOG_PREFIX_SIZE (nearestPrefix ctx).length ≤ LOG_PREFIX_SIZE := by
    unfold copied
    split <;> omega
  generalize copied LOG_PREFIX_SIZE (nearestPrefix ctx).length = k at *
  unfold logCtxPrefix2
  rw [htail, show (lbuffer LOG_PREFIX_SIZE).base + (lbuffer LOG_PREFIX_SIZE).len = 0 from rfl, heq]
  dsimp only
  by_cases hk : 0 < (k : Int)
  · have hroom : ¬ sancusBufferTailSize ⟨m', 0, 0, LOG_PREFIX_SIZE⟩ < k := by
      show ¬ sancusBufferTailSize (lbuffer LOG_PREFIX_SIZE) < k
      rw [htail]
      omega
    have hsparse : sancusBufferSparse ⟨m', 0, 0, LOG_PREFIX_SIZE⟩ k =
        ((k : Int), ⟨m', 0, 0 + k, LOG_PREFIX_SIZE⟩) := if_neg hroom
    rw [if_pos hk, Int.toNat_natCast]
    show ((k : Int), (sancusBufferSparse ⟨m', 0, 0, LOG_PREFIX_SIZE⟩ k).2) = _
    rw [hsparse, Nat.zero_add]
  · obtain rfl : k = 0 := by omega
    rw [if_neg hk]
    rfl

/-- The prefix, trimmed, is what the buffer says. -/
theorem logCtxPrefix2_text (hno : ∀ logger ∈ ctx, logger.prefixer = none) :
    0 ≤ (logCtxPrefix2 ctx (lbuffer LOG_PREFIX_SIZE)).1 ∧
      logBufferTrim (some (logCtxPrefix2 ctx (lbuffer LOG_PREFIX_SIZE)).2) = prefixText ctx := by
  obtain ⟨m', hrun, hmem⟩ := logCtxPrefix2_eq hno
  have hle : copied LOG_PREFIX_SIZE (nearestPrefix ctx).length ≤ (nearestPrefix ctx).length := by
    unfold copied
    split <;> omega
  unfold prefixText
  generalize copied LOG_PREFIX_SIZE (nearestPrefix ctx).length = k at *
  have hload : m'.load 0 k = (nearestPrefix ctx).take k := by
    rcases hmem with ⟨hnil, _⟩ | hwrote
    · rw [hnil, List.length_nil] at hle
      obtain rfl : k = 0 := by omega
      rw [List.take_zero]
      rfl
    · have htext := hwrote.load_eq
      have hlen : ((nearestPrefix ctx).take k).length = k := List.length_take_of_le hle
      rw [List.length_append, Mem.load_add, hlen] at htext
      exact (List.append_inj htext (by rw [Mem.load_length, hlen])).1
  rw [hrun, ← hload]
  exact ⟨Int.natCast_nonneg k, load_trimScan ⟨m', 0, k, LOG_PREFIX_SIZE⟩ k⟩

/-- A prefix that does not just fill the buffer is written to it only, with its NUL. -/
theorem logCtxPrefix2_stored (hno : ∀ logger ∈ ctx, logger.prefixer = none)
    (hfill : (nearestPrefix ctx).length ≠ LOG_PREFIX_SIZE) :
    ∀ i ∈ (logCtxPrefix2 ctx (lbuffer LOG_PREFIX_SIZE)).2.buf.stored, i < LOG_PREFIX_SIZE := by
  obtain ⟨m', hrun, hmem⟩ := logCtxPrefix2_eq hno
  intro i hi
  rw [hrun] at hi
  rcases hmem with ⟨_, rfl⟩ | hwrote
  · exact absurd hi List.not_mem_nil
  · have hin := (hwrote.stored_sub i hi).resolve_left List.not_mem_nil
    rw [List.length_append, List.length_singleton, List.length_take] at hin
    have hcut : copied LOG_PREFIX_SIZE (nearestPrefix ctx).length < LOG_PREFIX_SIZE := by
      unfold copied
      split
      · decide
      · omega
    omega

/-! ### The message -/

theorem bytes_loose : (CString.ofBytes [10, 9, 32, 58]).bytes = [10, 9, 32, 58] := by decide

/-- The context is put into the empty buffer of a message. -/
theorem holds_context (func : CString) (line : Nat) :
    Holds (sancusBufferAppend
        (if line ≠ 0 then
          (sancusBufferAppendf
            (sancusBufferAppendz (lbuffer LOG_MESSAGE_SIZE) false (some func)).2 false
            (.text (58 :: decimal line))).2
        else (sancusBufferAppendz (lbuffer LOG_MESSAGE_SIZE) false (some func)).2)
        false (some (.ofBytes [58, 32])) 2).2 LOG_MESSAGE_SIZE
      (put LOG_MESSAGE_SIZE
        (if line ≠ 0 then
          put (LOG_MESSAGE_SIZE - 1) (put LOG_MESSAGE_SIZE [] func.bytes) (58 :: decimal line)
        else put LOG_MESSAGE_SIZE [] func.bytes) [58, 32]) := by
  have hbuf : Holds (lbuffer LOG_MESSAGE_SIZE) LOG_MESSAGE_SIZE [] :=
    holds_lbuffer (by decide) (by decide)
  have hfunc := hbuf.appendz_put func
  by_cases hline : line ≠ 0
  · rw [if_pos hline, if_pos hline]
    exact (hfunc.appendf_put _).append_put [58, 32]
  · rw [if_neg hline, if_neg hline]
    exact hfunc.append_put [58, 32]

/-- Nothing is left to trim of what has been stripped of more. -/
theorem rdropWhile_rdropWhile (c : List UInt8) :
    (c.rdropWhile isLoose).rdropWhile isBlank = c.rdropWhile isLoose := by
  rw [List.rdropWhile_eq_self_iff]
  intro hne hblank
  refine List.rdropWhile_last_not isLoose c hne ?_
  simp only [isBlank, decide_eq_true_eq] at hblank
  rcases hblank with h | h | h <;> rw [h] <;> rfl

/-- What is stripped off a buffer that holds `c`. -/
theorem trim_stripany {b : SancusBuffer} {c : List UInt8} (h : Holds b LOG_MESSAGE_SIZE c) :
    logBufferTrim (some (sancusBufferStripany b (some (.ofBytes [10, 9, 32, 58]))).2) =
      c.rdropWhile isLoose := by
  have hstrip := h.stripany (.ofBytes [10, 9, 32, 58])
  rw [bytes_loose] at hstrip
  rw [logBufferTrim_holds hstrip]
  exact rdropWhile_rdropWhile c

/-- Without a format the message is its context. -/
theorem logFmt_none (func : Option CString) (line : Nat) {fmt : Option Format}
    (hfmt : (fmt.filter fun fmt => fmt.fmt.byte 0 ≠ 0) = none) :
    ∃ b, Holds b LOG_MESSAGE_SIZE (contextText func line) ∧
      logFmt (lbuffer LOG_MESSAGE_SIZE) func line fmt =
        (0, (sancusBufferStripany b (some (.ofBytes [10, 9, 32, 58]))).2) := by
  unfold contextText logFmt
  dsimp only
  rw [hfmt]
  cases func.filter fun func => func.byte 0 ≠ 0 with
  | none => exact ⟨_, holds_lbuffer (by decide) (by decide), rfl⟩
  | some func => exact ⟨_, holds_context func line, rfl⟩

/-- With one, the text is put behind it. -/
theorem logFmt_some (func : Option CString) (line : Nat) {fmt : Option Format} {f : Format}
    (hfmt : (fmt.filter fun fmt => fmt.fmt.byte 0 ≠ 0) = some f) :
    ∃ b, Holds b LOG_MESSAGE_SIZE (contextText func line) ∧
      logFmt (lbuffer LOG_MESSAGE_SIZE) func line fmt =
        if (sancusBufferAppendv b true f.text).1 < 0 then sancusBufferAppendv b true f.text
        else ((sancusBufferAppendv b true f.text).1,
          (sancusBufferStripany (sancusBufferAppendv b true f.text).2
            (some (.ofBytes [10, 9, 32, 58]))).2) := by
  unfold contextText logFmt
  dsimp only
  rw [hfmt]
  cases func.filter fun func => func.byte 0 ≠ 0 with
  | none => exact ⟨_, holds_lbuffer (by decide) (by decide), rfl⟩
  | some func => exact ⟨_, holds_context func line, rfl⟩

/-- **The message** is put together as it should be, or the call fails. -/
theorem logFmt_text (func : Option CString) (line : Nat) (fmt : Option Format) :
    (messageText func line fmt = none ∧ (logFmt (lbuffer LOG_MESSAGE_SIZE) func line fmt).1 < 0) ∨
      ∃ msg, messageText func line fmt = some msg ∧
        0 ≤ (logFmt (lbuffer LOG_MESSAGE_SIZE) func line fmt).1 ∧
        logBufferTrim (some (logFmt (lbuffer LOG_MESSAGE_SIZE) func line fmt).2) = msg := by
  unfold messageText
  dsimp only
  cases hfmt : fmt.filter fun fmt => fmt.fmt.byte 0 ≠ 0 with
  | none =>
    obtain ⟨b, hb, hrun⟩ := logFmt_none func line hfmt
    rw [hrun]
    exact .inr ⟨_, rfl, le_rfl, trim_stripany hb⟩
  | some f =>
    obtain ⟨b, hb, hrun⟩ := logFmt_some func line hfmt
    rw [hrun]
    dsimp only
    cases f.text with
    | error code left =>
      have hfailed := hb.appendv_error code left
      rw [if_pos hfailed]
      exact .inl ⟨rfl, hfailed⟩
    | text bytes =>
      have htext := hb.appendv_cut bytes
      dsimp only
      by_cases hroom : (contextText func line).length < LOG_MESSAGE_SIZE
      · rw [if_pos hroom] at htext ⊢
        rw [if_neg (by omega)]
        exact .inr ⟨_, rfl, htext.1, trim_stripany htext.2⟩
      · rw [if_neg hroom] at htext ⊢
        rw [if_pos htext]
        exact .inl ⟨rfl, htext⟩

/-! ### The line -/

/-- What is handed over, if there is anything to say. -/
def spoken (ctx : Chain) (level : Nat) (func : Option CString) (line : Nat) (fmt : Option Format) :
    Option Record :=
  (messageText func line fmt).bind fun msg =>
    if prefixText ctx = [] ∧ msg = [] then none else some ⟨level, prefixText ctx, msg, []⟩

/-- **A line is handed over once.**  Whatever the format comes to: the nearest backend is called
    with the record, and with nothing else; no backend is called when the message cannot be put
    together, or when there is nothing to say. -/
theorem vprintf_spoken (hno : ∀ logger ∈ ctx, logger.prefixer = none)
    (defaultBackend : SetBackend) (level : Nat) (func : Option CString) (line : Nat)
    (fmt : Option Format) (calls : List Record) :
    (sancusLoggerVprintf defaultBackend ctx level func line fmt calls).calls =
      calls ++ (spoken ctx level func line fmt).toList := by
  obtain ⟨hpre, htexted⟩ := logCtxPrefix2_text hno
  have hmsg := logFmt_text func line fmt
  unfold sancusLoggerVprintf spoken
  generalize logCtxPrefix2 ctx (lbuffer LOG_PREFIX_SIZE) = rp at *
  generalize logFmt (lbuffer LOG_MESSAGE_SIZE) func line fmt = rm at *
  dsimp only
  rw [if_neg (by omega)]
  rcases hmsg with ⟨htext, hfailed⟩ | ⟨msg, htext, hret, hmsg⟩
  · rw [htext, if_pos hfailed]
    exact (List.append_nil calls).symm
  · rw [htext, if_neg (by omega)]
    unfold logWrite
    dsimp only [Option.bind_some]
    rw [htexted, hmsg, show logBufferTrim none = [] from rfl]
    by_cases hnothing : prefixText ctx = [] ∧ msg = []
    · simp [hnothing.1, hnothing.2]
    · have hsome : 0 < (prefixText ctx).length + msg.length + ([] : List UInt8).length := by
        rw [List.length_nil, Nat.add_zero, ← List.length_append, List.length_pos_iff, Ne,
          List.append_eq_nil_iff]
        exact hnothing
      rw [if_neg hnothing, if_pos hsome]
      rfl

end Sancus.Log
