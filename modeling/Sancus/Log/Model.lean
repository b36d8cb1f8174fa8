import Sancus.Buffer.Append
import Sancus.CModel.Format

namespace Sancus.Log

open CModel Sancus.Buffer

/-!
# Loggers — chains of loggers and the lines they write

A logger has a parent, and what it does not define itself is its parent's.  A line is put
together in buffers on the stack, a prefix, a message and perhaps some data, and handed to the
nearest backend.

* `Logger`, `Chain` — a logger, and a logger with its ancestors;
* `Backend`, `Record` — what a line is handed to, and what it is handed over as;
* `logCtxPrefix`, `logFmt`, `logWrite`, … — the parts of a line;
* `sancusLoggerVprintf` — a line without data.
-/

def LOG_PREFIX_SIZE : Nat := 128
def LOG_MESSAGE_SIZE : Nat := 256
def LOG_DATA_SIZE : Nat := 256

/-! ### Loggers and backends -/

/-- What a backend is called with; an empty text goes with a null pointer. -/
structure Record where
  level : Nat
  prefix_ : List UInt8
  msg : List UInt8
  data : List UInt8
  deriving DecidableEq

/-- `struct sancus_logger_backend`: what `f` returns for a record, with its `ctx`, when it has
    been called with some others before. -/
structure Backend where
  f : Option (List Record → Record → Int)

/-- A backend with an `f`.  The default backend is one, as
    `sancus_logger_set_default_backend` sees to it. -/
abbrev SetBackend : Type := { backend : Backend // backend.f.isSome }

/-- Call the backend. -/
def SetBackend.f (d : SetBackend) : List Record → Record → Int := d.1.f.get d.2

/-- `sancus_logger_prefixer_f`: the value returned, and the memory `buf` points into. -/
abbrev Prefixer : Type := Mem → Nat → Nat → Int × Mem

/-- `struct sancus_logger` without its `parent`. -/
structure Logger where
  prefix_ : Option CString
  mask : UInt32
  prefixer : Option Prefixer
  backend : Option Backend

/-- A logger, its parent, and so on; the null pointer has no loggers. -/
abbrev Chain : Type := List Logger

def SANCUS_LOG_ERR : UInt32 := 1
def SANCUS_LOG_NORMAL : UInt32 := 1 ||| 2 ||| 4

/-- `sancus_logger_has_level`. -/
def sancusLoggerHasLevel : Chain → UInt32 → Bool
  | [],            mask =>
    if mask = 0 ∨ mask &&& SANCUS_LOG_ERR ≠ 0 then true else mask &&& SANCUS_LOG_NORMAL ≠ 0
  | log :: parent, mask =>
    if mask = 0 ∨ mask &&& SANCUS_LOG_ERR ≠ 0 then true
    else if log.mask ≠ 0 then mask &&& log.mask ≠ 0
    -- For a null parent this is the case above.
    else sancusLoggerHasLevel parent mask

/-- `log_find_backend`. -/
def logFindBackend : Chain → SetBackend → SetBackend
  | [],               fallback => fallback
  | logger :: parent, fallback =>
    match logger.backend with
    | some backend =>
      if h : backend.f.isSome then ⟨backend, h⟩ else logFindBackend parent fallback
    | none         => logFindBackend parent fallback

/-! ### Writing -/

/-- The scan of `log_buffer_trim`, with `p - base` bytes in front of it. -/
def trimScan (buf : SancusBuffer) : Nat → Nat
  | 0     => 0
  | k + 1 =>
    let c := buf.buf.byte (buf.base + k)
    if c = 32 ∨ c = 9 ∨ c = 10 then trimScan buf k else k + 1

/-- `log_buffer_trim`: the text it finds. -/
def logBufferTrim : Option SancusBuffer → List UInt8
  | none     => []
  | some buf => buf.buf.load buf.base (trimScan buf buf.len)

/-- `log_write`, with the calls of backends before it and after. -/
def logWrite (defaultBackend : SetBackend) (logger : Chain) (level : Nat)
    (pbuf mbuf : SancusBuffer) (dbuf : Option SancusBuffer) (calls : List Record) :
    Int × List Record :=
  let r : Record :=
    ⟨level, logBufferTrim (some pbuf), logBufferTrim (some mbuf), logBufferTrim dbuf⟩
  if 0 < r.prefix_.length + r.msg.length + r.data.length then
    let d := logFindBackend logger defaultBackend
    (d.f calls r, calls ++ [r])
  else (0, calls)

/-! ### The prefix -/

/-- `log_ctx_prefix`, with the memory that `buf` points into. -/
def logCtxPrefix : Chain → Mem → Option Nat → Nat → Int × Mem
  | ctx :: parent, m, some buf, size =>
    if 0 < size then
      match ctx.prefixer, ctx.prefix_ with
      | some prefixer, _            => prefixer m buf size
      | none,          some prefix_ =>
        if prefix_.byte 0 ≠ 0 then
          let l := if size < prefix_.strlen then size - 1 else prefix_.strlen
          (l, (m.memcpy buf prefix_.byte l).store (buf + l) [0])
        else (0, m)
      | none,          none         => logCtxPrefix parent m (some buf) size
    else (0, m)
  | _,             m, _,        _    => (0, m)

/-- `sancus_logger_render_prefix`. -/
def sancusLoggerRenderPrefix (ctx : Chain) (m : Mem) (buf : Option Nat) (size : Nat) : Int × Mem :=
  logCtxPrefix ctx m buf size

/-- `log_ctx_prefix2`. -/
def logCtxPrefix2 (ctx : Chain) (b : SancusBuffer) : Int × SancusBuffer :=
  let (rc, m) := logCtxPrefix ctx b.buf (some (b.base + b.len)) (sancusBufferTailSize b)
  let b := { b with buf := m }
  if 0 < rc then (rc, (sancusBufferSparse b rc.toNat).2) else (rc, b)

/-! ### The message -/

/-- A format, and what `vsnprintf` makes of it and its arguments. -/
structure Format where
  fmt : CString
  text : Formatted

/-- `log_fmt`. -/
def logFmt (buf : SancusBuffer) (func : Option CString) (line : Nat) (fmt : Option Format) :
    Int × SancusBuffer :=
  let func := func.filter fun func => func.byte 0 ≠ 0
  let fmt := fmt.filter fun fmt => fmt.fmt.byte 0 ≠ 0
  -- source file context
  let buf :=
    match func with
    | some func =>
      let buf := (sancusBufferAppendz buf false (some func)).2
      let buf :=
        if line ≠ 0 then (sancusBufferAppendf buf false (.text (58 :: decimal line))).2 else buf
      (sancusBufferAppend buf false (some (.ofBytes [58, 32])) 2).2
    | none      => buf
  -- formatted message
  let (rc, buf) :=
    match fmt with
    | some fmt => sancusBufferAppendv buf true fmt.text
    | none     => (0, buf)
  if rc < 0 then (rc, buf)
  else (rc, (sancusBufferStripany buf (some (.ofBytes [10, 9, 32, 58]))).2)

/-! ### Lines -/

/-- The data that go with a line: a null pointer and a length, or a block. -/
inductive Data where
  | null (len : Nat)
  | block (bytes : List UInt8)

/-- The test for data that are not there. -/
def Data.Missing : Data → Prop
  | null len => 0 < len
  | block _  => False

instance (data : Data) : Decidable data.Missing := by
  cases data <;> unfold Data.Missing <;> infer_instance

theorem Data.not_missing_block (bytes : List UInt8) : ¬ (block bytes).Missing := fun h => h

/-- The bytes between `data` and `pe`. -/
def Data.bytes : Data → List UInt8
  | null _      => []
  | block bytes => bytes

/-- What a line leaves: the value returned, the calls of backends, and the buffer on the stack
    with the prefix. -/
structure Outcome where
  ret : Int
  calls : List Record
  pbuf : SancusBuffer

/-- `sancus_logger__vprintf`.  A NUL that is stored behind the prefix buffer is seen in `pbuf`; what
    it overwrites there is left as it is. -/
def sancusLoggerVprintf (defaultBackend : SetBackend) (ctx : Chain) (level : Nat)
    (func : Option CString) (line : Nat) (fmt : Option Format) (calls : List Record) : Outcome :=
  let (rc, pbuf) := logCtxPrefix2 ctx (lbuffer LOG_PREFIX_SIZE)
  if rc < 0 then ⟨intToInt32 rc, calls, pbuf⟩
  else
    let (rc, mbuf) := logFmt (lbuffer LOG_MESSAGE_SIZE) func line fmt
    if rc < 0 then ⟨intToInt32 rc, calls, pbuf⟩
    else
      let (rc, calls) := logWrite defaultBackend ctx level pbuf mbuf none calls
      ⟨intToInt32 rc, calls, pbuf⟩

/-! ### What is written of a buffer -/

/-- The characters that are trimmed. -/
def isBlank (c : UInt8) : Bool := c = 32 ∨ c = 9 ∨ c = 10

variable {b : SancusBuffer} {size : Nat} {c : List UInt8}

theorem load_trimScan (buf : SancusBuffer) (k : Nat) :
    buf.buf.load buf.base (trimScan buf k) = (buf.buf.load buf.base k).rdropWhile isBlank := by
  induction k with
  | zero => rfl
  | succ k ih =>
    -- the scan goes backwards, and so its first byte is the last one
    have hlast : buf.buf.load buf.base (k + 1) =
        buf.buf.load buf.base k ++ [buf.buf.byte (buf.base + k)] := buf.buf.load_add buf.base k 1
    rw [trimScan]
    by_cases hblank : buf.buf.byte (buf.base + k) = 32 ∨ buf.buf.byte (buf.base + k) = 9 ∨
        buf.buf.byte (buf.base + k) = 10
    · have hdrop : isBlank (buf.buf.byte (buf.base + k)) = true := decide_eq_true hblank
      rw [if_pos hblank, ih, hlast, List.rdropWhile_concat_pos _ _ _ hdrop]
    · have hkeep : ¬ isBlank (buf.buf.byte (buf.base + k)) = true :=
        fun h => hblank (of_decide_eq_true h)
      rw [if_neg hblank, hlast, List.rdropWhile_concat_neg _ _ _ hkeep]

/-- `log_buffer_trim` finds the bytes of the buffer, up to the last that is not blank. -/
theorem logBufferTrim_holds (h : Holds b size c) :
    logBufferTrim (some b) = c.rdropWhile isBlank := by
  rw [← h.contents_eq]
  exact load_trimScan b b.len

/-- A line with data that are not blank at the end is handed to a backend. -/
theorem logWrite_data (defaultBackend : SetBackend) (logger : Chain) (level : Nat)
    {pbuf mbuf dbuf : SancusBuffer} (calls : List Record)
    (hdata : 0 < (logBufferTrim (some dbuf)).length) :
    logWrite defaultBackend logger level pbuf mbuf (some dbuf) calls =
      ((logFindBackend logger defaultBackend).f calls ⟨level, logBufferTrim (some pbuf),
          logBufferTrim (some mbuf), logBufferTrim (some dbuf)⟩,
        calls ++ [⟨level, logBufferTrim (some pbuf), logBufferTrim (some mbuf),
          logBufferTrim (some dbuf)⟩]) :=
  if_pos (Nat.add_pos_right _ hdata)

end Sancus.Log
