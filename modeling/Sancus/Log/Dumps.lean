import Sancus.CModel.Text
import Sancus.Log.Decode
import Sancus.Log.Output

namespace Sancus.Log

open CModel Sancus.Buffer Time

/-!
# Loggers — the dumps in what a program writes

A macro that dumps has a block of data go with its message.  The dump is between quotes, and a
quote in the data is escaped: as long as no message has a quote or a line feed of its own, whoever
reads what the descriptor was given finds the dumps again.

* `LogUse`, `sancusLogDump`, `useStep` — a program that logs and dumps;
* `DumpReading`, `readDump`, `readLog` — the reader;
* `LogUse.dumped` — the blocks that are dumped, and for which a line has room;
* `ReadsAs` — what is read for a block: its length, and all of the bytes that are shown;
* `dumps_read_back` — one reading for each of the blocks, in order.
-/

/-! ### A program that logs and dumps -/

/-- A macro is used, perhaps one that dumps a block. -/
structure LogUse extends LogCall where
  block : Option Data

/-- The macros `sancus_log_error_dump`, `sancus_log_warn_dump`, and so on, with the calls of
    backends before and after. -/
def sancusLogDump (fuel : Nat) (defaultBackend : SetBackend) (c : LogCall) (block : Data)
    (calls : List Record) : Option (List Record) :=
  if c.enabled then
    (sancusLoggerVdumpf fuel defaultBackend c.log c.kind.level c.source.1 c.source.2 block c.fmt
      calls).map Prod.snd
  else some calls

/-- The records that are handed to a backend. -/
def LogUse.records (fuel : Nat) (defaultBackend : SetBackend) (c : LogUse) :
    Option (List Record) :=
  match c.block with
  | none       => some (sancusLog defaultBackend c.toLogCall [])
  | some block => sancusLogDump fuel defaultBackend c.toLogCall block []

/-- A macro is used, `fd_backend` being the default backend.  `none` when the prefix has been written
    behind its buffer, or when the block is still being encoded after `fuel` rounds, or the line
    still being written after `fuel` calls. -/
def useStep (fuel : Nat) (data : FdBackendData) (s : LogState) (c : LogUse) : Option LogState := do
  let records ← c.records fuel (fdBackend fuel data c.toLogCall s)
  if c.enabled ∧ ¬ c.rendersInside then none
  else if ownBackend c.log then some s
  else records.foldlM (fdCall fuel data c.toLogCall) s

/-! ### The reader -/

/-- A dump as it is read: what is shown of the block, and the length of the block. -/
structure DumpReading where
  shown : List UInt8
  count : Nat
  deriving DecidableEq

/-- The dump is what is between the first quote of a line and the next that is not escaped; behind
    it is a blank, and the length in parentheses. -/
def readDump (line : List UInt8) : Option DumpReading :=
  match line.dropWhile (· ≠ 34) with
  | []     => none
  | _ :: s => (dumpCode.decodeUntil 34 (s.length + 1) s).map fun r =>
      ⟨r.1, digitsValue 10 (r.2.drop 2).dropLast⟩

/-- The dumps of what has been written, if that is in lines. -/
def readLog (out : List UInt8) : Option (List DumpReading) :=
  ((lineCode 10).decode out).map fun lines => lines.filterMap fun line => readDump line.1

/-! ### What is to be read -/

/-- A line has room for the length of the block. -/
def RoomFor (bytes : List UInt8) : Prop :=
  bytes.length < 100000 ∨
    ((fitting dumpOut 242 bytes).flatMap dumpOut).length + (decimal bytes.length).length ≤ 247

instance (bytes : List UInt8) : Decidable (RoomFor bytes) := inferInstanceAs (Decidable (_ ∨ _))

/-- The message, if the format does not fail. -/
def LogCall.message (c : LogCall) : Option (List UInt8) :=
  messageText c.source.1 c.source.2 c.fmt

/-- The block that goes with a record. -/
def LogUse.payload (c : LogUse) : Option (List UInt8) :=
  if c.enabled ∧ c.message.isSome then
    (c.block.filter fun block => ¬ block.Missing ∧ RoomFor block.bytes).map Data.bytes
  else none

/-- The block that goes to the descriptor. -/
def LogUse.dumped (c : LogUse) : Option (List UInt8) :=
  if ownBackend c.log then none else c.payload

/-- Without a quote and without a line feed. -/
def Bare (s : List UInt8) : Prop := 10 ∉ s ∧ 34 ∉ s

instance (s : List UInt8) : Decidable (Bare s) := inferInstanceAs (Decidable (_ ∧ _))

/-- The prefix and the message are. -/
structure LogCall.Bare (c : LogCall) : Prop where
  prefix_ : Log.Bare (prefixText c.log)
  message : ∀ msg ∈ c.message, Log.Bare msg

/-- The ellipsis of a dump that is cut. -/
def ellipsis (bytes : List UInt8) (k : Nat) : List UInt8 :=
  if k < bytes.length then [46, 46, 46] else []

/-- What is read for a block: its length, the bytes that are shown of it, with an ellipsis if there
    are more, and all of them if their encoding is short. -/
structure ReadsAs (bytes : List UInt8) (r : DumpReading) : Prop where
  count : r.count = bytes.length
  shown : ∃ k, Shown bytes k ∧ r.shown = bytes.take k ++ ellipsis bytes k
  whole : (bytes.flatMap dumpOut).length ≤ 242 → r.shown = bytes

variable {s t : List UInt8}

/-! ### Texts without quotes and line feeds -/

theorem bare_append : Bare (s ++ t) ↔ Bare s ∧ Bare t := by
  simp only [Bare, List.mem_append, not_or]
  tauto

/-- The characters of a number, its sign and its point are above those. -/
theorem Bare.of_le (h : ∀ c ∈ s, 43 ≤ c.toNat) : Bare s :=
  ⟨fun hc => absurd (h 10 hc) (by decide), fun hc => absurd (h 34 hc) (by decide)⟩

theorem bare_decimal (n : Nat) : Bare (decimal n) := by
  apply Bare.of_le
  intro c hc
  have hdigit := (mem_digits (by decide) (by decide) hc).1
  omega

theorem bare_timespecFmtMs (t : Timespec) : Bare (timespecFmtMs t) := by
  have hsec : Bare (signedDecimal t.tv_sec) := by
    unfold signedDecimal
    split
    · exact bare_append (s := [45]).mpr ⟨by decide, bare_decimal _⟩
    · exact bare_decimal _
  have hms : Bare (decimalPadded 3 (t.tv_nsec.natAbs / 1000000)) := by
    refine bare_append.mpr ⟨Bare.of_le ?_, bare_decimal _⟩
    intro c hc
    obtain rfl := List.eq_of_mem_replicate hc
    decide
  have hsign : Bare (if t.tv_nsec < 0 then [45] else []) := by
    split <;> decide
  unfold timespecFmtMs
  exact bare_append.mpr ⟨bare_append.mpr ⟨bare_append.mpr ⟨hsign, hsec⟩, by decide⟩, hms⟩

theorem bare_stampText (dt0 dt1 : Timespec) : Bare (stampText dt0 dt1) := by
  have h0 := bare_timespecFmtMs dt0
  have h1 := bare_timespecFmtMs dt1
  simp only [stampText, bare_append]
  exact ⟨⟨⟨⟨by decide, h0⟩, by decide⟩, h1⟩, by decide⟩

/-- The time of a line. -/
theorem bare_fdStamp {data : FdBackendData} {clock clock' : FdClock} {now : Timespec}
    {stamp : Option (List UInt8)} (h : fdStamp data clock now = some (stamp, clock')) :
    Bare (stamp.getD []) := by
  unfold fdStamp at h
  split at h
  · obtain ⟨⟨dt0, dt1, _⟩, -, h⟩ := Option.bind_eq_some_iff.mp h
    obtain ⟨rfl, -⟩ := Prod.mk.inj (Option.some.inj h)
    exact bare_stampText dt0 dt1
  · obtain ⟨rfl, -⟩ := Prod.mk.inj (Option.some.inj h)
    decide

/-- The letter of a level. -/
theorem bare_levelTag {level : Nat} (h : level ≤ 4) : Bare (levelTag (.ofNat level)) := by
  have hall : ∀ level ≤ 4, Bare (levelTag (.ofNat level)) := by decide
  exact hall level h

theorem bare_joinParts {p m : List UInt8} (hp : Bare p) (hm : Bare m) : Bare (joinParts [p, m]) := by
  by_cases hp0 : p = [] <;> by_cases hm0 : m = []
  · rw [hp0, hm0]
    decide
  · rwa [show joinParts [p, m] = m by simp [joinParts, List.intercalate, hp0, hm0]]
  · rwa [show joinParts [p, m] = p by simp [joinParts, List.intercalate, hp0, hm0]]
  · rw [show joinParts [p, m] = p ++ [58, 32] ++ m by
      simp [joinParts, List.intercalate, hp0, hm0]]
    exact bare_append.mpr ⟨bare_append.mpr ⟨hp, by decide⟩, hm⟩

/-- The data stand behind the other parts. -/
theorem joinParts_data {p m : List UInt8} (hp : Bare p) (hm : Bare m) (d : List UInt8) :
    ∃ lead, Bare lead ∧ joinParts [p, m, d] = lead ++ d := by
  have hjoin := bare_joinParts hp hm
  by_cases hd : d = []
  · exact ⟨joinParts [p, m], hjoin, by simp [joinParts, List.filter_cons, hd]⟩
  · by_cases hboth : joinParts [p, m] = []
    · refine ⟨[], by decide, ?_⟩
      by_cases hp0 : p = [] <;> by_cases hm0 : m = [] <;>
        simp [joinParts, List.intercalate, hp0, hm0, hd] at hboth ⊢
    · refine ⟨joinParts [p, m] ++ [58, 32], bare_append.mpr ⟨hjoin, by decide⟩, ?_⟩
      by_cases hp0 : p = [] <;> by_cases hm0 : m = [] <;>
        simp [joinParts, List.intercalate, hp0, hm0, hd] at hboth ⊢

/-! ### Reading a dump -/

variable {bytes lead : List UInt8} {k : Nat}

/-- No escape has a line feed, or starts with a quote. -/
theorem dumpOut_chars (c : UInt8) : 10 ∉ dumpOut c ∧ (dumpOut c).head? ≠ some 34 := by
  revert c
  exact forall_byte (by decide +kernel)

/-- The dots are bytes like others to the reader. -/
theorem dumpText_eq (bytes : List UInt8) (k : Nat) : dumpText bytes k =
    34 :: (dumpCode.encode (bytes.take k ++ ellipsis bytes k) ++
      34 :: (32 :: 40 :: (decimal bytes.length ++ [41]))) := by
  have hdots : dumpCode.encode (ellipsis bytes k) =
      if k < bytes.length then [46, 46, 46] else [] := by
    unfold ellipsis
    split <;> decide
  rw [PrefixCode.encode_append, hdots]
  simp [dumpText, minSuffix, dumpPrefix, PrefixCode.encode, dumpCode]

theorem line_feed_not_mem_dumpText : 10 ∉ dumpText bytes k := by
  have hencode : 10 ∉ dumpCode.encode (bytes.take k ++ ellipsis bytes k) := by
    intro h
    obtain ⟨c, -, hc⟩ := List.mem_flatMap.mp h
    exact (dumpOut_chars c).1 hc
  have hcount := (bare_decimal bytes.length).1
  simpa [dumpText_eq, hcount] using hencode

/-- In a line without quotes there is no dump. -/
theorem readDump_none {line : List UInt8} (h : 34 ∉ line) : readDump line = none := by
  have hall : line.dropWhile (· ≠ 34) = [] := by
    rw [List.dropWhile_eq_nil_iff]
    intro c hc
    exact decide_eq_true fun heq => h (heq ▸ hc)
  rw [readDump, hall]

/-- **A dump is read back** behind a text without quotes. -/
theorem readDump_dumpText (hlead : 34 ∉ lead) :
    readDump (lead ++ dumpText bytes k) =
      some ⟨bytes.take k ++ ellipsis bytes k, bytes.length⟩ := by
  have hpos : ∀ c ∈ lead, decide (c ≠ 34) = true := by
    intro c hc
    exact decide_eq_true fun heq => hlead (heq ▸ hc)
  have hmark : ∀ c, (dumpCode.enc c).head? ≠ some 34 := fun c => (dumpOut_chars c).2
  rw [readDump, List.dropWhile_append_of_pos hpos, dumpText_eq,
    List.dropWhile_cons_of_neg (by simp)]
  dsimp only
  rw [PrefixCode.decodeUntil_encode hmark]
  · rw [Option.map_some, List.drop_succ_cons, List.drop_succ_cons, List.drop_zero,
      List.dropLast_concat, digitsValue_decimal]
  · -- every byte takes a character at least
    have henc : (bytes.take k ++ ellipsis bytes k).length ≤
        (dumpCode.encode (bytes.take k ++ ellipsis bytes k)).length :=
      (flatMap_dumpOut_length _).1
    simp only [List.length_append] at henc ⊢
    omega

/-- What is read says how much of the block it is. -/
theorem readsAs_shown (h : Shown bytes k) :
    ReadsAs bytes ⟨bytes.take k ++ ellipsis bytes k, bytes.length⟩ where
  count := rfl
  shown := ⟨k, h, rfl⟩
  whole hshort := by
    obtain rfl := h.whole hshort
    simp [ellipsis]

/-! ### The records -/

variable {c : LogUse} {r : Record}

/-- What a record says of the block that goes with it. -/
structure Carries (r : Record) (payload : Option (List UInt8)) : Prop where
  level : r.level ≤ 4
  prefix_ : Bare r.prefix_
  msg : Bare r.msg
  data : (payload = none ∧ r.data = []) ∨
    ∃ bytes k, payload = some bytes ∧ Shown bytes k ∧ r.data = dumpText bytes k

/-- A line without a dump. -/
theorem records_text (hno : ∀ logger ∈ c.log, logger.prefixer = none) (hbare : c.toLogCall.Bare)
    (hblock : c.block = none) :
    ∃ r : Option Record, (∀ fuel d, c.records fuel d = some r.toList) ∧
      (r = none → c.payload = none) ∧ ∀ r' ∈ r, Carries r' c.payload := by
  have hnone : c.payload = none := by simp [LogUse.payload, hblock]
  have hrecords : ∀ fuel d, c.records fuel d = some (if c.enabled then
      (spoken c.log c.kind.level c.source.1 c.source.2 c.fmt).toList else []) := by
    intro fuel d
    rw [LogUse.records, sancusLog, hblock]
    dsimp only
    rw [vprintf_spoken hno, List.nil_append]
  rw [hnone]
  cases henabled : c.enabled with
  | false =>
    rw [henabled] at hrecords
    exact ⟨none, hrecords, fun _ => rfl, by simp⟩
  | true =>
    rw [henabled] at hrecords
    refine ⟨_, hrecords, fun _ => rfl, ?_⟩
    intro r hr
    obtain ⟨msg, hmsg, hr⟩ := Option.bind_eq_some_iff.mp hr
    obtain ⟨-, hr⟩ := Option.ite_none_left_eq_some.mp hr
    obtain rfl := Option.some.inj hr
    exact ⟨c.kind.level_le, hbare.prefix_, hbare.message msg hmsg, .inl ⟨rfl, rfl⟩⟩

/-- A dump is handed over if the message is rendered, the block is there, and its length has
    room. -/
theorem records_dump (hno : ∀ logger ∈ c.log, logger.prefixer = none) (hbare : c.toLogCall.Bare)
    {block : Data} (hblock : c.block = some block) :
    ∃ r : Option Record,
      (∀ fuel d, block.bytes.length < fuel → c.records fuel d = some r.toList) ∧
      (r = none → c.payload = none) ∧ ∀ r' ∈ r, Carries r' c.payload := by
  obtain ⟨hpre, hprefix⟩ := logCtxPrefix2_text hno
  have hfails : block.Missing ∨ (logCtxPrefix2 c.log (lbuffer LOG_PREFIX_SIZE)).1 < 0 ∨
      (logFmt (lbuffer LOG_MESSAGE_SIZE) c.source.1 c.source.2 c.fmt).1 < 0 →
      c.enabled = true → ∀ fuel d, block.bytes.length < fuel → c.records fuel d = some [] := by
    intro h henabled fuel d _
    have hrun : ∃ rc, sancusLoggerVdumpf fuel d c.log c.kind.level c.source.1 c.source.2 block c.fmt
        [] = some (rc, []) := vdumpf_fails h
    obtain ⟨rc, hrc⟩ := hrun
    simp [LogUse.records, sancusLogDump, hblock, henabled, hrc]
  cases henabled : c.enabled with
  | false =>
    refine ⟨none, ?_, ?_, by simp⟩
    · simp [LogUse.records, sancusLogDump, hblock, henabled]
    · simp [LogUse.payload, henabled]
  | true =>
    rcases logFmt_text c.source.1 c.source.2 c.fmt with ⟨htext, hfailed⟩ | ⟨msg, htext, hret, hmsg⟩
    · refine ⟨none, hfails (.inr (.inr hfailed)) henabled, ?_, by simp⟩
      simp [LogUse.payload, LogCall.message, htext]
    · by_cases hmissing : block.Missing
      · refine ⟨none, hfails (.inl hmissing) henabled, ?_, by simp⟩
        simp [LogUse.payload, hblock, hmissing]
      · obtain ⟨k, hshown, heq⟩ := vdumpf_eq hmissing hpre hret
        have hroom := hshown.room_iff
        by_cases hfit : (dumpText block.bytes k).length ≤ LOG_DATA_SIZE - 1
        · have hpayload : c.payload = some block.bytes := by
            have hsome : c.message.isSome := by simp [LogCall.message, htext]
            have hroom' : RoomFor block.bytes := hroom.mp hfit
            simp [LogUse.payload, henabled, hsome, hblock, hmissing, hroom']
          refine ⟨some (dumpRecord c.log c.kind.level c.source.1 c.source.2 c.fmt
            (dumpText block.bytes k)), ?_, by simp, ?_⟩
          · intro fuel d hfuel
            have hrun := heq d c.kind.level [] fuel hfuel
            rw [if_pos hfit] at hrun
            simp [LogUse.records, sancusLogDump, hblock, henabled, hrun]
          · rintro r ⟨⟩
            refine ⟨c.kind.level_le, ?_, ?_, .inr ⟨_, k, hpayload, hshown, rfl⟩⟩
            · rw [dumpRecord, hprefix]
              exact hbare.prefix_
            · rw [dumpRecord, hmsg]
              exact hbare.message msg htext
        · have hroom' : ¬ RoomFor block.bytes := fun h => hfit (hroom.mpr h)
          refine ⟨none, ?_, ?_, by simp⟩
          · intro fuel d hfuel
            have hrun := heq d c.kind.level [] fuel hfuel
            rw [if_neg hfit] at hrun
            simp [LogUse.records, sancusLogDump, hblock, henabled, hrun]
          · simp [LogUse.payload, hblock, hroom']

/-! ### Runs -/

variable {s s' : LogState}

/-- What has been written is in lines, and in these the blocks are read back. -/
def Told (out : List UInt8) (blocks : List (List UInt8)) : Prop :=
  ∃ lines, out = (lineCode 10).encode lines ∧
    List.Forall₂ ReadsAs blocks (lines.filterMap fun line => readDump line.1)

/-- **A record is a line**, in which its block is read back. -/
theorem fdCall_told (data : FdBackendData) (hclock : s.clock.Valid) (hc : c.toLogCall.Sound)
    {payload : Option (List UInt8)} {blocks : List (List UInt8)} (hr : Carries r payload)
    (htold : Told s.out blocks) :
    ∃ s' n, (∀ fuel, n ≤ fuel → fdCall fuel data c.toLogCall s r = some s') ∧ s'.clock.Valid ∧
      Told s'.out (blocks ++ payload.toList) := by
  obtain ⟨stamp, clock', n, hstamp, hvalid, hline⟩ := fdCall_line data hclock hc hr.level
  have hlead : Bare (stamp.getD [] ++ (levelTag (.ofNat r.level) ++ [47])) :=
    bare_append.mpr ⟨bare_fdStamp hstamp, bare_append.mpr ⟨bare_levelTag hr.level, by decide⟩⟩
  obtain ⟨lead, hbare, hjoin⟩ := joinParts_data hr.prefix_ hr.msg r.data
  obtain ⟨lines, hout, hread⟩ := htold
  have hall := bare_append.mpr ⟨hlead, hbare⟩
  have hfeed : 10 ∉ r.data := by
    rcases hr.data with ⟨-, hdata⟩ | ⟨bytes, k, -, -, hdata⟩
    · simp [hdata]
    · rw [hdata]
      exact line_feed_not_mem_dumpText
  have hnot : 10 ∉ stamp.getD [] ++ (levelTag (.ofNat r.level) ++ [47]) ++ lead ++ r.data := by
    rw [List.mem_append, not_or]
    exact ⟨hall.1, hfeed⟩
  refine ⟨_, n, hline, hvalid, lines ++ [⟨_, hnot⟩], ?_, ?_⟩
  · rw [PrefixCode.encode_append, ← hout, hjoin]
    simp [lineCode]
  · rw [List.filterMap_append]
    refine List.rel_append hread ?_
    rcases hr.data with ⟨hpayload, hdata⟩ | ⟨bytes, k, hpayload, hshown, hdata⟩
    · have hnone := readDump_none hall.2
      simpa [hpayload, hdata] using hnone
    · have hsome : readDump (_ ++ dumpText bytes k) = _ := readDump_dumpText hall.2
      simp only [hpayload, hdata, List.filterMap_cons, hsome]
      exact .cons (readsAs_shown hshown) .nil

/-- **Step lemma.**  A macro that is used writes a line, with its block, or nothing. -/
theorem useStep_told (data : FdBackendData) (hclock : s.clock.Valid) (hc : c.toLogCall.Sound)
    (hbare : c.toLogCall.Bare) {blocks : List (List UInt8)} (htold : Told s.out blocks) :
    ∃ s' n, (∀ fuel, n ≤ fuel → useStep fuel data s c = some s') ∧ s'.clock.Valid ∧
      Told s'.out (blocks ++ c.dumped.toList) := by
  -- the rounds of the encoder, of which there are no more than bytes
  have hrecords : ∃ (r : Option Record) (n : Nat),
      (∀ fuel d, n ≤ fuel → c.records fuel d = some r.toList) ∧
      (r = none → c.payload = none) ∧ ∀ r' ∈ r, Carries r' c.payload := by
    cases hblock : c.block with
    | none =>
      obtain ⟨r, hrun, hrest⟩ := records_text hc.noPrefixer hbare hblock
      exact ⟨r, 0, fun fuel d _ => hrun fuel d, hrest⟩
    | some block =>
      obtain ⟨r, hrun, hrest⟩ := records_dump hc.noPrefixer hbare hblock
      exact ⟨r, block.bytes.length + 1, hrun, hrest⟩
  obtain ⟨r, n, hrun, hnone, hcarries⟩ := hrecords
  have hstep : ∀ fuel, n ≤ fuel → useStep fuel data s c =
      if ownBackend c.log then some s
      else r.toList.foldlM (fdCall fuel data c.toLogCall) s := by
    intro fuel hfuel
    rw [useStep, hrun fuel _ hfuel]
    exact if_neg (by simp [hc.rendersInside])
  unfold LogUse.dumped
  cases hown : ownBackend c.log with
  | true =>
    refine ⟨s, n, fun fuel hfuel => ?_, hclock, by simpa using htold⟩
    rw [hstep fuel hfuel, hown]
    rfl
  | false =>
    rw [hown] at hstep
    cases r with
    | none => exact ⟨s, n, hstep, hclock, by simpa [hnone rfl] using htold⟩
    | some r =>
      obtain ⟨s', n', hline, hvalid, htold'⟩ := fdCall_told data hclock hc (hcarries r rfl) htold
      refine ⟨s', max n n', fun fuel hfuel => ?_, hvalid, by simpa using htold'⟩
      rw [hstep fuel (le_of_max_le_left hfuel)]
      show List.foldlM (fdCall fuel data c.toLogCall) s [r] = _
      rw [List.foldlM_cons, hline fuel (le_of_max_le_right hfuel)]
      rfl

/-- **Run lemma.** -/
theorem useStep_run (data : FdBackendData) (uses : List LogUse) (hclock : s.clock.Valid)
    (hsound : ∀ c ∈ uses, c.toLogCall.Sound) (hbare : ∀ c ∈ uses, c.toLogCall.Bare)
    {blocks : List (List UInt8)} (htold : Told s.out blocks) :
    ∃ s' n, (∀ fuel, n ≤ fuel → Machine.run (useStep fuel data) s uses = some s') ∧
      Told s'.out (blocks ++ uses.filterMap LogUse.dumped) := by
  induction uses generalizing s blocks with
  | nil => exact ⟨s, 0, fun _ _ => rfl, by simpa using htold⟩
  | cons c uses ih =>
    simp only [List.forall_mem_cons] at hsound hbare
    obtain ⟨s', n, hstep, hvalid, htold'⟩ := useStep_told data hclock hsound.1 hbare.1 htold
    obtain ⟨s'', n', hrun, hall⟩ := ih hvalid hsound.2 hbare.2 htold'
    refine ⟨s'', max n n', fun fuel hfuel => ?_, ?_⟩
    · rw [Machine.run, hstep fuel (le_of_max_le_left hfuel)]
      exact hrun fuel (le_of_max_le_right hfuel)
    · cases hc : c.dumped <;> simpa [hc] using hall

end Sancus.Log
