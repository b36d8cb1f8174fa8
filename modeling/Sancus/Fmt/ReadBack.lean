import Sancus.CModel.Literal
import Sancus.Fmt.Cstr

namespace Sancus.Fmt

open CModel

/-!
# Formatting — the text of a C string, read back

Every byte is written as an escape that stands for it.  An escape by number is not closed, and
goes on over the digits behind it, which are bytes of their own.

* `taken` — the bytes that an escape goes on over;
* `sChar_text` — what the first escape of a text is read as;
* `RunsOn` — two bytes of which the escape of the first goes on over the second;
* `cstr_reads_back_iff` — the data that are read back are those without such bytes.
-/

/-! ### The escapes -/

theorem cstrWidth_cases (c : UInt8) : cstrWidth c = 1 ∨ cstrWidth c = 2 ∨ cstrWidth c = 4 := by
  unfold cstrWidth
  split_ifs <;> simp

/-- What the tables say of the letter that is written for a byte. -/
theorem letter_self (c : UInt8) : cstrWidth c = 1 →
    cstrLetter c = c ∧ c ≠ 92 ∧ c ≠ 34 ∧ c ≠ 10 := by
  revert c
  exact forall_byte (by decide +kernel)

theorem letter_simple (c : UInt8) : cstrWidth c = 2 ∧ c ≠ 0 →
    simpleEscape (cstrLetter c) = some c ∧ isOctalDigit (cstrLetter c) = false ∧
      cstrLetter c ≠ 120 := by
  revert c
  exact forall_byte (by decide +kernel)

theorem escape_self {c : UInt8} (h : cstrWidth c = 1) : cstrEscape c = [c] := by
  rw [cstrEscape, h, cstrSwitch, (letter_self c h).1]

theorem escape_letter {c : UInt8} (h : cstrWidth c = 2) : cstrEscape c = [92, cstrLetter c] := by
  rw [cstrEscape, h, cstrSwitch]

/-- The digits of a byte that is written by its number. -/
def hexDigits (c : UInt8) : UInt8 × UInt8 :=
  (hexa.getD ((c &&& 0xf0) >>> 4).toNat 0, hexa.getD (c &&& 0x0f).toNat 0)

theorem escape_number {c : UInt8} (h : cstrWidth c = 4) :
    cstrEscape c = [92, 120, (hexDigits c).1, (hexDigits c).2] := by
  rw [cstrEscape, h, cstrSwitch, hexDigits]

theorem hexDigits_value (c : UInt8) :
    isHexDigit (hexDigits c).1 = true ∧ isHexDigit (hexDigits c).2 = true ∧
      digitsValue 16 [(hexDigits c).1, (hexDigits c).2] = c.toNat := by
  revert c
  exact forall_byte (by decide +kernel)

/-- A byte is written as itself, or its escape starts with a backslash. -/
theorem escape_head (c : UInt8) : (cstrEscape c).headD 0 = c ∨ (cstrEscape c).headD 0 = 92 := by
  obtain h | h | h := cstrWidth_cases c
  · rw [escape_self h]
    exact .inl rfl
  · rw [escape_letter h]
    exact .inr rfl
  · rw [escape_number h]
    exact .inr rfl

/-- Characters that are written as themselves, and that no other byte's escape starts with. -/
structure Plain (p : UInt8 → Bool) : Prop where
  self : ∀ c, p c = true → cstrEscape c = [c]
  other : ∀ c, p c = false → p ((cstrEscape c).headD 0) = false
  quote : p 34 = false

theorem Plain.of_width {p : UInt8 → Bool} (hself : ∀ c, p c = true → cstrWidth c = 1)
    (hslash : p 92 = false) (hquote : p 34 = false) : Plain p := by
  refine ⟨fun c hc => escape_self (hself c hc), fun c hc => ?_, hquote⟩
  obtain h | h := escape_head c <;> rwa [h]

theorem plain_octal : Plain isOctalDigit :=
  .of_width (forall_byte (by decide +kernel)) (by decide) (by decide)

theorem plain_hex : Plain isHexDigit :=
  .of_width (forall_byte (by decide +kernel)) (by decide) (by decide)

/-! ### The text -/

/-- What is behind the opening quote. -/
def text (data : List UInt8) : List UInt8 := data.flatMap cstrEscape ++ [34]

variable {p : UInt8 → Bool} {c d : UInt8} {data bs : List UInt8} {fuel : Nat}

theorem text_cons (c : UInt8) (data : List UInt8) :
    text (c :: data) = cstrEscape c ++ text data := by
  simp [text]

/-- Every byte takes a character at least, and the quote one more. -/
theorem length_lt_text (data : List UInt8) : data.length < (text data).length := by
  induction data with
  | nil => exact Nat.zero_lt_one
  | cons c data ih =>
    have hwidth := cstrEscape_length c
    have hcases := cstrWidth_cases c
    rw [text_cons, List.length_append, List.length_cons]
    omega

theorem text_ne_quote (c : UInt8) (data : List UInt8) : text (c :: data) ≠ [34] := by
  intro h
  have hlen := length_lt_text (c :: data)
  rw [h, List.length_cons, List.length_singleton] at hlen
  omega

namespace Plain

/-- A byte that is not of the kind has an escape that does not start with one. -/
theorem text_other (hp : Plain p) (hc : p c = false) (data : List UInt8) :
    ∃ e s, text (c :: data) = e :: s ∧ p e = false := by
  have hhead := hp.other c hc
  have hwidth := cstrEscape_length c
  rw [text_cons]
  cases hesc : cstrEscape c with
  | nil =>
    rw [hesc, List.length_nil] at hwidth
    have hcases := cstrWidth_cases c
    omega
  | cons e s =>
    rw [hesc] at hhead
    exact ⟨e, s ++ text data, rfl, hhead⟩

/-- A run of such characters in the text is one in the data. -/
theorem takeWhile_take (hp : Plain p) (data : List UInt8) (k : Nat) :
    ((text data).take k).takeWhile p = (data.take k).takeWhile p := by
  induction data generalizing k with
  | nil => cases k <;> simp [text, hp.quote]
  | cons c data ih =>
    cases k with
    | zero => simp
    | succ k =>
      cases hc : p c with
      | true =>
        rw [text_cons, hp.self c hc, List.singleton_append, List.take_succ_cons,
          List.take_succ_cons, List.takeWhile_cons_of_pos hc, List.takeWhile_cons_of_pos hc, ih]
      | false =>
        obtain ⟨e, s, htext, he⟩ := hp.text_other hc data
        rw [htext]
        simp [he, hc]

theorem takeWhile (hp : Plain p) (data : List UInt8) :
    (text data).takeWhile p = data.takeWhile p := by
  have hle : data.length ≤ max data.length (text data).length := le_max_left _ _
  have h := hp.takeWhile_take data (max data.length (text data).length)
  rwa [List.take_of_length_le (le_max_right _ _), List.take_of_length_le hle] at h

/-- Behind such a run the text is that of the rest of the data. -/
theorem drop_text (hp : Plain p) (data : List UInt8) {j : Nat}
    (hj : j ≤ (data.takeWhile p).length) : (text data).drop j = text (data.drop j) := by
  induction data generalizing j with
  | nil =>
    obtain rfl : j = 0 := by simpa using hj
    rfl
  | cons c data ih =>
    cases j with
    | zero => rfl
    | succ j =>
      cases hc : p c with
      | true =>
        rw [List.takeWhile_cons_of_pos hc, List.length_cons] at hj
        rw [text_cons, hp.self c hc, List.singleton_append, List.drop_succ_cons,
          List.drop_succ_cons]
        exact ih (by omega)
      | false => simp [hc] at hj

end Plain

/-! ### Reading a byte -/

/-- The bytes of the data that the escape of `c` goes on over. -/
def taken (c : UInt8) (data : List UInt8) : List UInt8 :=
  if c = 0 then (data.take 2).takeWhile isOctalDigit
  else if cstrWidth c = 4 then data.takeWhile isHexDigit
  else []

/-- An escape by number is read with the digits behind it: as its byte if there are none. -/
theorem numberEscape_text (hp : Plain p) {b : Nat} {ds ds' : List UInt8}
    (hvalue : digitsValue b ds = c.toNat) (hle : ds'.length ≤ (data.takeWhile p).length) :
    (ds' = [] → numberEscape b (ds ++ ds') (ds ++ text data) = some (c, text data)) ∧
    ∀ b' s, numberEscape b (ds ++ ds') (ds ++ text data) = some (b', s) →
      s = text (data.drop ds'.length) := by
  rw [numberEscape, List.length_append, ← List.drop_drop, List.drop_left, hp.drop_text data hle]
  refine ⟨?_, ?_⟩
  · rintro rfl
    rw [List.append_nil, hvalue, if_pos c.toNat_lt, UInt8.ofNat_toNat]
    rfl
  · intro b' s h
    rw [Option.ite_none_right_eq_some] at h
    exact (Prod.mk.inj (Option.some.inj h.2)).2.symm

/-- **The first escape of a text.**  It is read as its byte if it goes on over nothing, and
    otherwise, if it is read at all, as some byte with those that it goes on over. -/
theorem sChar_text (c : UInt8) (data : List UInt8) :
    (taken c data = [] → sChar (text (c :: data)) = some (c, text data)) ∧
    ∀ b s, sChar (text (c :: data)) = some (b, s) →
      s = text (data.drop (taken c data).length) := by
  unfold taken
  by_cases hzero : c = 0
  · subst hzero
    have hle : ((data.take 2).takeWhile isOctalDigit).length ≤
        (data.takeWhile isOctalDigit).length := by
      rw [← List.take_takeWhile]
      exact List.length_take_le' _ _
    have hchar : sChar (text (0 :: data)) = _ := sChar_octal (c := 48) (s := text data) rfl
    rw [hchar, plain_octal.takeWhile_take, if_pos rfl]
    exact numberEscape_text plain_octal (show digitsValue 8 [48] = UInt8.toNat 0 from rfl) hle
  · rw [if_neg hzero]
    rcases cstrWidth_cases c with hw | hw | hw
    · obtain ⟨-, hslash, hquote, hline⟩ := letter_self c hw
      have hchar := sChar_self (s := text data) hslash hquote hline
      rw [text_cons, escape_self hw, List.singleton_append, hchar, hw, if_neg (by decide)]
      simp
    · obtain ⟨hsimple, hoctal, hx⟩ := letter_simple c ⟨hw, hzero⟩
      have hchar := sChar_simple (s := text data) hsimple hoctal hx
      rw [text_cons, escape_letter hw, List.cons_append, List.singleton_append, hchar, hw,
        if_neg (by decide)]
      simp
    · obtain ⟨hfirst, hsecond, hvalue⟩ := hexDigits_value c
      have hchar := sChar_hex (s := (hexDigits c).2 :: text data) hfirst
      rw [List.takeWhile_cons_of_pos hsecond, plain_hex.takeWhile] at hchar
      rw [text_cons, escape_number hw, if_pos hw]
      exact hchar ▸ numberEscape_text plain_hex hvalue (le_refl _)

/-! ### Reading the text -/

/-- No more bytes are read than have been written. -/
theorem length_sChars_text (h : sChars fuel (text data) = some bs) : bs.length ≤ data.length := by
  induction fuel generalizing data bs with
  | zero => simp [sChars] at h
  | succ fuel ih =>
    cases data with
    | nil =>
      obtain rfl : [] = bs := by simpa [sChars, text] using h
      exact Nat.le_refl _
    | cons c data =>
      obtain ⟨b, s, bs', hchar, hrest, rfl⟩ := (sChars_eq_some (text_ne_quote c data)).mp h
      rw [(sChar_text c data).2 b s hchar] at hrest
      have hlen := ih hrest
      rw [List.length_drop] at hlen
      rw [List.length_cons, List.length_cons]
      omega

/-- The escape of `c` goes on over `d`, if that is behind it. -/
def RunsOn (c d : UInt8) : Prop :=
  (c = 0 ∧ isOctalDigit d = true) ∨ (cstrWidth c = 4 ∧ isHexDigit d = true)

instance (c d : UInt8) : Decidable (RunsOn c d) := inferInstanceAs (Decidable (_ ∨ _))

theorem taken_eq_nil (c d : UInt8) (data : List UInt8) :
    taken c (d :: data) = [] ↔ ¬ RunsOn c d := by
  have hzero : cstrWidth 0 ≠ 4 := by decide
  unfold taken RunsOn
  by_cases hc : c = 0
  · subst hc
    simp [hzero, List.takeWhile_cons]
  · by_cases hw : cstrWidth c = 4
    · simp [hc, hw, List.takeWhile_cons]
    · simp [hc, hw]

/-- **The text is read back** where no escape goes on over the byte behind it, and only there:
    such a byte would be missing. -/
theorem sChars_text_iff (hfuel : data.length < fuel) :
    sChars fuel (text data) = some data ↔ data.IsChain fun c d => ¬ RunsOn c d := by
  induction data generalizing fuel with
  | nil =>
    obtain ⟨fuel, rfl⟩ := Nat.exists_eq_succ_of_ne_zero (by omega : fuel ≠ 0)
    simp [sChars, text]
  | cons c data ih =>
    obtain ⟨fuel, rfl⟩ := Nat.exists_eq_succ_of_ne_zero (by omega : fuel ≠ 0)
    rw [List.length_cons] at hfuel
    have hrest := ih (show data.length < fuel by omega)
    obtain ⟨hself, hover⟩ := sChar_text c data
    rw [sChars_eq_some (text_ne_quote c data)]
    have hiff : taken c data = [] ∧ (data.IsChain fun c d => ¬ RunsOn c d) ↔
        (c :: data).IsChain fun c d => ¬ RunsOn c d := by
      cases data with
      | nil => simp [taken]
      | cons d data => rw [taken_eq_nil, List.isChain_cons_cons]
    rw [← hiff, ← hrest]
    refine ⟨?_, ?_⟩
    · rintro ⟨b, s, bs, hchar, hread, heq⟩
      obtain ⟨rfl, rfl⟩ := List.cons.inj heq
      rw [hover c s hchar] at hread
      have hlen := length_sChars_text hread
      -- a byte that is gone on over is not read
      have hnil : taken c data = [] := by
        rw [List.length_drop] at hlen
        cases data with
        | nil => simp [taken]
        | cons d data =>
          rw [List.length_cons] at hlen
          exact List.eq_nil_of_length_eq_zero (by omega)
      rw [hnil] at hread
      exact ⟨hnil, hread⟩
    · rintro ⟨hnil, hread⟩
      exact ⟨c, text data, data, hself hnil, hread, rfl⟩

/-- The text that is put in the buffer, between quotes, is a literal of the data. -/
def ReadsBack (m : Mem) (bufLen : Nat) (data : List UInt8) : Prop :=
  ∃ m' n, sancusFmtAsciiCstr m bufLen data = some (m', n) ∧
    stringLiteral (34 :: (m'.load 0 n ++ [34])) = some data

/-- In a buffer with room for all of it, the text is that of all of the data. -/
theorem readsBack_iff_literal (m : Mem) {bufLen : Nat} (hdata : data ≠ [])
    (hroom : (data.flatMap cstrEscape).length < bufLen) :
    ReadsBack m bufLen data ↔ stringLiteral (34 :: text data) = some data := by
  obtain ⟨m', heq, hwrote⟩ := sancusFmtAsciiCstr_eq m (show 0 < bufLen by omega) hdata
  have hall : fitting cstrEscape (bufLen - 1) data = data :=
    (fitting_longest cstrEscape (bufLen - 1) data).eq_self (by omega)
  rw [hall] at heq hwrote
  have hload := hwrote.load_eq
  rw [List.length_append, Mem.load_add] at hload
  have htext : m'.load 0 (data.flatMap cstrEscape).length = data.flatMap cstrEscape :=
    List.append_inj_left hload (Mem.load_length _ _ _)
  unfold ReadsBack
  rw [heq]
  refine ⟨?_, ?_⟩
  · rintro ⟨_, _, hsome, hread⟩
    obtain ⟨rfl, rfl⟩ := Prod.mk.inj (Option.some.inj hsome)
    rwa [htext] at hread
  · intro hread
    exact ⟨m', _, rfl, by rwa [htext]⟩

/-- **When the text reads back.**  For all data that are not empty and every buffer with room for
    the whole text: exactly if no escape by number is followed by a byte that is a digit of its
    base. -/
theorem cstr_reads_back_iff (m : Mem) (bufLen : Nat) (data : List UInt8) (hdata : data ≠ [])
    (hroom : (data.flatMap cstrEscape).length < bufLen) :
    ReadsBack m bufLen data ↔ data.IsChain fun c d => ¬ RunsOn c d := by
  rw [readsBack_iff_literal m hdata hroom]
  exact sChars_text_iff (length_lt_text data)

/-- The rule for a NUL, a letter and a bell. -/
theorem cstr_reads_back_iff_bell :
    ReadsBack (Mem.fresh fun _ => 0) 6 [0, 65, 7] ↔
      ([0, 65, 7] : List UInt8).IsChain fun c d => ¬ RunsOn c d :=
  cstr_reads_back_iff (Mem.fresh fun _ => 0) 6 [0, 65, 7] (by decide) (by decide)

/-- **Two bytes that read back as one.**  A NUL and the digit 1 are written as an octal escape of
    two digits, and the byte 1 and an `a` as a hexadecimal one of three. -/
theorem cstr_runs_on :
    ¬ ReadsBack (Mem.fresh fun _ => 0) 8 [0, 49] ∧ ¬ ReadsBack (Mem.fresh fun _ => 0) 8 [1, 97] ∧
      stringLiteral (34 :: text [0, 49]) = some [1] ∧
      stringLiteral (34 :: text [1, 97]) = some [26] := by
  refine ⟨?_, ?_, by decide, by decide⟩
  · rw [readsBack_iff_literal _ (by decide) (by decide)]
    decide
  · rw [readsBack_iff_literal _ (by decide) (by decide)]
    decide

end Sancus.Fmt
