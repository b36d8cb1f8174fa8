import Mathlib.Data.List.TakeWhile

namespace CModel

/-!
# C string literals — the bytes they stand for

The characters between the quotes stand for themselves, up to the escapes.  An octal escape takes
up to three digits, and a hexadecimal one all that follow.

* `sChar` — the first byte of what is between the quotes;
* `stringLiteral` — the bytes of a literal;
* `sChars_eq_some` — a literal is read a byte at a time;
* `sChar_octal`, `sChar_hex` — what an escape by number takes.
-/

def isOctalDigit (c : UInt8) : Bool := 48 ≤ c && c ≤ 55

def isHexDigit (c : UInt8) : Bool :=
  (48 ≤ c && c ≤ 57) || (65 ≤ c && c ≤ 70) || (97 ≤ c && c ≤ 102)

/-- The value of a digit of any base up to 16. -/
def digitValue (c : UInt8) : Nat :=
  if c ≤ 57 then c.toNat - 48 else if c ≤ 70 then c.toNat - 55 else c.toNat - 87

/-- The number that digits stand for. -/
def digitsValue (b : Nat) (ds : List UInt8) : Nat := ds.foldl (fun v d => b * v + digitValue d) 0

/-- `\'`, `\"`, `\?`, `\\`, `\a`, `\b`, `\f`, `\n`, `\r`, `\t`, `\v`, by the character behind the
    backslash. -/
def simpleEscape (c : UInt8) : Option UInt8 :=
  match c.toNat with
  | 39 => some 39
  | 34 => some 34
  | 63 => some 63
  | 92 => some 92
  | 97 => some 7
  | 98 => some 8
  | 102 => some 12
  | 110 => some 10
  | 114 => some 13
  | 116 => some 9
  | 118 => some 11
  | _ => none

/-- An escape by number, in front of `s`; the number has to be that of an `unsigned char`. -/
def numberEscape (b : Nat) (ds s : List UInt8) : Option (UInt8 × List UInt8) :=
  if digitsValue b ds < 256 then some (UInt8.ofNat (digitsValue b ds), s.drop ds.length) else none

/-- What is behind a backslash. -/
def escapeSequence : List UInt8 → Option (UInt8 × List UInt8)
  | []     => none
  | c :: s =>
    if isOctalDigit c then
      numberEscape 8 (((c :: s).take 3).takeWhile isOctalDigit) (c :: s)
    else if c = 120 then
      if s.takeWhile isHexDigit = [] then none else numberEscape 16 (s.takeWhile isHexDigit) s
    else (simpleEscape c).map fun b => (b, s)

/-- The first byte of what is between the quotes, and what is left of it. -/
def sChar : List UInt8 → Option (UInt8 × List UInt8)
  | []     => none
  | c :: s => if c = 92 then escapeSequence s else if c = 34 ∨ c = 10 then none else some (c, s)

/-- All of the bytes, up to a quote at the end; at most `fuel` rounds. -/
def sChars : Nat → List UInt8 → Option (List UInt8)
  | 0,        _ => none
  | fuel + 1, s =>
    if s = [34] then some []
    else do
      let (c, s) ← sChar s
      let cs ← sChars fuel s
      some (c :: cs)

/-- The bytes of a string literal, which is the whole of the text. -/
def stringLiteral : List UInt8 → Option (List UInt8)
  | []     => none
  | c :: s => if c = 34 then sChars s.length s else none

/-- What holds of every byte can be checked byte by byte. -/
theorem forall_byte {P : UInt8 → Prop} (h : ∀ n < 256, P (UInt8.ofNat n)) (c : UInt8) : P c := by
  have hc := h c.toNat c.toNat_lt
  rwa [UInt8.ofNat_toNat] at hc

variable {fuel : Nat} {c b : UInt8} {s bs : List UInt8}

/-- A literal has one byte more than what is left of it behind the first. -/
theorem sChars_eq_some (hs : s ≠ [34]) : sChars (fuel + 1) s = some bs ↔
    ∃ b s' bs', sChar s = some (b, s') ∧ sChars fuel s' = some bs' ∧ bs = b :: bs' := by
  rw [sChars, if_neg hs]
  refine ⟨?_, ?_⟩
  · intro h
    obtain ⟨⟨b, s'⟩, hchar, h⟩ := Option.bind_eq_some_iff.mp h
    obtain ⟨bs', hrest, h⟩ := Option.bind_eq_some_iff.mp h
    exact ⟨b, s', bs', hchar, hrest, (Option.some.inj h).symm⟩
  · rintro ⟨b, s', bs', hchar, hrest, rfl⟩
    refine Option.bind_eq_some_iff.mpr ⟨(b, s'), hchar, ?_⟩
    exact Option.bind_eq_some_iff.mpr ⟨bs', hrest, rfl⟩

/-- A character that stands for itself. -/
theorem sChar_self (hslash : c ≠ 92) (hquote : c ≠ 34) (hline : c ≠ 10) :
    sChar (c :: s) = some (c, s) := by
  rw [sChar, if_neg hslash, if_neg (by simp [hquote, hline])]

/-- A simple escape. -/
theorem sChar_simple (hsimple : simpleEscape c = some b) (hoctal : isOctalDigit c = false)
    (hx : c ≠ 120) : sChar (92 :: c :: s) = some (b, s) := by
  simp [sChar, escapeSequence, hoctal, hx, hsimple]

/-- An octal escape takes up to two digits behind its first one. -/
theorem sChar_octal (hc : isOctalDigit c = true) : sChar (92 :: c :: s) =
    numberEscape 8 (c :: (s.take 2).takeWhile isOctalDigit) (c :: s) := by
  simp [sChar, escapeSequence, hc]

/-- A hexadecimal escape takes all digits. -/
theorem sChar_hex (hc : isHexDigit c = true) : sChar (92 :: 120 :: c :: s) =
    numberEscape 16 (c :: s.takeWhile isHexDigit) (c :: s) := by
  have hx : isOctalDigit 120 = false := by decide
  simp [sChar, escapeSequence, hx, hc]

end CModel
