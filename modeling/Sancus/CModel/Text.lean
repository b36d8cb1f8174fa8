import Sancus.CModel.Format
import Sancus.CModel.Literal
import Sancus.CModel.PrefixCode

namespace CModel

/-!
# Text — lines, quoted parts and numbers, read back

What a program prints for people can often be read by a program as well: the lines by the mark at
the end of each, a part between quotes symbol by symbol up to the closing one, and a number digit
by digit.

* `lineCode` — lines as the words of a prefix code;
* `PrefixCode.decodeUntil` — the symbols in front of a mark;
* `decodeUntil_encode` — these are all that have been written, if no word starts with the mark;
* `digitsValue_decimal` — a number is read as itself.
-/

/-! ### Lines -/

section

variable {β : Type} [DecidableEq β]

/-- A line without the mark that ends it. -/
abbrev Line (mark : β) : Type := { s : List β // mark ∉ s }

theorem not_mem_takeWhile (mark : β) (s : List β) : mark ∉ s.takeWhile (· ≠ mark) := by
  intro h
  simpa using List.mem_takeWhile_imp h

/-- Each line ends with the mark, and the next one starts behind it. -/
def lineCode (mark : β) : PrefixCode (Line mark) β where
  enc line := line.1 ++ [mark]
  dec s :=
    if mark ∈ s then
      some (⟨s.takeWhile (· ≠ mark), not_mem_takeWhile mark s⟩, (s.dropWhile (· ≠ mark)).tail)
    else none
  enc_ne_nil line := by simp
  dec_enc line s := by
    have hline : ∀ c ∈ line.1, decide (c ≠ mark) = true := by
      intro c hc
      exact decide_eq_true fun h => line.2 (h ▸ hc)
    have hend : decide (mark ≠ mark) = false := by simp
    have htake : (line.1 ++ mark :: s).takeWhile (· ≠ mark) = line.1 := by
      rw [List.takeWhile_append_of_pos hline, List.takeWhile_cons, hend]
      exact List.append_nil _
    have hdrop : (line.1 ++ mark :: s).dropWhile (· ≠ mark) = mark :: s := by
      rw [List.dropWhile_append_of_pos hline, List.dropWhile_cons, hend]
      rfl
    rw [List.append_assoc, List.singleton_append, if_pos (by simp), hdrop]
    exact congrArg (fun l => some (l, s)) (Subtype.ext htake)

end

/-! ### Quoted parts -/

namespace PrefixCode

variable {α β : Type} [DecidableEq β]

/-- The symbols in front of a mark, and what is behind it; at most `fuel` rounds. -/
def decodeUntil (C : PrefixCode α β) (mark : β) : Nat → List β → Option (List α × List β)
  | 0,        _ => none
  | fuel + 1, s =>
    if s.head? = some mark then some ([], s.tail)
    else do
      let (a, s) ← C.dec s
      let (as, s) ← C.decodeUntil mark fuel s
      some (a :: as, s)

variable {C : PrefixCode α β} {mark : β}

/-- **A quoted text** is read back, whatever is behind it. -/
theorem decodeUntil_encode (hmark : ∀ a, (C.enc a).head? ≠ some mark) (xs : List α) (s : List β)
    {fuel : Nat} (hfuel : xs.length < fuel) :
    C.decodeUntil mark fuel (C.encode xs ++ mark :: s) = some (xs, s) := by
  induction xs generalizing fuel with
  | nil =>
    cases fuel with
    | zero => cases hfuel
    | succ fuel => simp [decodeUntil]
  | cons a xs ih =>
    cases fuel with
    | zero => cases hfuel
    | succ fuel =>
      have hrest : C.decodeUntil mark fuel (C.encode xs ++ mark :: s) = some (xs, s) :=
        ih (by simpa using hfuel)
      have hhead : (C.enc a ++ (C.encode xs ++ mark :: s)).head? ≠ some mark := by
        rw [List.head?_append_of_ne_nil _ (C.enc_ne_nil a)]
        exact hmark a
      rw [encode_cons, List.append_assoc, decodeUntil, if_neg hhead, C.dec_enc]
      simp [hrest]

end PrefixCode

/-! ### Numbers -/

/-- **A number** is read as itself. -/
theorem digitsValue_decimal (n : Nat) : digitsValue 10 (decimal n) = n := by
  have hdigit : ∀ d < 10, digitValue (Nat.digitChar d).toUInt8 = (Nat.digitChar d).toNat - 48 := by
    decide
  rw [digitsValue, decimal, digits, List.foldl_map]
  calc (Nat.toDigits 10 n).foldl (fun v c => 10 * v + digitValue c.toUInt8) 0
      = (Nat.toDigits 10 n).foldl (fun v c => 10 * v + (c.toNat - '0'.toNat)) 0 := by
        apply List.foldl_ext
        intro v c hc
        obtain ⟨d, hd, rfl⟩ := mem_toDigits (by decide) hc
        rw [hdigit d hd]
        rfl
    _ = n := by rw [← Nat.ofDigitChars_eq_foldl, Nat.ofDigitChars_ten_toDigits]

end CModel
