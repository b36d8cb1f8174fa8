import Sancus.Fd.Writev
import Sancus.CModel.CString

namespace Sancus.Fd

open CModel

/-!
# File descriptors — closing one

`sancus_close` calls `close(2)` again as long as it is interrupted.  A call that is interrupted
is taken to leave the descriptor open, as the function takes it; every other answer leaves it
closed, an error included.

* `Call`, `Trace` — the system calls made, with what each answered;
* `CloseAnswers` — what `close(2)` answers, up to the first answer that is no interruption;
* `CloseAnswers.answer` — that answer;
* `sancusClose` — the function;
* `closeRound` / `sancusClose_returns` — its loop on any kernel, which returns exactly if there is
  such an answer, and what it returns then.
-/

/-! ### System calls -/

/-- What a system call answers: a value that is not negative, or the `errno` it failed with. -/
inductive Answer where
  | ok (n : Nat)
  | failed (errno : Nat)
  deriving DecidableEq

/-- A system call, with what it is given. -/
inductive Call where
  | socket (family : Int) (type_ : UInt32) (protocol : Int)
  | openat (dirfd : Int) (pathname : CString) (flags mode : UInt32)
  | getfl (fd : Nat)
  | setfl (fd : Nat) (flags : UInt32)
  | close (fd : Nat)

/-- The calls made so far and their answers. -/
abbrev Trace : Type := List (Call × Answer)

/-! ### The loop -/

/-- What `close(2)` answers when it is called on a descriptor, until it is not interrupted. -/
inductive CloseAnswers where
  | closed
  | failed (errno : Nat) (h : errno ≠ EINTR)
  | interrupted (rest : CloseAnswers)

/-- The answer that is no interruption. -/
def CloseAnswers.answer : CloseAnswers → Answer
  | .closed           => .ok 0
  | .failed errno _   => .failed errno
  | .interrupted rest => rest.answer

theorem CloseAnswers.answer_ne (answers : CloseAnswers) : answers.answer ≠ .failed EINTR := by
  induction answers with
  | closed => nofun
  | failed errno hne => simpa [answer] using hne
  | interrupted rest ih => exact ih

/-- `sancus_close`: what it returns, and its calls. -/
def sancusClose (fd : Nat) : CloseAnswers → Int × Trace
  | .closed           => (0, [(.close fd, .ok 0)])
  | .failed errno _   => (-errno, [(.close fd, .failed errno)])
  | .interrupted rest =>
    let (ret, t) := sancusClose fd rest
    (ret, (.close fd, .failed EINTR) :: t)

/-- One round of `while (1)`, when `close(2)` gives `kernel i` to the `i`th call. -/
def closeRound (kernel : Nat → Answer) (fd : Nat) (t : Trace) : Round Trace (Int × Trace) :=
  match kernel t.length with
  | .ok n         => .leave (0, t ++ [(.close fd, .ok n)])
  | .failed errno =>
    if errno ≠ EINTR then .leave (-errno, t ++ [(.close fd, .failed errno)])
    else .again (t ++ [(.close fd, .failed errno)])

/-- The kernel gives these answers from call `i` on. -/
def CloseAnswers.AreOf (kernel : Nat → Answer) : Nat → CloseAnswers → Prop
  | i, .closed           => kernel i = .ok 0
  | i, .failed errno _   => kernel i = .failed errno
  | i, .interrupted rest => kernel i = .failed EINTR ∧ rest.AreOf kernel (i + 1)

variable {kernel : Nat → Answer} {fd : Nat} {t : Trace} {answers : CloseAnswers}

/-- **The loop asks until it is answered.**  It returns what those answers give. -/
theorem returns_of_areOf (h : answers.AreOf kernel t.length) :
    Loop.Returns (closeRound kernel fd) t
      ((sancusClose fd answers).1, t ++ (sancusClose fd answers).2) := by
  -- Induction on the answers; the calls made so far tell which of them is next.
  induction answers generalizing t with
  | closed => exact .leave (by rw [closeRound, show kernel t.length = .ok 0 from h]; rfl)
  | failed errno hne =>
    apply Loop.Returns.leave
    rw [closeRound, show kernel t.length = .failed errno from h]
    exact if_pos hne
  | interrupted rest ih =>
    obtain ⟨hintr, hrest⟩ := h
    have hround : closeRound kernel fd t = .again (t ++ [(.close fd, .failed EINTR)]) := by
      rw [closeRound, hintr]
      exact if_neg (not_not_intro rfl)
    have hlen : t.length + 1 = (t ++ [(Call.close fd, Answer.failed EINTR)]).length := by simp
    rw [hlen] at hrest
    have hreturns := ih hrest
    rw [List.append_assoc] at hreturns
    exact .again hround hreturns

/-- A call that is not interrupted is the last one. -/
theorem exists_areOf_last (hok : ∀ i n, kernel i = .ok n → n = 0) {i : Nat}
    (h : kernel i ≠ .failed EINTR) : ∃ answers : CloseAnswers, answers.AreOf kernel i := by
  cases hanswer : kernel i with
  | ok n =>
    obtain rfl := hok i n hanswer
    exact ⟨.closed, hanswer⟩
  | failed errno =>
    have hne : errno ≠ EINTR := by
      rintro rfl
      exact h hanswer
    exact ⟨.failed errno hne, hanswer⟩

/-- Where some call is not interrupted there are answers up to one. -/
theorem exists_areOf (hok : ∀ i n, kernel i = .ok n → n = 0) {i k : Nat}
    (h : kernel (i + k) ≠ .failed EINTR) : ∃ answers : CloseAnswers, answers.AreOf kernel i := by
  induction k generalizing i with
  | zero => exact exists_areOf_last hok h
  | succ k ih =>
    by_cases hintr : kernel i = .failed EINTR
    · rw [← Nat.add_assoc, Nat.add_right_comm] at h
      obtain ⟨rest, hrest⟩ := ih h
      exact ⟨.interrupted rest, hintr, hrest⟩
    · exact exists_areOf_last hok hintr

/-- **When `sancus_close` returns.**  On a kernel that answers 0 or an `errno`, the loop leaves
    exactly if some call is not interrupted, and with what `sancusClose` gives for the answers
    up to that call. -/
theorem sancusClose_returns (kernel : Nat → Answer) (hok : ∀ i n, kernel i = .ok n → n = 0)
    (fd : Nat) :
    ((∃ r, Loop.Returns (closeRound kernel fd) [] r) ↔ ∃ i, kernel i ≠ .failed EINTR) ∧
      ∀ r, Loop.Returns (closeRound kernel fd) [] r →
        ∃ answers : CloseAnswers, answers.AreOf kernel 0 ∧ r = sancusClose fd answers := by
  have hanswers : (∃ i, kernel i ≠ .failed EINTR) →
      ∃ answers : CloseAnswers, answers.AreOf kernel 0 := by
    rintro ⟨i, hi⟩
    exact exists_areOf hok (i := 0) (k := i) (by rwa [Nat.zero_add])
  have hleaves : ∀ {r}, Loop.Returns (closeRound kernel fd) [] r →
      ∃ i, kernel i ≠ .failed EINTR := by
    intro r hr
    by_contra hno
    push Not at hno
    -- interrupted for ever, the loop goes round for ever
    have hround : ∀ t, closeRound kernel fd t = .again (t ++ [(.close fd, .failed EINTR)]) := by
      intro t
      rw [closeRound, hno]
      exact if_neg (not_not_intro rfl)
    exact Loop.not_returns_of_invariant (I := fun _ => True)
      (fun t _ => ⟨_, hround t, trivial⟩) trivial r hr
  constructor
  · constructor
    · rintro ⟨r, hr⟩
      exact hleaves hr
    · intro hi
      obtain ⟨answers, h⟩ := hanswers hi
      exact ⟨_, returns_of_areOf (t := []) h⟩
  · intro r hr
    obtain ⟨answers, h⟩ := hanswers (hleaves hr)
    exact ⟨answers, h, hr.unique (returns_of_areOf (t := []) h)⟩

end Sancus.Fd
