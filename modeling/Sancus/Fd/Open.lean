import Sancus.Fd.Close

namespace Sancus.Fd

open CModel

/-!
# File descriptors — obtaining one

`sancus_socket` and `sancus_openat` obtain a descriptor and set flags on it.  A step that
fails closes the descriptor again; so does `sancus_socket` when there are no flags to set,
where the label of the failed steps is the next statement.

* `Outcomes` — what the system calls answer;
* `sancusSocket`, `sancusOpenat`, `sancusOpen` — the code;
* `Sound` — a descriptor is returned open when no step failed, and is closed once otherwise;
* `obtain_sound_iff` — when they are.
-/

/-! ### System calls -/

/-- What the calls answer, the first one first, and what `close(2)` does. -/
structure Outcomes where
  answer : Nat → Answer
  close : CloseAnswers
  errno_pos : ∀ {i e}, answer i = .failed e → 0 < e

/-- Make a call. -/
def Outcomes.call (out : Outcomes) (call : Call) (t : Trace) : Answer × Trace :=
  (out.answer t.length, t ++ [(call, out.answer t.length)])

/-- `sancus_close`, after the calls `t`. -/
def Outcomes.closing (out : Outcomes) (fd : Nat) (t : Trace) : Trace :=
  t ++ (sancusClose fd out.close).2

def FD_CLOEXEC : UInt32 := 1
def O_NONBLOCK : UInt32 := 0o4000
def O_CLOEXEC : UInt32 := 0o2000000
def SOCK_NONBLOCK : UInt32 := O_NONBLOCK
def SOCK_CLOEXEC : UInt32 := O_CLOEXEC
def AT_FDCWD : Int := -100

/-! ### The code -/

/-- The end of `sancus_socket` from `socket_failed` on.  This is `close(2)` itself, which is called
    once and is taken not to be interrupted. -/
def socketFailed (out : Outcomes) (fd : Nat) (t : Trace) : Int × Trace :=
  (-1, t ++ [(.close fd, out.close.answer)])

/-- `sancus_socket` after the socket has been obtained. -/
def socketFlags (out : Outcomes) (cloexec nonblock : Int) (fd : Nat) (t : Trace) : Int × Trace :=
  if cloexec ≠ 0 ∨ nonblock ≠ 0 then
    match out.call (.getfl fd) t with
    | (.failed _, t) => socketFailed out fd t
    | (.ok fl, t)    =>
      let fl := UInt32.ofNat fl
      let fl2 := fl
      let fl2 := if cloexec ≠ 0 then fl2 ||| FD_CLOEXEC else fl2
      let fl2 := if nonblock ≠ 0 then fl2 ||| O_NONBLOCK else fl2
      if fl ≠ fl2 then
        match out.call (.setfl fd fl2) t with
        | (.failed _, t) => socketFailed out fd t
        | (.ok _, t)     => (fd, t)
      else (fd, t)
  -- Without flags to set there is no `goto` over the label.
  else socketFailed out fd t

/-- `sancus_socket`. -/
def sancusSocket (out : Outcomes) (family : Int) (type_ : UInt32)
    (protocol cloexec nonblock : Int) : Int × Trace :=
  let type_ := if cloexec ≠ 0 then type_ ||| SOCK_CLOEXEC else type_ &&& ~~~SOCK_CLOEXEC
  let type_ := if nonblock ≠ 0 then type_ ||| SOCK_NONBLOCK else type_ &&& ~~~SOCK_NONBLOCK
  match out.call (.socket family type_ protocol) [] with
  | (.failed _, t) => (-1, t)
  | (.ok fd, t)    => socketFlags out cloexec nonblock fd t

/-- One round of `open_retry`. -/
def openRound (out : Outcomes) (call : Call) (t : Trace) : Round Trace (Answer × Trace) :=
  match out.call call t with
  | (.failed e, t) => if e = EINTR then .again t else .leave (.failed e, t)
  | (.ok fd, t)    => .leave (.ok fd, t)

/-- The end of `sancus__openat` from `open_failed` on, with the `errno` of the step. -/
def openFailed (out : Outcomes) (fd errno : Nat) (t : Trace) : Int × Trace :=
  (-errno, out.closing fd t)

/-- `sancus__openat` after `openat` has been left. -/
def openFlags (out : Outcomes) (cloexec : Int) : Answer × Trace → Int × Trace
  | (.failed _, t) => (-1, t)
  | (.ok fd, t)    =>
    if cloexec ≠ 0 then
      match out.call (.getfl fd) t with
      | (.failed e, t) => openFailed out fd e t
      | (.ok fl, t)    =>
        let fl := UInt32.ofNat fl
        if fl &&& FD_CLOEXEC = 0 then
          match out.call (.setfl fd (fl ||| FD_CLOEXEC)) t with
          | (.failed e, t) => openFailed out fd e t
          | (.ok _, t)     => (fd, t)
        else (fd, t)
    else (fd, t)

/-- `sancus__openat`, with a bound on the calls of `openat`. -/
def sancusOpenatRetry (fuel : Nat) (out : Outcomes) (dirfd : Int) (pathname : CString)
    (flags : UInt32) (cloexec : Int) (mode : UInt32) : Option (Int × Trace) :=
  let flags := if cloexec ≠ 0 then flags ||| O_CLOEXEC else flags &&& ~~~O_CLOEXEC
  (Loop.run (openRound out (.openat dirfd pathname flags mode)) fuel []).map (openFlags out cloexec)

/-- `sancus_openat`. -/
def sancusOpenat (fuel : Nat) (out : Outcomes) (dirfd : Int) (pathname : CString) (flags : UInt32)
    (cloexec : Int) (mode : UInt32) : Option (Int × Trace) :=
  sancusOpenatRetry fuel out dirfd pathname flags cloexec mode

/-- `sancus_open`. -/
def sancusOpen (fuel : Nat) (out : Outcomes) (pathname : CString) (flags : UInt32) (cloexec : Int)
    (mode : UInt32) : Option (Int × Trace) :=
  sancusOpenatRetry fuel out AT_FDCWD pathname flags cloexec mode

/-! ### What a trace has done -/

/-- The call obtains a descriptor when it succeeds. -/
def Call.obtains : Call → Bool
  | socket .. => true
  | openat .. => true
  | _         => false

def Call.isFcntl : Call → Bool
  | getfl ..  => true
  | setfl ..  => true
  | _         => false

/-- The descriptor a call obtained. -/
def obtainedBy : Call × Answer → Option Nat
  | (call, .ok fd) => if call.obtains then some fd else none
  | _              => none

/-- The descriptor a call closed; a call that was interrupted has not. -/
def closedBy : Call × Answer → Option Nat
  | (.close fd, answer) => if answer = .failed EINTR then none else some fd
  | _                   => none

def obtained (t : Trace) : List Nat := t.filterMap obtainedBy

def closed (t : Trace) : List Nat := t.filterMap closedBy

/-- The last call that was to obtain a descriptor succeeded, and so did every `fcntl`. -/
def Succeeded (t : Trace) : Prop :=
  (∃ call fd, (t.filter fun e => e.1.obtains).getLast? = some (call, .ok fd)) ∧
    ∀ e ∈ t, e.1.isFcntl → ∃ n, e.2 = .ok n

/-- The value returned is a descriptor that is still open exactly if all went well, and is
    negative otherwise, where every descriptor obtained has been closed exactly once. -/
structure Sound (r : Int × Trace) : Prop where
  open_iff : (∃ fd : Nat, r.1 = fd ∧ fd ∈ obtained r.2 ∧ fd ∉ closed r.2) ↔ Succeeded r.2
  closed_once : ¬ Succeeded r.2 → r.1 < 0 ∧ ∀ fd ∈ obtained r.2, (closed r.2).count fd = 1

variable {out : Outcomes} {call : Call} {answer : Answer} {cloexec nonblock ret : Int}
  {fd errno n : Nat} {t closes : Trace}

/-! ### One call more -/

@[simp] theorem obtained_snoc (t : Trace) (e : Call × Answer) :
    obtained (t ++ [e]) = obtained t ++ (obtainedBy e).toList := by
  cases h : obtainedBy e <;> simp [obtained, List.filterMap_append, h]

@[simp] theorem closed_snoc (t : Trace) (e : Call × Answer) :
    closed (t ++ [e]) = closed t ++ (closedBy e).toList := by
  cases h : closedBy e <;> simp [closed, List.filterMap_append, h]

/-- A call for the flags has to succeed. -/
theorem succeeded_fcntl (hcall : call.isFcntl) :
    Succeeded (t ++ [(call, answer)]) ↔ Succeeded t ∧ ∃ n, answer = .ok n := by
  have hobtains : call.obtains = false := by
    cases call <;> first | rfl | cases hcall
  simp [Succeeded, List.filter_append, hobtains, or_imp, forall_and, hcall, and_assoc]

/-- Calls of `close` on the descriptor, one of which closes it. -/
structure Closes (fd : Nat) (closes : Trace) : Prop where
  calls : ∀ e ∈ closes, ∃ answer, e = (.close fd, answer)
  closed : closed closes = [fd]

/-- One `close` does it, unless it is interrupted. -/
theorem Closes.one (hanswer : answer ≠ .failed EINTR) : Closes fd [(.close fd, answer)] where
  calls := List.forall_mem_singleton.mpr ⟨answer, rfl⟩
  closed := by simp [Fd.closed, closedBy, hanswer]

/-- And so does `sancus_close`. -/
theorem closes_sancusClose (fd : Nat) (answers : CloseAnswers) :
    Closes fd (sancusClose fd answers).2 := by
  induction answers with
  | closed => exact .one (by simp)
  | failed errno hne => exact .one (by simpa using hne)
  | interrupted rest ih =>
    refine ⟨List.forall_mem_cons.mpr ⟨⟨_, rfl⟩, ih.calls⟩, ?_⟩
    -- the interrupted call closes nothing
    rw [← ih.closed]
    rfl

/-- Closing obtains nothing, and does not count as a failure. -/
theorem Closes.succeeded_iff (h : Closes fd closes) : Succeeded (t ++ closes) ↔ Succeeded t := by
  have hobtains : closes.filter (fun e => e.1.obtains) = [] := by
    rw [List.filter_eq_nil_iff]
    intro e he
    obtain ⟨answer, rfl⟩ := h.calls e he
    exact Bool.false_ne_true
  have hfcntl : ∀ e ∈ closes, e.1.isFcntl → ∃ n, e.2 = .ok n := by
    intro e he
    obtain ⟨answer, rfl⟩ := h.calls e he
    nofun
  unfold Succeeded
  rw [List.filter_append, hobtains, List.append_nil, List.forall_mem_append]
  exact and_congr_right fun _ => and_iff_left hfcntl

/-! ### Obtaining and holding a descriptor -/

/-- Only calls that were to obtain a descriptor, all of which failed. -/
def Refused (t : Trace) : Prop := ∀ e ∈ t, e.1.obtains ∧ ∃ errno, e.2 = .failed errno

/-- A descriptor has been obtained, and not been closed. -/
structure Held (fd : Nat) (t : Trace) : Prop where
  obtained : obtained t = [fd]
  closed : closed t = []

theorem Refused.nil : Refused [] := by simp [Refused]

theorem Refused.snoc (h : Refused t) (hcall : call.obtains) :
    Refused (t ++ [(call, .failed errno)]) := by
  intro e he
  rcases List.mem_append.mp he with he | he
  · exact h e he
  · obtain rfl := List.mem_singleton.mp he
    exact ⟨hcall, errno, rfl⟩

theorem closedBy_of_obtains (hcall : call.obtains) : closedBy (call, answer) = none := by
  cases call with
  | close fd => cases hcall
  | _ => rfl

/-- Nothing has been obtained or closed. -/
theorem Refused.unchanged (h : Refused t) : obtained t = [] ∧ closed t = [] := by
  simp only [obtained, closed, List.filterMap_eq_nil_iff]
  refine ⟨?_, ?_⟩
  · rintro ⟨call, answer⟩ he
    obtain ⟨_, errno, rfl⟩ := h _ he
    rfl
  · intro e he
    exact closedBy_of_obtains (h e he).1

theorem Refused.not_succeeded (h : Refused t) : ¬ Succeeded t := by
  rintro ⟨⟨call, fd, hlast⟩, _⟩
  have hmem := List.mem_of_mem_filter (List.mem_of_getLast? hlast)
  obtain ⟨_, errno, he⟩ := h _ hmem
  cases he

/-- Nothing is held then, and a negative value says so. -/
theorem Refused.sound (h : Refused t) (hret : ret < 0) : Sound (ret, t) := by
  obtain ⟨hobtained, _⟩ := h.unchanged
  refine ⟨?_, ?_⟩
  · simp [hobtained, h.not_succeeded]
  · intro _
    simp [hret, hobtained]

/-- The call after those. -/
theorem Refused.held (h : Refused t) (hcall : call.obtains) (fd : Nat) :
    Held fd (t ++ [(call, .ok fd)]) ∧ Succeeded (t ++ [(call, .ok fd)]) := by
  obtain ⟨hobtained, hclosed⟩ := h.unchanged
  have hopen : obtainedBy (call, .ok fd) = some fd := if_pos hcall
  refine ⟨⟨?_, ?_⟩, ⟨call, fd, ?_⟩, ?_⟩
  · simp [hobtained, hopen]
  · simp [hclosed, closedBy_of_obtains hcall]
  · simp [List.filter_append, hcall]
  · rintro ⟨c, answer⟩ he hfcntl
    have hobtains : c.obtains := by
      rcases List.mem_append.mp he with he | he
      · exact (h _ he).1
      · rw [(Prod.mk.inj (List.mem_singleton.mp he)).1]
        exact hcall
    cases c with
    | getfl fd => cases hobtains
    | setfl fd flags => cases hobtains
    | _ => cases hfcntl

/-- A call for the flags of a descriptor does not change that it is held. -/
theorem Held.fcntl (h : Held fd t) (hcall : call.isFcntl) : Held fd (t ++ [(call, answer)]) := by
  have hopen : obtainedBy (call, answer) = none := by
    cases call <;> cases answer <;> first | rfl | cases hcall
  have hclose : closedBy (call, answer) = none := by
    cases call <;> first | rfl | cases hcall
  refine ⟨?_, ?_⟩
  · simp [h.obtained, hopen]
  · simp [h.closed, hclose]

/-- A descriptor that is returned as it is held has to be that of a success. -/
theorem Held.sound_iff (h : Held fd t) : Sound (fd, t) ↔ Succeeded t := by
  constructor
  · intro hsound
    apply hsound.open_iff.mp
    simp [h.obtained, h.closed]
  · intro hsucceeded
    refine ⟨?_, fun hnot => absurd hsucceeded hnot⟩
    simp [h.obtained, h.closed, hsucceeded]

/-- And one that is closed that of a failure. -/
theorem Held.sound_close_iff (h : Held fd t) (hcloses : Closes fd closes) (hret : ret < 0) :
    Sound (ret, t ++ closes) ↔ ¬ Succeeded t := by
  have hneg : ∀ n : Nat, ret ≠ n := fun n => by omega
  have hobtained : Fd.obtained (t ++ closes) = [fd] := by
    have hnone : closes.filterMap obtainedBy = [] := by
      rw [List.filterMap_eq_nil_iff]
      intro e he
      obtain ⟨answer, rfl⟩ := hcloses.calls e he
      cases answer <;> rfl
    rw [Fd.obtained, List.filterMap_append, hnone, List.append_nil]
    exact h.obtained
  have hclosed : Fd.closed (t ++ closes) = [fd] := by
    rw [Fd.closed, List.filterMap_append]
    show Fd.closed t ++ Fd.closed closes = [fd]
    rw [h.closed, hcloses.closed, List.nil_append]
  constructor
  · intro hsound hsucceeded
    obtain ⟨n, hn, _⟩ := hsound.open_iff.mpr (hcloses.succeeded_iff.mpr hsucceeded)
    exact hneg n hn
  · intro hfailed
    refine ⟨?_, ?_⟩
    · simp [hneg, hcloses.succeeded_iff, hfailed]
    · intro _
      simp [hret, hobtained, hclosed]

/-- A descriptor is closed again when a call for its flags fails. -/
theorem Held.sound_failed (h : Held fd t) (hcall : call.isFcntl) (hcloses : Closes fd closes)
    (hret : ret < 0) : Sound (ret, t ++ [(call, .failed errno)] ++ closes) := by
  rw [(h.fcntl hcall).sound_close_iff hcloses hret, succeeded_fcntl hcall]
  simp

/-! ### The functions -/

theorem Outcomes.call_eq (h : out.answer t.length = answer) :
    out.call call t = (answer, t ++ [(call, answer)]) := by
  rw [Outcomes.call, h]

/-- Setting the flags of a descriptor, where they are not set yet. -/
theorem Held.sound_setfl (h : Held fd t) (hsucceeded : Succeeded t) {p : Prop} [Decidable p]
    {flags : UInt32} {onFailed : Nat → Trace → Int × Trace}
    (hfailed : ∀ errno, out.answer t.length = .failed errno →
      Sound (onFailed errno (t ++ [(.setfl fd flags, .failed errno)]))) :
    Sound (if p then
      match out.call (.setfl fd flags) t with
      | (.failed e, t) => onFailed e t
      | (.ok _, t)     => (fd, t)
    else (fd, t)) := by
  split
  · cases hset : out.answer t.length with
    | failed errno =>
      rw [out.call_eq hset]
      exact hfailed errno hset
    | ok n =>
      rw [out.call_eq hset]
      exact (h.fcntl rfl).sound_iff.mpr ((succeeded_fcntl rfl).mpr ⟨hsucceeded, n, rfl⟩)
  · exact h.sound_iff.mpr hsucceeded

/-- The flags of a socket: the descriptor is closed without a cause when there are none. -/
theorem socketFlags_sound_iff (h : Held fd t) (hsucceeded : Succeeded t) :
    Sound (socketFlags out cloexec nonblock fd t) ↔ cloexec ≠ 0 ∨ nonblock ≠ 0 := by
  have hcloses : Closes fd [(.close fd, out.close.answer)] := .one out.close.answer_ne
  unfold socketFlags
  by_cases hflags : cloexec ≠ 0 ∨ nonblock ≠ 0
  · rw [if_pos hflags]
    apply iff_of_true ?_ hflags
    cases hget : out.answer t.length with
    | failed errno =>
      rw [out.call_eq hget]
      exact h.sound_failed rfl hcloses (by decide)
    | ok fl =>
      rw [out.call_eq hget]
      have hheld : Held fd (t ++ [(.getfl fd, .ok fl)]) := h.fcntl rfl
      apply hheld.sound_setfl ((succeeded_fcntl rfl).mpr ⟨hsucceeded, fl, rfl⟩)
      intro errno _
      exact hheld.sound_failed rfl hcloses (by decide)
  · rw [if_neg hflags]
    apply iff_of_false ?_ hflags
    rw [socketFailed, h.sound_close_iff hcloses (by decide)]
    exact fun hnot => hnot hsucceeded

theorem Outcomes.ret_neg {i : Nat} (hfailed : out.answer i = .failed errno) :
    (-errno : Int) < 0 := by
  have hpos := out.errno_pos hfailed
  omega

/-- The flags of a file: every step that fails is told by its `errno`. -/
theorem openFlags_sound (h : Held fd t) (hsucceeded : Succeeded t) :
    Sound (openFlags out cloexec (.ok fd, t)) := by
  have hcloses := closes_sancusClose fd out.close
  unfold openFlags
  dsimp only
  split
  · cases hget : out.answer t.length with
    | failed errno =>
      rw [out.call_eq hget]
      exact h.sound_failed rfl hcloses (out.ret_neg hget)
    | ok fl =>
      rw [out.call_eq hget]
      have hheld : Held fd (t ++ [(.getfl fd, .ok fl)]) := h.fcntl rfl
      apply hheld.sound_setfl ((succeeded_fcntl rfl).mpr ⟨hsucceeded, fl, rfl⟩)
      intro errno hset
      exact hheld.sound_failed rfl hcloses (out.ret_neg hset)
  · exact h.sound_iff.mpr hsucceeded

/-- `sancus_socket` is sound when it has flags to set, or no socket. -/
theorem sancusSocket_sound_iff (family : Int) (type_ : UInt32) (protocol : Int) :
    Sound (sancusSocket out family type_ protocol cloexec nonblock) ↔
      cloexec ≠ 0 ∨ nonblock ≠ 0 ∨ ∃ errno, out.answer 0 = .failed errno := by
  unfold sancusSocket
  dsimp only
  generalize (if nonblock ≠ 0 then _ else _) = type_'
  have hanswer : ∀ {answer}, out.answer 0 = answer →
      out.call (.socket family type_' protocol) [] =
        (answer, [(.socket family type_' protocol, answer)]) := fun h => out.call_eq h
  cases hsocket : out.answer 0 with
  | failed errno =>
    rw [hanswer hsocket]
    apply iff_of_true ?_ (.inr (.inr ⟨errno, rfl⟩))
    exact (Refused.nil.snoc rfl).sound (by decide)
  | ok fd =>
    have hobtains : (Call.socket family type_' protocol).obtains := rfl
    obtain ⟨hheld, hsucceeded⟩ := Refused.nil.held hobtains fd
    rw [hanswer hsocket]
    simpa using socketFlags_sound_iff hheld hsucceeded

/-- The rounds of `open_retry`: only refused calls lead to a further one. -/
theorem openRound_again (hcall : call.obtains) {t' : Trace} (h : Refused t)
    (hround : openRound out call t = .again t') :
    Refused t' ∧ t'.length = t.length + 1 ∧ out.answer t.length = .failed EINTR := by
  unfold openRound at hround
  cases hanswer : out.answer t.length with
  | failed errno =>
    rw [out.call_eq hanswer] at hround
    dsimp only at hround
    split at hround
    · next hintr =>
      obtain rfl := Round.again.inj hround
      exact ⟨h.snoc hcall, by simp, by rw [hintr]⟩
    · cases hround
  | ok fd =>
    rw [out.call_eq hanswer] at hround
    cases hround

/-- What the last one leaves is sound. -/
theorem openRound_leave (hcall : call.obtains) {r : Answer × Trace} (h : Refused t)
    (hround : openRound out call t = .leave r) : Sound (openFlags out cloexec r) := by
  unfold openRound at hround
  cases hanswer : out.answer t.length with
  | failed errno =>
    rw [out.call_eq hanswer] at hround
    dsimp only at hround
    split at hround
    · cases hround
    · obtain rfl := Round.leave.inj hround
      exact (h.snoc hcall).sound (by decide)
  | ok fd =>
    rw [out.call_eq hanswer] at hround
    obtain rfl := Round.leave.inj hround
    obtain ⟨hheld, hsucceeded⟩ := h.held hcall fd
    exact openFlags_sound hheld hsucceeded

/-- `sancus__openat` is sound whenever it returns, and returns once `openat` is not interrupted. -/
theorem sancusOpenatRetry_sound (out : Outcomes) (dirfd : Int) (pathname : CString)
    (flags : UInt32) (cloexec : Int) (mode : UInt32) :
    (∀ fuel r, sancusOpenatRetry fuel out dirfd pathname flags cloexec mode = some r → Sound r) ∧
      ((∃ i, out.answer i ≠ .failed EINTR) →
        ∃ fuel r, sancusOpenatRetry fuel out dirfd pathname flags cloexec mode = some r) := by
  unfold sancusOpenatRetry
  dsimp only
  generalize (if cloexec ≠ 0 then _ else _) = flags'
  have hcall : (Call.openat dirfd pathname flags' mode).obtains := rfl
  refine ⟨?_, ?_⟩
  · intro fuel r hr
    obtain ⟨left, hleft, rfl⟩ := Option.map_eq_some_iff.mp hr
    exact (Loop.returns_of_run hleft).post (I := Refused)
      (Q := fun left => Sound (openFlags out cloexec left))
      (fun _ _ h hround => (openRound_again hcall h hround).1)
      (fun _ _ h hround => openRound_leave hcall h hround) Refused.nil
  · rintro ⟨i, hi⟩
    -- the interrupted calls are those before the `i`th
    have hreturns : ∃ left, Loop.Returns
        (openRound out (.openat dirfd pathname flags' mode)) [] left := by
      apply Loop.returns_of_measure (I := fun t => Refused t ∧ t.length ≤ i)
        (fun t => i - t.length) ?_ ⟨Refused.nil, Nat.zero_le i⟩
      rintro t t' ⟨h, hle⟩ hround
      obtain ⟨h', hlength, hintr⟩ := openRound_again hcall h hround
      have hne : t.length ≠ i := by
        rintro rfl
        exact hi hintr
      exact ⟨⟨h', by omega⟩, by omega⟩
    obtain ⟨left, hleft⟩ := hreturns
    obtain ⟨fuel, hfuel⟩ := hleft.exists_run
    exact ⟨fuel, openFlags out cloexec left, by rw [hfuel]; rfl⟩

/-- **When a descriptor is obtained soundly.**  Whatever the calls answer and whatever the flags:
    `sancus_socket` returns an open descriptor exactly if no call failed, and has closed it once
    otherwise, if and only if there are flags to set or there is no socket; `sancus_openat` and
    `sancus_open` always do, once `openat` is not interrupted. -/
theorem obtain_sound_iff (out : Outcomes) (family : Int) (type_ : UInt32)
    (protocol cloexec nonblock dirfd : Int) (pathname : CString) (flags mode : UInt32) :
    (Sound (sancusSocket out family type_ protocol cloexec nonblock) ↔
      cloexec ≠ 0 ∨ nonblock ≠ 0 ∨ ∃ errno, out.answer 0 = .failed errno) ∧
    (∀ fuel r, sancusOpenat fuel out dirfd pathname flags cloexec mode = some r → Sound r) ∧
    (∀ fuel r, sancusOpen fuel out pathname flags cloexec mode = some r → Sound r) ∧
    ((∃ i, out.answer i ≠ .failed EINTR) →
      (∃ fuel r, sancusOpenat fuel out dirfd pathname flags cloexec mode = some r) ∧
        ∃ fuel r, sancusOpen fuel out pathname flags cloexec mode = some r) := by
  obtain ⟨hsound, hreturns⟩ := sancusOpenatRetry_sound out dirfd pathname flags cloexec mode
  obtain ⟨hsound', hreturns'⟩ := sancusOpenatRetry_sound out AT_FDCWD pathname flags cloexec mode
  exact ⟨sancusSocket_sound_iff family type_ protocol, hsound, hsound',
    fun hintr => ⟨hreturns hintr, hreturns' hintr⟩⟩

/-- The outcomes of a list, and success after it. -/
def outcomesOf (answers : List Nat) : Outcomes where
  answer i := if answers.getD i 0 = 0 then .ok 3 else .failed (answers.getD i 0)
  close := .closed
  errno_pos {i e} h := by
    split at h
    · cases h
    · next hne =>
      obtain rfl := Answer.failed.inj h
      exact Nat.pos_of_ne_zero hne

/-- The rule where `openat` is interrupted once, and its flags cannot be read. -/
theorem obtain_sound_iff_interrupted :
    (Sound (sancusSocket (outcomesOf [EINTR, 0, 9]) 2 1 0 1 0) ↔
      (1 : Int) ≠ 0 ∨ (0 : Int) ≠ 0 ∨
        ∃ errno, (outcomesOf [EINTR, 0, 9]).answer 0 = .failed errno) ∧
    Sound (-9, [(.openat 4 (.ofBytes []) O_CLOEXEC 0, .failed EINTR),
      (.openat 4 (.ofBytes []) O_CLOEXEC 0, .ok 3), (.getfl 3, .failed 9), (.close 3, .ok 0)]) ∧
    (∃ fuel r, sancusOpenat fuel (outcomesOf [EINTR, 0, 9]) 4 (.ofBytes []) 0 1 0 = some r) := by
  have hrule := obtain_sound_iff (outcomesOf [EINTR, 0, 9]) 2 1 0 1 0 4 (.ofBytes []) 0 0
  exact ⟨hrule.1, hrule.2.1 2 _ rfl, (hrule.2.2.2 ⟨1, by decide⟩).1⟩

/-- **A socket without flags.**  The socket was obtained, and nothing else was to be done; it is
    closed, and -1 is returned. -/
theorem socket_without_flags :
    sancusSocket (outcomesOf []) 2 1 0 0 0 =
        (-1, [(.socket 2 1 0, .ok 3), (.close 3, .ok 0)]) ∧
      ¬ Sound (sancusSocket (outcomesOf []) 2 1 0 0 0) := by
  refine ⟨rfl, ?_⟩
  rw [sancusSocket_sound_iff]
  simp [outcomesOf]

end Sancus.Fd
