import Sancus.CModel.Pool
import Sancus.Fd.Open

namespace Sancus.Fd

open CModel

/-!
# File descriptors — as resources

A descriptor is a resource of the kernel: a call obtains it, and `close` gives it back.  A watcher
holds one in its `fd` field, which is -1 afterwards.

* `holding` — what a field holds;
* `Closing` — what can become of a field: nothing, or one `sancus_close2`;
* `Closing.disciplined` — that this is disciplined;
* `Accounted` — a component that notes what it closes;
* `usesOf` — what a trace of system calls does to descriptors;
* `closeUses` — what a `sancus_close` does, whatever `close(2)` answers;
* `obtains_sancusSocket` — that `sancus_socket` leaves the descriptor it returns, or none;
* `disciplined_sancusOpen` — that `sancus_open` does.
-/

/-- What a descriptor field holds. -/
def holding (fd : Int) : Multiset Nat := if 0 ≤ fd then {fd.toNat} else 0

/-- `sancus_close`, for a list of fields; one that is negative is no descriptor. -/
def releases (closed : List Int) : List (Use Nat) :=
  (closed.filter fun fd => 0 ≤ fd).map fun fd => .release fd.toNat

/-- What becomes of a descriptor field, and the descriptors that are closed on the way: it is left
    alone, or what it holds is closed and it is set to -1. -/
inductive Closing : Int → List Int → Int → Prop
  | none (fd : Int) : Closing fd [] fd
  | close (fd : Int) (h : 0 ≤ fd) : Closing fd [fd] (-1)

variable {fd fd' fd'' : Int} {closed closed' : List Int}

/-- A field that has been closed is not closed again. -/
theorem Closing.trans (h : Closing fd closed fd') (h' : Closing fd' closed' fd'') :
    Closing fd (closed ++ closed') fd'' := by
  cases h with
  | none => exact h'
  | close hfd =>
    cases h' with
    | none => exact .close fd hfd
    | close hneg => exact absurd hneg (by decide)

/-- **A field is closed in a disciplined way.** -/
theorem Closing.disciplined (h : Closing fd closed fd') :
    Disciplined (holding fd) (releases closed) (holding fd') := by
  cases h with
  | none => exact .nil
  | close hfd =>
    rw [releases, holding, if_pos hfd, List.filter_singleton, decide_eq_true hfd]
    exact .releaseOne

/-! ### Components that note what they close -/

/-- The log of a component accounts for its field: to close what is noted in addition leads from
    what the field held to what it holds. -/
def Accounted {σ : Type} (field : σ → Int) (log : σ → List Int) (s s' : σ) : Prop :=
  ∃ closes, log s' = log s ++ closes ∧
    Disciplined (holding (field s)) (releases closes) (holding (field s'))

section

variable {σ : Type} {field : σ → Int} {log : σ → List Int} {s s' s'' : σ}

theorem Accounted.of_eq (hlog : log s' = log s) (hfield : field s' = field s) :
    Accounted field log s s' :=
  ⟨[], by rw [hlog, List.append_nil], by rw [hfield]; exact .nil⟩

theorem Accounted.trans (h : Accounted field log s s') (h' : Accounted field log s' s'') :
    Accounted field log s s'' := by
  obtain ⟨closes, hlog, hfield⟩ := h
  obtain ⟨closes', hlog', hfield'⟩ := h'
  refine ⟨closes ++ closes', ?_, ?_⟩
  · rw [hlog', hlog, List.append_assoc]
  · have happend : releases (closes ++ closes') = releases closes ++ releases closes' := by
      simp [releases]
    rw [happend]
    exact hfield.append hfield'

/-- `sancus_close2` on the field, whatever it holds. -/
theorem Accounted.close2 (hlog : log s' = log s ++ [field s]) (hfield : field s' = -1) :
    Accounted field log s s' := by
  refine ⟨[field s], hlog, ?_⟩
  rw [hfield]
  by_cases hfd : 0 ≤ field s
  · exact (Closing.close (field s) hfd).disciplined
  · -- the field has no descriptor, and none is closed
    rw [releases, List.filter_singleton, decide_eq_false hfd, holding, if_neg hfd]
    exact .nil

theorem Accounted.disciplined (h : Accounted field log s s') :
    Disciplined (holding (field s)) (releases ((log s').drop (log s).length))
      (holding (field s')) := by
  obtain ⟨closes, hlog, hfield⟩ := h
  rw [hlog, List.drop_left]
  exact hfield

end

@[simp] theorem holding_natCast (n : Nat) : holding n = {n} := by
  simp [holding]

@[simp] theorem holding_neg_one : holding (-1) = 0 := rfl

/-! ### System calls -/

/-- What a system call does to descriptors.  A `close` that was interrupted gives nothing back. -/
def useOf : Call × Answer → Option (Use Nat)
  | (.close fd, answer) => some (if answer = .failed EINTR then .refused fd else .release fd)
  | (call, .ok fd)      => if call.obtains then some (.acquire fd) else none
  | (_, .failed _)      => none

def usesOf (t : Trace) : List (Use Nat) := t.filterMap useOf

variable {out : Outcomes} {cloexec nonblock : Int} {fd : Nat} {t : Trace}

theorem usesOf_append (t t' : Trace) : usesOf (t ++ t') = usesOf t ++ usesOf t' :=
  List.filterMap_append

/-- **A descriptor is given back by `sancus_close`**, however often it has to ask. -/
theorem disciplined_sancusClose (fd : Nat) (answers : CloseAnswers) :
    Disciplined {fd} (usesOf (sancusClose fd answers).2) 0 := by
  induction answers with
  | closed => exact .releaseOne
  | failed errno hne =>
    have huse : usesOf (sancusClose fd (.failed errno hne)).2 = [.release fd] := by
      simp [sancusClose, usesOf, useOf, hne]
    rw [huse]
    exact .releaseOne
  | interrupted rest ih => exact .releaseAfter ih

/-- What a use comes to when `close(2)` gives the answers `close fd` for a descriptor `fd`. -/
def closeUses (close : Nat → CloseAnswers) : Use Nat → List (Use Nat)
  | .release fd => usesOf (sancusClose fd (close fd)).2
  | u           => [u]

theorem closeUses_other (close : Nat → CloseAnswers) (u : Use Nat)
    (h : ∀ fd, u ≠ .release fd) : closeUses close u = [u] := by
  cases u with
  | release fd => exact absurd rfl (h fd)
  | _ => rfl

/-- The call failed. -/
def Failed (e : Call × Answer) : Prop := ∃ errno, e.2 = .failed errno

/-- What has been returned is held, and no call has failed; or it is -1, nothing is held and a
    call has failed. -/
inductive Obtains : Int × Trace → Prop
  | ok {fd : Nat} {t : Trace} (h : Disciplined 0 (usesOf t) {fd}) (hall : ∀ e ∈ t, ¬ Failed e) :
      Obtains (fd, t)
  | failed {t : Trace} (h : Disciplined 0 (usesOf t) 0) (hsome : ∃ e ∈ t, Failed e) :
      Obtains (-1, t)

/-- A call for the flags of a descriptor changes nothing that is held. -/
theorem disciplined_fcntl {call : Call} {answer : Answer} {held : Multiset Nat}
    (h : Disciplined 0 (usesOf t) held) (hcall : call.isFcntl) :
    Disciplined 0 (usesOf (t ++ [(call, answer)])) held := by
  have hnone : useOf (call, answer) = none := by
    cases call <;> cases answer <;> first | rfl | cases hcall
  have huses : usesOf [(call, answer)] = [] := List.filterMap_cons_none hnone
  rw [usesOf_append, huses, List.append_nil]
  exact h

theorem not_failed_snoc {call : Call} {n : Nat} (hall : ∀ e ∈ t, ¬ Failed e) :
    ∀ e ∈ t ++ [(call, .ok n)], ¬ Failed e := by
  refine List.forall_mem_append.mpr ⟨hall, List.forall_mem_singleton.mpr ?_⟩
  rintro ⟨errno, ⟨⟩⟩

/-- A call for the flags has failed, and the descriptor is closed. -/
theorem obtains_socketFailed {call : Call} {errno : Nat} (h : Disciplined 0 (usesOf t) {fd})
    (hcall : call.isFcntl) : Obtains (socketFailed out fd (t ++ [(call, .failed errno)])) := by
  have huse : usesOf [(.close fd, out.close.answer)] = [.release fd] := by
    simp [usesOf, useOf, out.close.answer_ne]
  apply Obtains.failed
  · rw [usesOf_append, huse]
    exact (disciplined_fcntl h hcall).append .releaseOne
  · exact ⟨(call, .failed errno), by simp, errno, rfl⟩

/-- Setting the flags of a descriptor, where they are not set yet. -/
theorem obtains_setfl (h : Disciplined 0 (usesOf t) {fd}) (hall : ∀ e ∈ t, ¬ Failed e) {p : Prop}
    [Decidable p] {flags : UInt32} :
    Obtains (if p then
      match out.call (.setfl fd flags) t with
      | (.failed _, t) => socketFailed out fd t
      | (.ok _, t)     => (fd, t)
    else (fd, t)) := by
  split
  · cases hset : out.answer t.length with
    | failed errno =>
      rw [out.call_eq hset]
      exact obtains_socketFailed h rfl
    | ok n =>
      rw [out.call_eq hset]
      exact .ok (disciplined_fcntl h rfl) (not_failed_snoc hall)
  · exact .ok h hall

theorem obtains_socketFlags (hflags : cloexec ≠ 0 ∨ nonblock ≠ 0)
    (h : Disciplined 0 (usesOf t) {fd}) (hall : ∀ e ∈ t, ¬ Failed e) :
    Obtains (socketFlags out cloexec nonblock fd t) := by
  unfold socketFlags
  rw [if_pos hflags]
  cases hget : out.answer t.length with
  | failed errno =>
    rw [out.call_eq hget]
    exact obtains_socketFailed h rfl
  | ok fl =>
    rw [out.call_eq hget]
    have hget' : Disciplined 0 (usesOf (t ++ [(.getfl fd, .ok fl)])) {fd} :=
      disciplined_fcntl h rfl
    exact obtains_setfl hget' (not_failed_snoc hall)

/-- **`sancus_socket` with flags to set** returns a descriptor that it holds, or -1 and holds
    nothing. -/
theorem obtains_sancusSocket (family : Int) (type_ : UInt32) (protocol : Int)
    (hflags : cloexec ≠ 0 ∨ nonblock ≠ 0) :
    Obtains (sancusSocket out family type_ protocol cloexec nonblock) := by
  unfold sancusSocket
  dsimp only
  generalize (if nonblock ≠ 0 then _ else _) = type_'
  cases hsocket : out.answer 0 with
  | failed errno =>
    rw [out.call_eq (t := []) hsocket]
    exact .failed .nil ⟨_, List.mem_singleton_self _, errno, rfl⟩
  | ok fd =>
    rw [out.call_eq (t := []) hsocket]
    exact obtains_socketFlags hflags .acquireOne (not_failed_snoc (t := []) nofun)

/-! ### Opening a file -/

/-- The descriptor of a file is closed again when its flags cannot be set. -/
theorem disciplined_openFailed {call : Call} {errno : Nat} (hpos : 0 < errno)
    (h : Disciplined 0 (usesOf t) {fd}) (hcall : call.isFcntl) :
    Disciplined 0 (usesOf (openFailed out fd errno (t ++ [(call, .failed errno)])).2)
      (holding (openFailed out fd errno (t ++ [(call, .failed errno)])).1) := by
  have hneg : holding (openFailed out fd errno (t ++ [(call, .failed errno)])).1 = 0 :=
    if_neg (by simp [openFailed]; omega)
  rw [hneg]
  show Disciplined 0 (usesOf (out.closing fd (t ++ [(call, .failed errno)]))) 0
  rw [Outcomes.closing, usesOf_append]
  exact (disciplined_fcntl h hcall).append (disciplined_sancusClose fd out.close)

theorem disciplined_openFlags (h : Disciplined 0 (usesOf t) {fd}) :
    Disciplined 0 (usesOf (openFlags out cloexec (.ok fd, t)).2)
      (holding (openFlags out cloexec (.ok fd, t)).1) := by
  unfold openFlags
  dsimp only
  split
  · cases hget : out.answer t.length with
    | failed errno =>
      rw [out.call_eq hget]
      exact disciplined_openFailed (out.errno_pos hget) h rfl
    | ok fl =>
      rw [out.call_eq hget]
      have hget' : Disciplined 0 (usesOf (t ++ [(.getfl fd, .ok fl)])) {fd} :=
        disciplined_fcntl h rfl
      dsimp only
      split
      · cases hset : out.answer (t ++ [(Call.getfl fd, Answer.ok fl)]).length with
        | failed errno =>
          rw [out.call_eq hset]
          exact disciplined_openFailed (out.errno_pos hset) hget' rfl
        | ok n =>
          rw [out.call_eq hset]
          have hcall : (Call.setfl fd (UInt32.ofNat fl ||| FD_CLOEXEC)).isFcntl := rfl
          simpa using disciplined_fcntl hget' hcall
      · simpa using hget'
  · simpa using h

/-- **`sancus_open`** returns a descriptor that it holds, or a negative number and holds
    nothing. -/
theorem disciplined_sancusOpen {fuel : Nat} {pathname : CString} {flags mode : UInt32}
    {r : Int × Trace} (h : sancusOpen fuel out pathname flags cloexec mode = some r) :
    Disciplined 0 (usesOf r.2) (holding r.1) := by
  obtain ⟨left, hleft, rfl⟩ := Option.map_eq_some_iff.mp h
  revert hleft
  generalize (if cloexec ≠ 0 then _ else _) = flags'
  intro hleft
  -- The calls that were interrupted have obtained nothing.
  refine (Loop.returns_of_run hleft).post (I := fun t => usesOf t = [])
    (Q := fun left => Disciplined 0 (usesOf (openFlags out cloexec left).2)
      (holding (openFlags out cloexec left).1)) ?_ ?_ rfl
  · intro t t' ht hround
    unfold openRound at hround
    cases hanswer : out.answer t.length with
    | failed errno =>
      rw [out.call_eq hanswer] at hround
      dsimp only at hround
      split at hround
      · obtain rfl := Round.again.inj hround
        rw [usesOf_append, ht]
        rfl
      · cases hround
    | ok fd =>
      rw [out.call_eq hanswer] at hround
      cases hround
  · intro t left ht hround
    unfold openRound at hround
    cases hanswer : out.answer t.length with
    | failed errno =>
      rw [out.call_eq hanswer] at hround
      dsimp only at hround
      split at hround
      · cases hround
      · obtain rfl := Round.leave.inj hround
        show Disciplined 0 (usesOf (t ++ [_])) (holding (-1))
        rw [usesOf_append, ht]
        exact .nil
    | ok fd =>
      rw [out.call_eq hanswer] at hround
      obtain rfl := Round.leave.inj hround
      apply disciplined_openFlags
      rw [usesOf_append, ht]
      exact .acquireOne

end Sancus.Fd
