import Sancus.Fd.Closing

namespace Sancus.Fd

open CModel

/-!
# File descriptors — setting up a socket

A server, a connection and a netlink receiver are set up alike: an address is made, a socket is
obtained and put into the watcher, and further calls are made on it.  When one of these fails the
socket is closed again, and the set-up returns -1.

* `SetupCall` / `SetUp` — the calls of a set-up, and what it leaves;
* `Fatal` — the answers that make it fail;
* `Underway` — the socket is held and nothing fatal has happened, with the rules for one call more;
* `SetUpSound` — what a set-up promises, whatever it is given and whatever is answered.
-/

/-- The options set with `setsockopt`, and their values. -/
inductive SockOption where
  | reuseAddr (flags : Int)
  | keepAlive (flags : Int)
  | linger (l_onoff l_linger : Int)
  deriving DecidableEq

/-- A call made while a socket is set up for addresses of type `α`; `pre_bind` is a callback. -/
inductive SetupCall (α : Type) where
  | fd (call : Call)
  | unlink (path : Option CString)
  | setsockopt (fd : Nat) (option : SockOption)
  | preBind (fd : Nat)
  | bind (fd : Nat) (sa : α)
  | listen (fd : Nat) (backlog : Int)
  | connect (fd : Nat) (sa : α)

abbrev SetupTrace (α : Type) : Type := List (SetupCall α × Answer)

/-- What the calls answer: those of `sancus_socket` and of `sancus_close`, and the others, each of
    which is made once. -/
structure Env (α : Type) where
  socket : Outcomes
  answer : SetupCall α → Answer

/-- What a set-up leaves: the value it returns, the component, the `errno` it has put back, and
    the calls made. -/
structure SetUp (σ α : Type) where
  ret : Int
  self : σ
  errno : Option Nat
  calls : SetupTrace α

variable {σ α : Type}

/-- Make a call. -/
def Env.call (env : Env α) (call : SetupCall α) (calls : SetupTrace α) : Answer × SetupTrace α :=
  (env.answer call, calls ++ [(call, env.answer call)])

/-- The calls of `sancus_socket` are calls of the set-up. -/
def liftCalls (t : Trace) : SetupTrace α := t.map fun (call, answer) => (.fd call, answer)

/-- `sancus_close2` on the descriptor of the watcher. -/
def closeCalls (env : Env α) (fd : Nat) (calls : SetupTrace α) : SetupTrace α :=
  calls ++ liftCalls (sancusClose fd env.socket.close).2

def EINPROGRESS : Nat := 115
def SOCK_STREAM : UInt32 := 1
def SOCK_RAW : UInt32 := 3

/-! ### What the calls have done -/

/-- An answer that makes the set-up fail.  A connection can be in progress; what becomes of
    `setsockopt` and `unlink` does not matter.  A set-up that closes has failed before. -/
def Fatal : SetupCall α × Answer → Prop
  | (.fd _, .failed _)        => True
  | (.bind _ _, .failed _)    => True
  | (.listen _ _, .failed _)  => True
  | (.connect _ _, .failed e) => e ≠ EINPROGRESS
  | _                         => False

/-- What a call does to descriptors. -/
def setupUseOf : SetupCall α × Answer → Option (Use Nat)
  | (.fd call, answer) => useOf (call, answer)
  | _                  => none

def setupUses (calls : SetupTrace α) : List (Use Nat) := calls.filterMap setupUseOf

/-- The address a call is given, and the socket. -/
def addressOf : SetupCall α × Answer → Option (Nat × α)
  | (.bind fd sa, _)    => some (fd, sa)
  | (.connect fd sa, _) => some (fd, sa)
  | _                   => none

/-- **What a set-up promises.**  It returns 1 exactly if there is an address and no answer was
    fatal, and -1, or what says that there is no address, otherwise.  When it returns 1 the
    watcher has the one descriptor that is held, to which the address was given, once; when it
    does not, nothing is held any more, and without an address nothing was called. -/
structure SetUpSound (field : σ → Int) (init : Except Int α) (r : SetUp σ α) : Prop where
  one_iff : r.ret = 1 ↔ (∃ sa, init = .ok sa) ∧ ∀ e ∈ r.calls, ¬ Fatal e
  ready : r.ret = 1 → ∃ (fd : Nat) (sa : α), init = .ok sa ∧ field r.self = fd ∧
    r.calls.filterMap addressOf = [(fd, sa)] ∧ Disciplined 0 (setupUses r.calls) (holding fd)
  failed : r.ret ≠ 1 → Disciplined 0 (setupUses r.calls) 0
  no_address : ∀ e, init = .error e → r.ret = e ∧ r.calls = []
  minus_one : (∃ sa, init = .ok sa) → r.ret ≠ 1 → r.ret = -1

/-! ### One call more -/

variable {calls calls' : SetupTrace α} {fd : Nat} {sa : α}

theorem setupUses_append : setupUses (calls ++ calls') = setupUses calls ++ setupUses calls' :=
  List.filterMap_append

@[simp] theorem setupUses_liftCalls (t : Trace) :
    setupUses (liftCalls t : SetupTrace α) = usesOf t := by
  rw [setupUses, liftCalls, List.filterMap_map]
  rfl

/-- The socket is held, nothing fatal has happened, and `addresses` have been given. -/
structure Underway (fd : Nat) (addresses : List (Nat × α)) (calls : SetupTrace α) : Prop where
  held : Disciplined 0 (setupUses calls) {fd}
  going : ∀ e ∈ calls, ¬ Fatal e
  addresses_eq : calls.filterMap addressOf = addresses

/-- Nothing is held any more, after a fatal answer. -/
structure Undone (calls : SetupTrace α) : Prop where
  free : Disciplined 0 (setupUses calls) 0
  fatal : ∃ e ∈ calls, Fatal e

variable {addresses : List (Nat × α)}

/-- Calls that are on no descriptor, and not fatal. -/
theorem Underway.append (h : Underway fd addresses calls) (huses : setupUses calls' = [])
    (hgoing : ∀ e ∈ calls', ¬ Fatal e) :
    Underway fd (addresses ++ calls'.filterMap addressOf) (calls ++ calls') where
  held := by
    rw [setupUses_append, huses, List.append_nil]
    exact h.held
  going := List.forall_mem_append.mpr ⟨h.going, hgoing⟩
  addresses_eq := by rw [List.filterMap_append, h.addresses_eq]

/-- One call of those. -/
theorem Underway.call (h : Underway fd addresses calls) (call : SetupCall α) (answer : Answer)
    (huse : setupUseOf (call, answer) = none) (hnot : ¬ Fatal (call, answer)) :
    Underway fd (addresses ++ (addressOf (call, answer)).toList) (calls ++ [(call, answer)]) := by
  have haddr : [(call, answer)].filterMap addressOf = (addressOf (call, answer)).toList := by
    cases h : addressOf (call, answer) <;> simp [h]
  rw [← haddr]
  exact h.append (List.filterMap_cons_none huse) (List.forall_mem_singleton.mpr hnot)

/-- A fatal answer, after which the socket is closed. -/
theorem Underway.close (h : Underway fd addresses calls) (env : Env α) (call : SetupCall α) (answer : Answer)
    (huse : setupUseOf (call, answer) = none) (hfatal : Fatal (call, answer)) :
    Undone (closeCalls env fd (calls ++ [(call, answer)])) where
  free := by
    have huses : setupUses [(call, answer)] = [] := List.filterMap_cons_none huse
    rw [closeCalls, setupUses_append, setupUses_append, huses, List.append_nil,
      setupUses_liftCalls]
    exact h.held.append (disciplined_sancusClose fd env.socket.close)
  fatal := ⟨(call, answer), by simp [closeCalls], hfatal⟩

theorem fatal_lift {e : Call × Answer} :
    Fatal ((.fd e.1, e.2) : SetupCall α × Answer) ↔ Failed e := by
  obtain ⟨call, answer⟩ := e
  cases answer <;> simp [Fatal, Failed]

theorem addresses_liftCalls (t : Trace) :
    (liftCalls t : SetupTrace α).filterMap addressOf = [] := by
  simp [liftCalls, List.filterMap_map, addressOf, Function.comp_def]

/-- **The socket.**  After `sancus_socket` the set-up is under way, or all is undone. -/
theorem setup_socket (out : Outcomes) {cloexec nonblock : Int} (family : Int) (type_ : UInt32)
    (protocol : Int) (hflags : cloexec ≠ 0 ∨ nonblock ≠ 0) (before : SetupTrace α)
    (huses : setupUses before = []) (hgoing : ∀ e ∈ before, ¬ Fatal e)
    (haddr : before.filterMap addressOf = []) :
    (∃ (fd : Nat) (t : Trace),
      sancusSocket out family type_ protocol cloexec nonblock = ((fd : Int), t) ∧
        Underway fd [] (before ++ liftCalls t)) ∨
    ∃ t, sancusSocket out family type_ protocol cloexec nonblock = (-1, t) ∧
      Undone (before ++ liftCalls t) := by
  have hlift : ∀ t, setupUses (before ++ liftCalls t) = usesOf t := by
    intro t
    rw [setupUses_append, huses, setupUses_liftCalls, List.nil_append]
  generalize hr : sancusSocket out family type_ protocol cloexec nonblock = r
  have hobtains : Obtains r := hr ▸ obtains_sancusSocket family type_ protocol hflags
  cases hobtains with
  | @ok fd t h hall =>
    refine .inl ⟨fd, t, rfl, ?_, ?_, ?_⟩
    · rw [hlift]
      exact h
    · apply List.forall_mem_append.mpr ⟨hgoing, ?_⟩
      intro _ he'
      obtain ⟨e, he, rfl⟩ := List.mem_map.mp he'
      exact fun hfatal => hall e he (fatal_lift.mp hfatal)
    · rw [List.filterMap_append, haddr, addresses_liftCalls, List.append_nil]
  | @failed t h hsome =>
    obtain ⟨e, he, hfailed⟩ := hsome
    refine .inr ⟨t, rfl, ?_, (.fd e.1, e.2), ?_, fatal_lift.mpr hfailed⟩
    · rw [hlift]
      exact h
    · exact List.mem_append_right before (List.mem_map.mpr ⟨e, he, rfl⟩)

/-! ### How a set-up ends -/

variable {field : σ → Int} {init : Except Int α} {r : SetUp σ α}

/-- It ends well, the socket being held. -/
theorem Underway.sound (h : Underway fd [(fd, sa)] r.calls) (hret : r.ret = 1)
    (hfield : field r.self = fd) (hinit : init = .ok sa) : SetUpSound field init r where
  one_iff := iff_of_true hret ⟨⟨sa, hinit⟩, h.going⟩
  ready _ := ⟨fd, sa, hinit, hfield, h.addresses_eq, by simpa using h.held⟩
  failed hne := absurd hret hne
  no_address e he := by
    rw [hinit] at he
    cases he
  minus_one _ hne := absurd hret hne

/-- It ends with a fatal answer. -/
theorem Undone.sound (h : Undone r.calls) (hret : r.ret = -1) (hinit : init = .ok sa) :
    SetUpSound field init r := by
  have hne : r.ret ≠ 1 := by
    rw [hret]
    decide
  obtain ⟨e, he, hfatal⟩ := h.fatal
  refine ⟨iff_of_false hne ?_, fun hone => absurd hone hne, fun _ => h.free, ?_, fun _ _ => hret⟩
  · rintro ⟨_, hall⟩
    exact hall e he hfatal
  · intro e' he'
    rw [hinit] at he'
    cases he'

/-- It ends before it begins. -/
theorem sound_of_no_address {e : Int} (hne : e ≠ 1) (self : σ) (hinit : init = .error e) :
    SetUpSound field init ⟨e, self, none, []⟩ := by
  refine ⟨iff_of_false hne ?_, fun hone => absurd hone hne, fun _ => .nil, ?_, ?_⟩
  · rintro ⟨⟨sa, hsa⟩, _⟩
    rw [hinit] at hsa
    cases hsa
  · intro e' he'
    rw [hinit] at he'
    exact ⟨Except.error.inj he', rfl⟩
  · rintro ⟨sa, hsa⟩ _
    rw [hinit] at hsa
    cases hsa

end Sancus.Fd
