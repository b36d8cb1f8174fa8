import Sancus.Tcp.Conn

namespace Sancus.Tcp

open CModel Time

/-!
# TCP connections — what a run of events tells the application

State, watcher and callbacks are kept in step, whatever events come.

* `Phase` — the invariant: still connecting, connected, or failed, with the callbacks made
  in each;
* `Phase.outcome` — an event keeps it, `Phase.same` — so does an action;
* `InStep` — what follows for the callbacks, the state and the mask;
* `EventStep` — what one event leaves behind;
* `tcp_conn_in_step` — that both hold along every run.
-/

/-- Where a connection stands, and what the application has been told until then. -/
inductive Phase (s : State) : Prop
  | connecting (hstate : s.conn.state = .inProgress ∨ s.conn.state = .connected)
      (hmask : s.conn.mask = .readWrite)
      (htrace : ∀ e ∈ s.conn.trace, e = .onError .watcherError)
  | connected (pre post : List Callback) (htrace : s.conn.trace = pre ++ .onConnect :: post)
      (hpre : ∀ e ∈ pre, e = .onError .watcherError)
      (hpost : ∀ e ∈ post, e = .onRead ∨ e = .onError .watcherError)
      (hmask : s.conn.mask = .readOnly) (hstate : s.aborted = false → s.conn.state = .running)
  | failed (pre post : List Callback)
      (htrace : s.conn.trace = pre ++ .onError .connectError :: post)
      (hpre : ∀ e ∈ pre, e = .onError .watcherError)
      (hpost : ∀ e ∈ post, e = .onError .watcherError)
      (hmask : s.conn.mask = .readWrite) (hstate : s.conn.state = .failed)

/-- The callbacks, the state of the connection and the mask of its watcher agree. -/
structure InStep (s : State) : Prop where
  connect_once : s.conn.trace.count .onConnect ≤ 1
  not_both : ¬ (.onConnect ∈ s.conn.trace ∧ .onError .connectError ∈ s.conn.trace)
  read_after_connect : ∀ pre post, s.conn.trace = pre ++ .onRead :: post → .onConnect ∈ pre
  running_iff : s.aborted = false → (s.conn.state = .running ↔ .onConnect ∈ s.conn.trace)
  failed_iff : s.aborted = false →
    (s.conn.state = .failed ↔ .onError .connectError ∈ s.conn.trace)
  mask_iff : s.conn.mask = .readOnly ↔ .onConnect ∈ s.conn.trace

variable {c : SancusTcpConn} {s s' : State} {a : Label} {revents : Revents} {now : Timespec}

/-! ### The invariant -/

theorem Phase.init (fd : Int) (inProgress : Bool) (lastActivity : Timespec) (errno : Int) :
    Phase ⟨initTcp fd inProgress lastActivity errno, false⟩ := by
  refine .connecting ?_ rfl nofun
  cases inProgress with
  | true => exact .inl rfl
  | false => exact .inr rfl

/-- What leaves state, mask and callbacks alone keeps it. -/
theorem Phase.same (h : Phase ⟨c, false⟩) (hsame : Same c s'.conn) : Phase s' := by
  obtain ⟨hstate', hmask', htrace'⟩ := hsame
  cases h with
  | connecting hstate hmask htrace =>
    exact .connecting (by rw [hstate']; exact hstate) (hmask'.trans hmask)
      (by rw [htrace']; exact htrace)
  | connected pre post htrace hpre hpost hmask hstate =>
    exact .connected pre post (htrace'.trans htrace) hpre hpost (hmask'.trans hmask)
      fun _ => hstate'.trans (hstate rfl)
  | failed pre post htrace hpre hpost hmask hstate =>
    exact .failed pre post (htrace'.trans htrace) hpre hpost (hmask'.trans hmask)
      (hstate'.trans hstate)

/-- An error of the watcher is reported in any phase. -/
theorem Phase.watcherError (h : Phase ⟨c, false⟩) (hstate' : s'.conn.state = c.state)
    (hmask' : s'.conn.mask = c.mask)
    (htrace' : s'.conn.trace = c.trace ++ [.onError .watcherError]) : Phase s' := by
  cases h with
  | connecting hstate hmask htrace =>
    refine .connecting (by rw [hstate']; exact hstate) (hmask'.trans hmask) ?_
    rw [htrace']
    exact List.forall_mem_append.mpr ⟨htrace, List.forall_mem_singleton.mpr rfl⟩
  | connected pre post htrace hpre hpost hmask hstate =>
    refine .connected pre (post ++ [.onError .watcherError]) ?_ hpre ?_ (hmask'.trans hmask) ?_
    · rw [htrace', htrace, List.append_assoc, List.cons_append]
    · exact List.forall_mem_append.mpr ⟨hpost, List.forall_mem_singleton.mpr (.inr rfl)⟩
    · exact fun _ => hstate'.trans (hstate rfl)
  | failed pre post htrace hpre hpost hmask hstate =>
    refine .failed pre (post ++ [.onError .watcherError]) ?_ hpre ?_ (hmask'.trans hmask) ?_
    · rw [htrace', htrace, List.append_assoc, List.cons_append]
    · exact List.forall_mem_append.mpr ⟨hpost, List.forall_mem_singleton.mpr rfl⟩
    · exact hstate'.trans hstate

/-- **Step lemma.**  Whatever an event does, the connection is in one of the phases. -/
theorem Phase.outcome (h : Phase ⟨c, false⟩) (ho : Outcome c revents now s') : Phase s' := by
  cases ho with
  | refused => exact h.same (.refl c)
  | ignored _ => exact h.same (.refl c)
  | watcherError _ hstate hmask htrace => exact h.watcherError hstate hmask htrace
  | failed _ _ hbefore hstate' hmask' htrace' =>
    -- only a connection that is still connecting can fail to connect
    cases h with
    | connecting hstate hmask htrace =>
      exact .failed c.trace [] htrace' htrace nofun (hmask'.trans hmask) hstate'
    | connected _ _ _ _ _ _ hstate => exact nomatch hbefore.symm.trans (hstate rfl)
    | failed _ _ _ _ _ _ hstate => exact nomatch hbefore.symm.trans hstate
  | connected _ _ hbefore hmask' htrace' hgoes =>
    cases h with
    | connecting hstate hmask htrace =>
      exact .connected c.trace [] htrace' htrace nofun hmask' fun ha => (hgoes ha).1
    | connected _ _ _ _ _ _ hstate =>
      rcases hbefore with hbefore | hbefore
      · exact nomatch hbefore.symm.trans (hstate rfl)
      · exact nomatch hbefore.symm.trans (hstate rfl)
    | failed _ _ _ _ _ _ hstate =>
      rcases hbefore with hbefore | hbefore
      · exact nomatch hbefore.symm.trans hstate
      · exact nomatch hbefore.symm.trans hstate
  | read _ _ hbefore hstate' hmask' htrace' _ =>
    cases h with
    | connecting hstate _ _ =>
      rcases hstate with hstate | hstate
      · exact nomatch hbefore.symm.trans hstate
      · exact nomatch hbefore.symm.trans hstate
    | connected pre post htrace hpre hpost hmask hstate =>
      refine .connected pre (post ++ [.onRead]) ?_ hpre ?_ (hmask'.trans hmask) fun _ => hstate'
      · rw [htrace', htrace, List.append_assoc, List.cons_append]
      · exact List.forall_mem_append.mpr ⟨hpost, List.forall_mem_singleton.mpr (.inl rfl)⟩
    | failed _ _ _ _ _ _ hstate => exact nomatch hbefore.symm.trans hstate

theorem Phase.step (h : Phase s) (hstep : step s a = some s') : Phase s' := by
  obtain ⟨c, aborted⟩ := s
  obtain ⟨hrunning, hs'⟩ := Option.ite_none_left_eq_some.mp hstep
  obtain rfl : aborted = false := by simpa using hrunning
  cases a with
  | event revents sockopt acts now =>
    obtain rfl := Option.some.inj hs'
    exact h.outcome ioCb_outcome
  | action a now =>
    obtain rfl := Option.some.inj hs'
    exact h.same a.same_run

/-! ### What it says -/

/-- An entry that is not before `a` has `a` before it. -/
theorem mem_of_append_cons_eq {α : Type} {a b : α} {pre post pre' post' : List α}
    (h : pre ++ a :: post = pre' ++ b :: post') (hab : a ≠ b) (hb : b ∉ pre) : a ∈ pre' := by
  rcases List.append_eq_append_iff.mp h with ⟨as, rfl, hrest⟩ | ⟨bs, rfl, hrest⟩
  · cases as with
    | nil => exact absurd (List.cons.inj hrest).1 hab
    | cons x as =>
      obtain ⟨rfl, _⟩ := List.cons.inj hrest
      simp
  · cases bs with
    | nil => exact absurd (List.cons.inj hrest).1.symm hab
    | cons x bs =>
      obtain ⟨rfl, _⟩ := List.cons.inj hrest
      exact absurd (List.mem_append_right pre' List.mem_cons_self) hb

/-- As long as `on_connect` has not been called, neither has `on_read`. -/
theorem inStep_of_not_connected (hconnect : .onConnect ∉ s.conn.trace)
    (hread : .onRead ∉ s.conn.trace) (hmask : s.conn.mask = .readWrite)
    (hrunning : s.conn.state ≠ .running)
    (hfailed : s.conn.state = .failed ↔ .onError .connectError ∈ s.conn.trace) : InStep s where
  connect_once := by
    rw [List.count_eq_zero_of_not_mem hconnect]
    exact Nat.zero_le 1
  not_both hb := hconnect hb.1
  read_after_connect pre post heq :=
    absurd (heq ▸ List.mem_append_right pre List.mem_cons_self) hread
  running_iff _ := iff_of_false hrunning hconnect
  failed_iff _ := hfailed
  mask_iff := iff_of_false (by rw [hmask]; decide) hconnect

theorem Phase.inStep (h : Phase s) : InStep s := by
  cases h with
  | connecting hstate hmask htrace =>
    have hnot : ∀ e, e ≠ .onError .watcherError → e ∉ s.conn.trace :=
      fun e he hm => he (htrace e hm)
    have hneither : s.conn.state ≠ .running ∧ s.conn.state ≠ .failed := by
      rcases hstate with hstate | hstate <;> simp [hstate]
    apply inStep_of_not_connected (hnot _ (by decide)) (hnot _ (by decide)) hmask hneither.1
    exact iff_of_false hneither.2 (hnot _ (by decide))
  | connected pre post htrace hpre hpost hmask hstate =>
    have hpre' : ∀ e, e ≠ .onError .watcherError → e ∉ pre := fun e he hm => he (hpre e hm)
    have hpost' : ∀ e, e ≠ .onRead → e ≠ .onError .watcherError → e ∉ post := by
      intro e he he' hm
      rcases hpost e hm with h | h
      · exact he h
      · exact he' h
    have hconnect : .onConnect ∈ s.conn.trace := by simp [htrace]
    have herror : .onError .connectError ∉ s.conn.trace := by
      simp [htrace, hpre' (.onError .connectError) (by decide),
        hpost' (.onError .connectError) (by decide) (by decide)]
    refine ⟨?_, fun hb => herror hb.2, ?_, fun ha => iff_of_true (hstate ha) hconnect, ?_,
      iff_of_true hmask hconnect⟩
    · rw [htrace, List.count_append, List.count_cons_self,
        List.count_eq_zero_of_not_mem (hpre' .onConnect (by decide)),
        List.count_eq_zero_of_not_mem (hpost' .onConnect (by decide) (by decide))]
    · intro pre' post' heq
      exact mem_of_append_cons_eq (htrace.symm.trans heq) (by decide) (hpre' .onRead (by decide))
    · intro ha
      exact iff_of_false (by rw [hstate ha]; decide) herror
  | failed pre post htrace hpre hpost hmask hstate =>
    have hnot : ∀ e, e ≠ .onError .watcherError → e ≠ .onError .connectError →
        e ∉ s.conn.trace := by
      intro e he he' hm
      rw [htrace, List.mem_append, List.mem_cons] at hm
      rcases hm with hm | hm | hm
      · exact he (hpre e hm)
      · exact he' hm
      · exact he (hpost e hm)
    apply inStep_of_not_connected (hnot _ (by decide) (by decide))
      (hnot _ (by decide) (by decide)) hmask (by rw [hstate]; decide)
    exact iff_of_true hstate (by simp [htrace])

/-! ### What an event leaves -/

/-- The step from `s` to `s'` calls the callback. -/
def Calls (s s' : State) (cb : Callback) : Prop :=
  s.conn.trace.count cb < s'.conn.trace.count cb

/-- What an event does to the fields that follow the callbacks. -/
structure EventStep (revents : Revents) (now : Timespec) (s s' : State) : Prop where
  error_keeps : revents.error = true →
    s'.conn.state = s.conn.state ∧ s'.conn.mask = s.conn.mask
  touched : s'.aborted = false → Calls s s' .onConnect ∨ Calls s s' .onRead →
    s'.conn.lastActivity = now

theorem not_calls_of_trace_eq {cb : Callback} (h : s'.conn.trace = s.conn.trace) :
    ¬ Calls s s' cb := by
  rw [Calls, h]
  exact lt_irrefl _

theorem not_calls_of_concat {cb cb' : Callback} (h : s'.conn.trace = s.conn.trace ++ [cb'])
    (hne : cb' ≠ cb) : ¬ Calls s s' cb := by
  have hzero : [cb'].count cb = 0 := List.count_eq_zero.mpr (by simpa using hne.symm)
  rw [Calls, h, List.count_append, hzero]
  exact lt_irrefl _

/-- No call of the two that touch the connection. -/
theorem touched_of_not_calls (hconnect : ¬ Calls s s' .onConnect) (hread : ¬ Calls s s' .onRead) :
    s'.aborted = false → Calls s s' .onConnect ∨ Calls s s' .onRead →
      s'.conn.lastActivity = now := by
  rintro _ (h | h)
  · exact absurd h hconnect
  · exact absurd h hread

theorem Outcome.eventStep (ho : Outcome s.conn revents now s') : EventStep revents now s s' := by
  cases ho with
  | refused =>
    refine ⟨fun _ => ⟨rfl, rfl⟩, ?_⟩
    exact touched_of_not_calls (not_calls_of_trace_eq rfl) (not_calls_of_trace_eq rfl)
  | ignored _ =>
    refine ⟨fun _ => ⟨rfl, rfl⟩, ?_⟩
    exact touched_of_not_calls (not_calls_of_trace_eq rfl) (not_calls_of_trace_eq rfl)
  | watcherError _ hstate hmask htrace =>
    refine ⟨fun _ => ⟨hstate, hmask⟩, ?_⟩
    exact touched_of_not_calls (not_calls_of_concat htrace (by decide))
      (not_calls_of_concat htrace (by decide))
  | failed _ herror _ _ _ htrace =>
    refine ⟨fun h => (nomatch herror.symm.trans h), ?_⟩
    exact touched_of_not_calls (not_calls_of_concat htrace (by decide))
      (not_calls_of_concat htrace (by decide))
  | connected _ herror _ _ _ hgoes =>
    exact ⟨fun h => (nomatch herror.symm.trans h), fun ha _ => (hgoes ha).2⟩
  | read _ herror _ _ _ _ hgoes =>
    exact ⟨fun h => (nomatch herror.symm.trans h), fun ha _ => hgoes ha⟩

/-! ### The runs -/

/-- **A connection is kept in step with what the application was told.**  In every run of a
    connection that `init_tcp` has set up, whatever events come and whatever the callbacks
    start, stop and close: `on_connect` is called at most once, never together with
    `on_error(CONNECT_ERROR)`, and before any `on_read`; the state and the mask of the watcher
    say which of them has been; an event in error changes neither; and an event that calls
    `on_connect` or `on_read` leaves the time of the loop in `last_activity`. -/
theorem tcp_conn_in_step (fd : Int) (inProgress : Bool) (lastActivity : Timespec) (errno : Int)
    (labels : List Label) (s : State)
    (hrun : Machine.run step ⟨initTcp fd inProgress lastActivity errno, false⟩ labels = some s) :
    InStep s ∧ ∀ pre revents sockopt acts now post t t',
      labels = pre ++ .event revents sockopt acts now :: post →
      Machine.run step ⟨initTcp fd inProgress lastActivity errno, false⟩ pre = some t →
      step t (.event revents sockopt acts now) = some t' → EventStep revents now t t' := by
  refine ⟨?_, ?_⟩
  · have hphase : Phase s :=
      Machine.run_keeps (Phase.init fd inProgress lastActivity errno)
        (fun _ _ _ h hstep => h.step hstep) hrun
    exact hphase.inStep
  · intro pre revents sockopt acts now post t t' _ _ hstep
    obtain ⟨_, ht'⟩ := Option.ite_none_left_eq_some.mp hstep
    obtain rfl := Option.some.inj ht'
    exact ioCb_outcome.eventStep

/-- A connection in progress that is established, and then read from. -/
theorem tcp_conn_in_step_read :
    ∃ s, Machine.run step ⟨initTcp 5 true ⟨0, 0⟩ 115, false⟩
        [.action .start ⟨1, 0⟩, .event ⟨true, true, false⟩ (.error 0) [] ⟨2, 0⟩,
          .event ⟨true, false, false⟩ (.error 0) [.stop] ⟨3, 0⟩] = some s ∧
      s.conn.trace = [.onConnect, .onRead] ∧ s.conn.lastActivity = ⟨3, 0⟩ ∧ InStep s := by
  refine ⟨_, rfl, rfl, rfl, ?_⟩
  exact (tcp_conn_in_step 5 true ⟨0, 0⟩ 115
    [.action .start ⟨1, 0⟩, .event ⟨true, true, false⟩ (.error 0) [] ⟨2, 0⟩,
      .event ⟨true, false, false⟩ (.error 0) [.stop] ⟨3, 0⟩] _ rfl).1

end Sancus.Tcp
