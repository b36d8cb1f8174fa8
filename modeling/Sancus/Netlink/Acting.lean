import Sancus.Netlink.RecvCb

namespace Sancus.Netlink.Acting

open CModel

/-!
# Netlink — callbacks that act on their receiver

`on_message` and `on_error` are handed the receiver, and may start, stop and close it before
they return.  The loop over a datagram goes on over a receiver that has been closed, and
`recv_cb` closes the descriptor field whatever it holds by then.

* `Action` / `Answered` — what a callback does, and what an `on_message` returns as well;
* `extractRound` / `recvCb` — the loop and the callback of the watcher, as in the source;
* `Label` / `step` — the receiver as a machine, a failed assertion ending the run;
* `extractRound_of_handsOver` / `extractRound_of_not` — a round is one of the loop without
  actions, and does to the receiver what the callback does;
* `loop_keeps` — hence what the actions keep, the loop keeps;
* `run_quiet` — where the callbacks do nothing, the machine is the one without actions.
-/

/-! ### The model -/

/-- What the application, or a callback of it, does with the receiver. -/
inductive Action where
  | start
  | stop
  | close
  deriving DecidableEq

/-- `none` when an assertion fails. -/
def Action.run (self : NlReceiver) : Action → Option NlReceiver
  | start => sancusNlReceiverStart self
  | stop  => some (sancusNlReceiverStop self)
  | close => sancusNlReceiverClose self

/-- The actions of a callback, one after the other. -/
def runActions : NlReceiver → List Action → Option NlReceiver
  | self, []      => some self
  | self, a :: as => (a.run self).bind fun self' => runActions self' as

theorem runActions_eq_run (self : NlReceiver) (acts : List Action) :
    runActions self acts = Machine.run Action.run self acts := by
  induction acts generalizing self with
  | nil => rfl
  | cons a acts ih => simp only [runActions, Machine.run, ih]

/-- What a call of `on_message` does with the receiver, and what it returns. -/
structure Answered where
  acts : List Action
  ret : Bool

/-- An `on_message`, as a function of the messages delivered so far, the last of them the one it
    is called with. -/
abbrev OnMessage : Type := List Nat → Answered

/-- The variables of the loop, and the receiver. -/
structure LoopState where
  vars : ExtractState
  self : NlReceiver

/-- What the loop leaves with; `none` when an assertion has failed in a callback. -/
abbrev LoopResult : Type := Option (ExtractResult × NlReceiver)

/-- One round of `while (sancus_nl_msg_ok(nlh, len))`. -/
def extractRound (m : Mem) (onMessage : OnMessage) (s : LoopState) :
    Round LoopState LoopResult :=
  if sancusNlMsgOk m s.vars.nlh s.vars.len then
    if sancusNlMsgPortidOk m s.vars.nlh (intToUnsigned 32 s.self.portid) then
      if NLMSG_MIN_TYPE ≤ nlmsgType m s.vars.nlh then
        let delivered := s.vars.delivered ++ [s.vars.nlh]
        match runActions s.self (onMessage delivered).acts with
        | none      => .leave none
        | some self =>
          if (onMessage delivered).ret then .again ⟨s.vars.next m 1 delivered, self⟩
          else .leave (some (⟨0, none, delivered⟩, self))
      else .again ⟨s.vars.next m s.vars.ret s.vars.delivered, s.self⟩
    else .leave (some (⟨-1, some ESRCH, s.vars.delivered⟩, s.self))
  else .leave (some (⟨s.vars.ret, none, s.vars.delivered⟩, s.self))

/-- `extract_netlink_message` with a bound on the rounds of its loop. -/
def extractNetlinkMessage (fuel : Nat) (m : Mem) (self : NlReceiver) (recvbytes : Nat)
    (onMessage : OnMessage) : Option LoopResult :=
  Loop.run (extractRound m onMessage) fuel ⟨extractStart recvbytes, self⟩

/-- What `sancus_nl_recvfrom` gives: an error, with what `on_error` does then, or a datagram, with
    the `on_message` that is called for its messages. -/
inductive Reply where
  | failed (acts : List Action)
  | datagram (fuel : Nat) (m : Mem) (recvbytes : Nat) (onMessage : OnMessage)

/-- A datagram comes from an open descriptor, and fits the buffer. -/
def Reply.Possible (self : NlReceiver) : Reply → Prop
  | .failed _                 => True
  | .datagram _ _ recvbytes _ => 0 ≤ self.fd ∧ recvbytes ≤ SANCUS_NL_SOCKET_BUFFER_SIZE

instance (self : NlReceiver) (reply : Reply) : Decidable (reply.Possible self) := by
  cases reply <;> unfold Reply.Possible <;> infer_instance

/-- The part of `recv_cb` for `SANCUS_EV_READ`; `none` when the loop has not ended, or an
    assertion fails. -/
def recvRead (self : NlReceiver) : Reply → Option NlReceiver
  | .failed acts => runActions { self with errors := self.errors ++ [.recvfromError] } acts
  | .datagram fuel m recvbytes onMessage => do
    let (r, self) ← (extractNetlinkMessage fuel m self recvbytes onMessage).join
    return if r.ret = 0 then sancusClose2 self else self

/-- The part of `recv_cb` for `SANCUS_EV_ERROR`, and what `on_error` does. -/
def recvError (self : NlReceiver) (acts : List Action) : Option NlReceiver := do
  let self ← sancusNlReceiverClose (sancusNlReceiverStop self)
  runActions { self with errors := self.errors ++ [.watcherError] } acts

/-- `recv_cb`: the event is readable when there is a reply, and an error when there are the
    actions of an `on_error`. -/
def recvCb (self : NlReceiver) (read : Option Reply) (error : Option (List Action)) :
    Option NlReceiver := do
  let self ← match read with
    | none       => some self
    | some reply => recvRead self reply
  match error with
  | none      => some self
  | some acts => recvError self acts

/-- What happens to a receiver: a call of the application, or an event. -/
inductive Label where
  | action (a : Action)
  | event (read : Option Reply) (error : Option (List Action))

/-- One step; `none` when an assertion fails, or when there can be no such event. -/
def step (self : NlReceiver) : Label → Option NlReceiver
  | .action a         => a.run self
  | .event read error =>
    if self.active ∧ ∀ reply ∈ read, reply.Possible self then recvCb self read error else none

variable {m : Mem} {onMessage : OnMessage} {s s' : LoopState} {self self' : NlReceiver}

/-- An event is handled in two parts. -/
theorem step_event {read : Option Reply} {error : Option (List Action)} :
    step self (.event read error) = some self' ↔
      (self.active ∧ ∀ reply ∈ read, reply.Possible self) ∧
        ∃ self₁, read.elim (some self) (recvRead self) = some self₁ ∧
          error.elim (some self₁) (recvError self₁) = some self' := by
  rw [step, Option.ite_none_right_eq_some]
  cases read <;> cases error <;> simp [recvCb, Option.bind_eq_some_iff]

/-! ### The rounds of the loop -/

/-- The loop without actions, whose `on_message` returns the same. -/
def plain (self : NlReceiver) (onMessage : OnMessage) : Receiver :=
  ⟨self.portid, fun delivered => (onMessage delivered).ret⟩

@[simp] theorem plain_portid (self : NlReceiver) (onMessage : OnMessage) :
    (plain self onMessage).portid = self.portid := rfl

@[simp] theorem plain_onMessage (self : NlReceiver) (onMessage : OnMessage)
    (delivered : List Nat) :
    (plain self onMessage).onMessage delivered = (onMessage delivered).ret := rfl

/-- The message at hand is handed to `on_message`. -/
def HandsOver (m : Mem) (s : LoopState) : Prop :=
  Passes m (intToUnsigned 32 s.self.portid) s.vars.nlh s.vars.len ∧
    NLMSG_MIN_TYPE ≤ nlmsgType m s.vars.nlh

/-- A round of the loop without actions, with the receiver as it is then. -/
def withSelf (self : NlReceiver) :
    Round ExtractState ExtractResult → Round LoopState LoopResult
  | .again vars => .again ⟨vars, self⟩
  | .leave r    => .leave (some (r, self))

/-- A round that hands a message over is one of the loop without actions, after those of the
    callback. -/
theorem extractRound_of_handsOver (h : HandsOver m s) : extractRound m onMessage s =
    (runActions s.self (onMessage (s.vars.delivered ++ [s.vars.nlh])).acts).elim (.leave none)
      fun self => withSelf self (Netlink.extractRound m (plain s.self onMessage) s.vars) := by
  obtain ⟨⟨hok, hport⟩, htype⟩ := h
  cases hacts : runActions s.self (onMessage (s.vars.delivered ++ [s.vars.nlh])).acts with
  | none => simp [extractRound, hok, hport, htype, hacts]
  | some self =>
    cases hret : (onMessage (s.vars.delivered ++ [s.vars.nlh])).ret <;>
      simp [extractRound, Netlink.extractRound, hok, hport, htype, hacts, hret, withSelf]

/-- Every other round leaves the receiver alone. -/
theorem extractRound_of_not (h : ¬ HandsOver m s) : extractRound m onMessage s =
    withSelf s.self (Netlink.extractRound m (plain s.self onMessage) s.vars) := by
  simp only [extractRound, Netlink.extractRound, plain_portid, plain_onMessage]
  by_cases hok : sancusNlMsgOk m s.vars.nlh s.vars.len = true
  · by_cases hport : sancusNlMsgPortidOk m s.vars.nlh (intToUnsigned 32 s.self.portid) = true
    · have htype : ¬ NLMSG_MIN_TYPE ≤ nlmsgType m s.vars.nlh := fun htype => h ⟨⟨hok, hport⟩, htype⟩
      simp only [hok, hport, htype, if_true, if_false]
      rfl
    · simp only [hok, hport, if_true]
      rfl
  · simp only [hok]
    rfl

/-- The receiver at the end of a round. -/
def roundSelf : Round LoopState LoopResult → Option NlReceiver
  | .again s => some s.self
  | .leave r => r.map Prod.snd

@[simp] theorem roundSelf_withSelf (self : NlReceiver) (round : Round ExtractState ExtractResult) :
    roundSelf (withSelf self round) = some self := by
  cases round <;> rfl

/-- **What a round does to the receiver.**  It ends with the receiver as it was, or as the
    callback leaves it. -/
theorem roundSelf_extractRound (h : roundSelf (extractRound m onMessage s) = some self') :
    self' = s.self ∨ HandsOver m s ∧
      runActions s.self (onMessage (s.vars.delivered ++ [s.vars.nlh])).acts = some self' := by
  by_cases hover : HandsOver m s
  · rw [extractRound_of_handsOver hover] at h
    refine .inr ⟨hover, ?_⟩
    cases hacts : runActions s.self (onMessage (s.vars.delivered ++ [s.vars.nlh])).acts with
    | none =>
      rw [hacts] at h
      cases h
    | some self =>
      rw [hacts] at h
      simpa using h
  · rw [extractRound_of_not hover, roundSelf_withSelf] at h
    exact .inl (Option.some.inj h).symm

/-- **A property the actions keep** is kept by the loop. -/
theorem loop_keeps {I : NlReceiver → Prop} {fuel recvbytes : Nat} {r : ExtractResult}
    (hacts : ∀ s, Loop.Visits (extractRound m onMessage) ⟨extractStart recvbytes, self⟩ s →
      HandsOver m s → ∀ self', I s.self →
        runActions s.self (onMessage (s.vars.delivered ++ [s.vars.nlh])).acts = some self' →
          I self')
    (hself : I self) (h : extractNetlinkMessage fuel m self recvbytes onMessage =
      some (some (r, self'))) : I self' := by
  obtain ⟨s, hs, hleave⟩ := Loop.returns_iff_visits.mp (Loop.returns_of_run h)
  -- Induction on the rounds gone through; the last one may call back too before it leaves.
  have hI : I s.self := by
    clear hleave
    induction hs with
    | refl => exact hself
    | tail hvisits hround ih =>
      rcases roundSelf_extractRound (congrArg roundSelf hround) with hsame | ⟨hover, hrun⟩
      · rw [hsame]
        exact ih
      · exact hacts _ hvisits hover _ ih hrun
  rcases roundSelf_extractRound (congrArg roundSelf hleave) with rfl | ⟨hover, hrun⟩
  · exact hI
  · exact hacts s hs hover self' hI hrun

/-! ### Callbacks that do nothing -/

/-- An `on_message` that only answers. -/
def quiet (onMessage : List Nat → Bool) : OnMessage := fun delivered => ⟨[], onMessage delivered⟩

/-- The loop over a datagram is then the loop without actions. -/
theorem extractNetlinkMessage_quiet (fuel : Nat) (m : Mem) (self : NlReceiver) (recvbytes : Nat)
    (onMessage : List Nat → Bool) :
    extractNetlinkMessage fuel m self recvbytes (quiet onMessage) =
      (Netlink.extractNetlinkMessage fuel m ⟨self.portid, onMessage⟩ recvbytes).map
        fun r => some (r, self) := by
  -- The rounds are the same, with the receiver as it was beside them.
  have hround : ∀ vars, extractRound m (quiet onMessage) ⟨vars, self⟩ =
      withSelf self (Netlink.extractRound m ⟨self.portid, onMessage⟩ vars) := by
    intro vars
    by_cases hover : HandsOver m ⟨vars, self⟩
    · rw [extractRound_of_handsOver hover]
      rfl
    · rw [extractRound_of_not hover]
      rfl
  apply Loop.run_map_of_simulates (fun vars => (⟨vars, self⟩ : LoopState))
  · intro vars vars' hagain
    rw [hround, hagain]
    rfl
  · intro vars r hleave
    rw [hround, hleave]
    rfl

def quietReply : RecvReply → Reply
  | .failed                             => .failed []
  | .datagram fuel m recvbytes onMessage => .datagram fuel m recvbytes (quiet onMessage)

def quietLabel : Netlink.Label → Label
  | .start            => .action .start
  | .stop             => .action .stop
  | .close            => .action .close
  | .event read error => .event (read.map quietReply) (if error then some [] else none)

/-- The receiver of a state in which no assertion has failed. -/
def receiverOf (s : RecvState) : Option NlReceiver := if s.aborted then none else some s.receiver

theorem recvRead_quiet (self : NlReceiver) (reply : RecvReply) :
    recvRead self (quietReply reply) = Netlink.recvRead self reply := by
  cases reply with
  | failed => rfl
  | datagram fuel m recvbytes onMessage =>
    show (extractNetlinkMessage fuel m self recvbytes (quiet onMessage)).join.bind _ = _
    rw [extractNetlinkMessage_quiet, Netlink.recvRead]
    cases Netlink.extractNetlinkMessage fuel m ⟨self.portid, onMessage⟩ recvbytes <;> rfl

theorem recvError_quiet (self : NlReceiver) :
    recvError self [] = receiverOf (Netlink.recvError self) := by
  unfold recvError Netlink.recvError
  cases sancusNlReceiverClose (sancusNlReceiverStop self) <;> rfl

theorem recvCb_quiet (self : NlReceiver) (read : Option RecvReply) (error : Bool) :
    recvCb self (read.map quietReply) (if error then some [] else none) =
      (Netlink.recvCb self read error).bind receiverOf := by
  have herror : ∀ self', (if error then recvError self' [] else some self') =
      receiverOf (if error then Netlink.recvError self' else ⟨self', false⟩) := by
    intro self'
    cases error with
    | false => rfl
    | true => exact recvError_quiet self'
  cases read with
  | none =>
    rw [Netlink.recvCb, Option.map_some, Option.bind_some, ← herror]
    cases error <;> rfl
  | some reply =>
    show (recvRead self (quietReply reply)).bind _ = _
    rw [recvRead_quiet, Netlink.recvCb]
    cases Netlink.recvRead self reply with
    | none => rfl
    | some self' =>
      rw [Option.map_some, Option.bind_some, Option.bind_some, ← herror]
      cases error <;> rfl

/-- A step of a receiver whose callbacks do nothing is one of the machine without actions. -/
theorem step_quiet (self : NlReceiver) (a : Netlink.Label) :
    step self (quietLabel a) = (Netlink.step ⟨self, false⟩ a).bind receiverOf := by
  cases a with
  | start =>
    show sancusNlReceiverStart self = ((sancusNlReceiverStart self).map _).bind receiverOf
    cases sancusNlReceiverStart self <;> rfl
  | stop => rfl
  | close =>
    show sancusNlReceiverClose self = ((sancusNlReceiverClose self).map _).bind receiverOf
    cases sancusNlReceiverClose self <;> rfl
  | event read error =>
    have hpossible : (∀ reply ∈ read.map quietReply, reply.Possible self) ↔
        ∀ reply ∈ read, reply.Possible self := by
      cases read with
      | none => simp
      | some reply => cases reply <;> simp [quietReply, Reply.Possible, RecvReply.Possible]
    show (if self.active ∧ _ then recvCb self _ _ else none) =
      (if self.active ∧ _ then Netlink.recvCb self read error else none).bind receiverOf
    by_cases hcond : self.active = true ∧ ∀ reply ∈ read, reply.Possible self
    · rw [if_pos hcond, if_pos ⟨hcond.1, hpossible.mpr hcond.2⟩, recvCb_quiet]
    · rw [if_neg hcond, if_neg fun h => hcond ⟨h.1, hpossible.mp h.2⟩]
      rfl

/-- **Receivers whose callbacks do nothing.**  Their runs are those of the machine without
    actions in which no assertion fails. -/
theorem run_quiet (labels : List Netlink.Label) (self self' : NlReceiver) :
    Machine.run step self (labels.map quietLabel) = some self' ↔
      Machine.run Netlink.step ⟨self, false⟩ labels = some ⟨self', false⟩ := by
  induction labels generalizing self with
  | nil => simp [Machine.run]
  | cons a labels ih =>
    rw [List.map_cons, Machine.run, Machine.run, step_quiet]
    cases hstep : Netlink.step ⟨self, false⟩ a with
    | none => simp
    | some t =>
      obtain ⟨self₁, aborted⟩ := t
      cases aborted with
      | false => exact ih self₁
      | true =>
        -- nothing follows a failed assertion
        refine iff_of_false (by simp [receiverOf]) ?_
        cases labels with
        | nil => simp [Machine.run]
        | cons b labels => simp [Machine.run, Netlink.step]

end Sancus.Netlink.Acting
