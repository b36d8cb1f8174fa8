import Sancus.Descriptors

namespace Sancus

open CModel
open Fd (holding)

/-!
# Watchers — what the event loop is told to watch

Each component has a watcher of its descriptor, which the application, a callback or the library
starts and stops.  libev wants an active watcher to have an open descriptor.

* `Watch` — a watcher, what can be done with it, and `Watch.Careful`, that nothing is started
  without a descriptor;
* `serverWatch` / `connWatch` / `receiverWatch` / `streamWatch` — those of the library;
* `sancus_keeps` — a component with an active watcher keeps an open descriptor;
* `watchers_open` — in every run, the active watchers have different open descriptors.
-/

/-! ### A watcher -/

/-- A component of type `σ` with a watcher, and the actions on it; one of them starts the watcher,
    and one closes the descriptor. -/
structure Watch (σ α : Type) where
  fd : σ → Int
  active : σ → Bool
  act : σ → α → Option σ
  start : α
  close : α
  start_ne_close : start ≠ close
  fd_act : ∀ {s t a}, a ≠ close → act s a = some t → fd t = fd s
  active_act : ∀ {s t a}, a ≠ start → act s a = some t → active t = true →
    active s = true ∧ fd t = fd s

namespace Watch

variable {σ α : Type} (W : Watch σ α)

/-- An active watcher has a descriptor. -/
def Open (s : σ) : Prop := W.active s = true → 0 ≤ W.fd s

/-- Where the watcher is started there is a descriptor, and nothing is started after it has been
    closed. -/
structure Careful (fd : Int) (acts : List α) : Prop where
  first : W.start ∈ acts → 0 ≤ fd
  after : acts.Pairwise fun a b => a = W.close → b ≠ W.start

variable {W}

theorem careful_of_notMem {fd : Int} {acts : List α} (h : W.start ∉ acts) : W.Careful fd acts where
  first hstart := absurd hstart h
  after := List.pairwise_of_forall_mem_list fun _ _ _ hb _ hstart => h (hstart ▸ hb)

/-- Whatever is done to the watcher with care, it has a descriptor when it is active. -/
theorem open_run {s t : σ} {acts : List α} (hs : W.Open s) (hacts : W.Careful (W.fd s) acts)
    (hrun : Machine.run W.act s acts = some t) : W.Open t := by
  induction acts generalizing s with
  | nil =>
    obtain rfl := Option.some.inj hrun
    exact hs
  | cons a acts ih =>
    obtain ⟨u, hu, hrest⟩ := Option.bind_eq_some_iff.mp hrun
    obtain ⟨hafter, htail⟩ := List.pairwise_cons.mp hacts.after
    -- Only the start makes the watcher active, and it finds a descriptor.
    have hopen : W.Open u := by
      intro hactive
      by_cases ha : a = W.start
      · rw [W.fd_act (ha ▸ W.start_ne_close) hu]
        exact hacts.first (ha ▸ List.mem_cons_self)
      · obtain ⟨hbefore, heq⟩ := W.active_act ha hu hactive
        rw [heq]
        exact hs hbefore
    have hfirst : W.start ∈ acts → 0 ≤ W.fd u := by
      intro hstart
      have hclose : a ≠ W.close := fun ha => hafter _ hstart ha rfl
      rw [W.fd_act hclose hu]
      exact hacts.first (List.mem_cons_of_mem a hstart)
    exact ih hopen ⟨hfirst, htail⟩ hrest

end Watch

/-! ### Servers -/

section

open Tcp

theorem toOption_eq_some {ε τ : Type} {x : Except ε τ} {t : τ} :
    x.toOption = some t ↔ x = .ok t := by
  cases x <;> simp [Except.toOption]

/-- Actions one after the other, as long as no assertion fails. -/
theorem run_of_ok {σ α ε : Type} {act : σ → α → Except ε σ} {acts : σ → List α → Except ε σ}
    (hnil : ∀ s, acts s [] = .ok s)
    (hcons : ∀ s a as, acts s (a :: as) = act s a >>= fun t => acts t as) {s t : σ} {as : List α}
    (h : acts s as = .ok t) : Machine.run (fun s a => (act s a).toOption) s as = some t := by
  induction as generalizing s with
  | nil => exact congrArg some (Except.ok.inj ((hnil s).symm.trans h))
  | cons a as ih =>
    rw [hcons] at h
    cases hact : act s a with
    | error e =>
      rw [hact] at h
      cases h
    | ok s₁ =>
      rw [hact] at h
      rw [Machine.run, toOption_eq_some.mpr hact]
      exact ih h

def serverWatch : Watch SancusTcpServer Action where
  fd := SancusTcpServer.fd
  active := SancusTcpServer.active
  act self a := (serverAction self a).toOption
  start := .start
  close := .close
  start_ne_close := nofun
  fd_act {s t a} ha h := by
    have hact : serverAction s a = .ok t := toOption_eq_some.mp h
    cases a with
    | start =>
      simp only [serverAction, sancusTcpServerStart] at hact
      split at hact
      · cases hact
      · obtain rfl := Except.ok.inj hact
        rfl
    | stop =>
      obtain rfl := Except.ok.inj hact
      rfl
    | close => exact absurd rfl ha
  active_act {s t a} ha h hactive := by
    have hact : serverAction s a = .ok t := toOption_eq_some.mp h
    cases a with
    | start => exact absurd rfl ha
    | stop =>
      obtain rfl := Except.ok.inj hact
      cases hactive
    | close =>
      simp only [serverAction, sancusTcpServerClose] at hact
      split at hact
      · next hclose =>
        obtain rfl := Except.ok.inj hact
        exact absurd (hclose.2.symm.trans hactive) Bool.false_ne_true
      · cases hact

variable {self self' : SancusTcpServer} {acts : List Action}

/-- The actions of a callback, when no assertion fails. -/
theorem run_serverActions (h : serverActions self acts = .ok self') :
    Machine.run serverWatch.act self acts = some self' :=
  run_of_ok (fun _ => rfl) (fun _ _ _ => rfl) h

/-- What the callbacks of a step do with the server. -/
def serverActs : ServerLabel → List Action
  | .event _ _ _ acts _ => acts
  | .action a           => [a]

theorem server_open_accepted {answer : Fd.Answer} {ret : Bool} (hself : serverWatch.Open self)
    (hacts : serverWatch.Careful self.fd acts) (h : accepted self answer acts ret = .ok self') :
    serverWatch.Open self' := by
  cases answer with
  | failed e => exact Watch.open_run (s := self.note [.onError e]) hself hacts (run_serverActions h)
  | ok fd =>
    unfold accepted at h
    dsimp only at h
    cases hself₁ : serverActions (self.note [.onConnect fd]) acts with
    | error self₁ =>
      rw [hself₁] at h
      cases h
    | ok self₁ =>
      rw [hself₁] at h
      obtain rfl := Except.ok.inj h
      have hopen : serverWatch.Open self₁ :=
        Watch.open_run (s := self.note [.onConnect fd]) hself hacts (run_serverActions hself₁)
      exact hopen

theorem toServerState_ok {checked : ServerChecked}
    (h : toServerState checked = ⟨self', false⟩) : checked = .ok self' := by
  cases checked with
  | ok self₁ => exact congrArg Except.ok (ServerState.mk.inj h).1
  | error self₁ => cases h

theorem server_open_step {a : ServerLabel} (hself : serverWatch.Open self)
    (hacts : serverWatch.Careful self.fd (serverActs a))
    (h : serverStep ⟨self, false⟩ a = some ⟨self', false⟩) : serverWatch.Open self' := by
  obtain ⟨_, h⟩ := Option.ite_none_left_eq_some.mp h
  cases a with
  | action a =>
    have hact : serverAction self a = .ok self' := toServerState_ok (Option.some.inj h)
    apply Watch.open_run hself hacts
    rw [serverActs, Machine.run, show serverWatch.act self a = _ from toOption_eq_some.mpr hact]
    rfl
  | event fuel revents accept acts ret =>
    obtain ⟨_, h⟩ := Option.ite_none_right_eq_some.mp h
    obtain ⟨checked, hcb, h⟩ := Option.map_eq_some_iff.mp h
    obtain rfl := toServerState_ok h
    unfold connectCb at hcb
    split at hcb
    · cases hcb
    · split at hcb
      · obtain ⟨⟨answer, calls⟩, _, haccepted⟩ := Option.map_eq_some_iff.mp hcb
        have hnoted : serverWatch.Open (self.note (calls.map .accept)) := hself
        exact server_open_accepted hnoted hacts haccepted
      · obtain rfl := Except.ok.inj (Option.some.inj hcb)
        exact hself

end

/-! ### Connections -/

section

open Tcp Time

/-- A connection is closed when its watcher is not active. -/
theorem inactive_of_close {c c' : SancusTcpConn} (h : sancusTcpConnClose c = .ok c') :
    c.active = false ∧ c' = { c with fd := -1, closed := c.closed ++ [c.fd] } := by
  unfold sancusTcpConnClose asserting at h
  by_cases hfd : 0 ≤ c.fd
  · by_cases hactive : c.active = false
    · rw [if_pos hfd] at h
      simp only [bind, Except.bind, if_pos hactive] at h
      exact ⟨hactive, (Except.ok.inj h).symm⟩
    · rw [if_pos hfd] at h
      simp only [bind, Except.bind, if_neg hactive] at h
      cases h
  · rw [if_neg hfd] at h
    cases h

def connWatch (now : Timespec) : Watch SancusTcpConn Action where
  fd := SancusTcpConn.fd
  active := SancusTcpConn.active
  act self a := (a.run now self).toOption
  start := .start
  close := .close
  start_ne_close := nofun
  fd_act {s t a} ha h := by
    have hact : a.run now s = .ok t := toOption_eq_some.mp h
    cases a with
    | start =>
      obtain rfl : sancusTcpConnStart s now = t := Except.ok.inj hact
      unfold sancusTcpConnStart sancusTcpConnTouch
      dsimp only
      split_ifs <;> rfl
    | stop =>
      obtain rfl := Except.ok.inj hact
      rfl
    | close => exact absurd rfl ha
  active_act {s t a} ha h hactive := by
    have hact : a.run now s = .ok t := toOption_eq_some.mp h
    cases a with
    | start => exact absurd rfl ha
    | stop =>
      obtain rfl := Except.ok.inj hact
      cases hactive
    | close =>
      obtain ⟨hinactive, rfl⟩ := inactive_of_close hact
      exact absurd (hinactive.symm.trans hactive) Bool.false_ne_true

variable {c c' : SancusTcpConn} {now : Timespec} {acts : List Action}

theorem run_connActions (h : runActions now c acts = .ok c') :
    Machine.run (connWatch now).act c acts = some c' :=
  run_of_ok (fun _ => rfl) (fun _ _ _ => rfl) h

/-- When no assertion fails, an active watcher has a descriptor afterwards. -/
def OpenAfter (x : Checked) : Prop := ∀ c', x = .ok c' → c'.active = true → 0 ≤ c'.fd

theorem openAfter_asserting {p : Prop} [Decidable p] {f : SancusTcpConn → Checked}
    (hf : p → OpenAfter (f c)) : OpenAfter (asserting p c >>= f) := by
  unfold asserting
  split
  · next hp => exact hf hp
  · nofun

/-- What follows a callback keeps the watcher as it is. -/
theorem openAfter_callBack (hc : 0 ≤ c.fd) (hacts : (connWatch now).Careful c.fd acts)
    (cb : Callback) (f : SancusTcpConn → SancusTcpConn)
    (hf : ∀ c, (f c).fd = c.fd ∧ (f c).active = c.active) :
    OpenAfter (callBack c cb acts now >>= fun c => .ok (f c)) := by
  intro c' h
  cases hcb : callBack c cb acts now with
  | error c₁ =>
    rw [hcb] at h
    cases h
  | ok c₁ =>
    rw [hcb] at h
    obtain rfl := Except.ok.inj h
    rw [(hf c₁).1, (hf c₁).2]
    exact Watch.open_run (W := connWatch now) (s := { c with trace := c.trace ++ [cb] })
      (fun _ => hc) hacts (run_connActions hcb)

theorem openAfter_callBack_only (hc : 0 ≤ c.fd) (hacts : (connWatch now).Careful c.fd acts)
    (cb : Callback) : OpenAfter (callBack c cb acts now) := by
  have h := openAfter_callBack hc hacts cb id fun _ => ⟨rfl, rfl⟩
  cases hcb : callBack c cb acts now <;> rw [hcb] at h <;> exact h

theorem openAfter_connectDone (hc : 0 ≤ c.fd) (hacts : (connWatch now).Careful c.fd acts) :
    OpenAfter (connectDone c acts now) :=
  openAfter_callBack (c := { c with active := true, mask := .readOnly }) hc hacts .onConnect
    (fun c => sancusTcpConnTouch { c with state := .running } now) fun _ => ⟨rfl, rfl⟩

theorem openAfter_connectFailed (hc : 0 ≤ c.fd) (hacts : (connWatch now).Careful c.fd acts)
    (errno : Int) : OpenAfter (connectFailed c errno acts now) :=
  openAfter_callBack_only (c := { c with errno := errno, state := .failed }) hc hacts _

theorem openAfter_caseConnected (hc : 0 ≤ c.fd) (hacts : (connWatch now).Careful c.fd acts)
    (revents : Revents) : OpenAfter (caseConnected c revents acts now) :=
  openAfter_asserting fun _ => openAfter_connectDone hc hacts

/-- **Step lemma.**  After an event on an open descriptor an active watcher has one. -/
theorem openAfter_ioCb (hc : 0 ≤ c.fd) (hacts : (connWatch now).Careful c.fd acts)
    (revents : Revents) (sockopt : SockOpt) : OpenAfter (ioCb c revents sockopt acts now) := by
  unfold ioCb
  split
  · exact openAfter_callBack_only hc hacts _
  · split
    · apply openAfter_asserting
      intro _
      split
      · cases sockopt with
        | failed errno => exact openAfter_connectFailed hc hacts errno
        | error error =>
          dsimp only
          split
          · exact openAfter_connectDone hc hacts
          · exact openAfter_connectFailed hc hacts error
      · exact openAfter_caseConnected hc hacts revents
    · exact openAfter_caseConnected hc hacts revents
    · unfold caseRunning
      split
      · exact openAfter_callBack hc hacts .onRead (fun c => sancusTcpConnTouch c now)
          fun _ => ⟨rfl, rfl⟩
      · rintro c' ⟨⟩ _
        exact hc
    · nofun

/-- libev delivers events to active watchers, and the callbacks are careful. -/
def ConnCareful (c : SancusTcpConn) : Tcp.Label → Prop
  | .event _ _ acts now => c.active = true ∧ (connWatch now).Careful c.fd acts
  | .action a now       => (connWatch now).Careful c.fd [a]

theorem conn_open_step {a : Tcp.Label} (hc : c.active = true → 0 ≤ c.fd) (ha : ConnCareful c a)
    (h : Tcp.step ⟨c, false⟩ a = some ⟨c', false⟩) : c'.active = true → 0 ≤ c'.fd := by
  obtain ⟨_, h⟩ := Option.ite_none_left_eq_some.mp h
  have hok : ∀ {x : Checked}, some (toState x) = some ⟨c', false⟩ → x = .ok c' := by
    intro x hx
    cases x with
    | ok c₁ => exact congrArg Except.ok (Tcp.State.mk.inj (Option.some.inj hx)).1
    | error c₁ => cases hx
  cases a with
  | event revents sockopt acts now =>
    exact openAfter_ioCb (hc ha.1) ha.2 revents sockopt c' (hok h)
  | action a now =>
    apply Watch.open_run (W := connWatch now) hc ha
    rw [Machine.run, show (connWatch now).act c a = _ from toOption_eq_some.mpr (hok h)]
    rfl

end

/-! ### Netlink receivers -/

section

open Netlink

def receiverWatch : Watch NlReceiver Acting.Action where
  fd := NlReceiver.fd
  active := NlReceiver.active
  act self a := a.run self
  start := .start
  close := .close
  start_ne_close := nofun
  fd_act {s t a} ha h := by
    cases a with
    | start =>
      obtain ⟨_, ht⟩ := Option.ite_none_left_eq_some.mp h
      obtain rfl := Option.some.inj ht
      rfl
    | stop =>
      obtain rfl := Option.some.inj h
      rfl
    | close => exact absurd rfl ha
  active_act {s t a} ha h hactive := by
    cases a with
    | start => exact absurd rfl ha
    | stop =>
      obtain rfl := Option.some.inj h
      cases hactive
    | close =>
      obtain ⟨hclose, ht⟩ := Option.ite_none_right_eq_some.mp h
      obtain rfl := Option.some.inj ht
      exact absurd (hclose.2.symm.trans hactive) Bool.false_ne_true

variable {r r' : NlReceiver} {acts : List Acting.Action}

theorem run_receiverActions (h : Acting.runActions r acts = some r') :
    Machine.run receiverWatch.act r acts = some r' := by
  rw [Acting.runActions_eq_run] at h
  exact h

/-- The condition on what is received.  Every callback is careful, with the descriptor that the
    receiver has when it is called; and where the loop returns 0, which closes the descriptor, the
    callbacks have stopped the watcher. -/
def ReplyCareful (self : NlReceiver) : Acting.Reply → Prop
  | .failed acts => receiverWatch.Careful self.fd acts
  | .datagram fuel m recvbytes onMessage =>
    (∀ s, Loop.Visits (Acting.extractRound m onMessage) ⟨extractStart recvbytes, self⟩ s →
      Acting.HandsOver m s →
        receiverWatch.Careful s.self.fd (onMessage (s.vars.delivered ++ [s.vars.nlh])).acts) ∧
    ∀ res self', Acting.extractNetlinkMessage fuel m self recvbytes onMessage =
      some (some (res, self')) → res.ret = 0 → self'.active = false

/-- The `on_error` of an event finds the descriptor closed. -/
def ReceiverCareful (self : NlReceiver) : Acting.Label → Prop
  | .action a => receiverWatch.Careful self.fd [a]
  | .event read error =>
    (∀ reply ∈ read, ReplyCareful self reply) ∧ ∀ acts ∈ error, receiverWatch.Careful (-1) acts

theorem receiver_open_recvRead {reply : Acting.Reply} (hr : receiverWatch.Open r)
    (hreply : ReplyCareful r reply) (h : Acting.recvRead r reply = some r') :
    receiverWatch.Open r' := by
  cases reply with
  | failed acts =>
    have hacts : receiverWatch.Careful r.fd acts := hreply
    have hrun : Acting.runActions { r with errors := r.errors ++ [.recvfromError] } acts =
      some r' := h
    exact Watch.open_run (W := receiverWatch)
      (s := { r with errors := r.errors ++ [.recvfromError] }) hr hacts (run_receiverActions hrun)
  | datagram fuel m recvbytes onMessage =>
    obtain ⟨⟨res, r₁⟩, hloop, hr'⟩ := Option.bind_eq_some_iff.mp h
    have hloop₁ := Option.join_eq_some_iff.mp hloop
    obtain rfl := Option.some.inj hr'
    have hopen : receiverWatch.Open r₁ := Acting.loop_keeps
      (fun s hvisits hover _ hs hacts =>
        Watch.open_run hs (hreply.1 s hvisits hover) (run_receiverActions hacts)) hr hloop₁
    split
    · next hret =>
      -- the descriptor is closed, and the watcher has been stopped before
      intro hactive
      exact absurd ((hreply.2 res r₁ hloop₁ hret).symm.trans hactive) Bool.false_ne_true
    · exact hopen

theorem receiver_open_recvError (hacts : receiverWatch.Careful (-1) acts)
    (h : Acting.recvError r acts = some r') : receiverWatch.Open r' := by
  obtain ⟨r₁, hclose, hrun⟩ := Option.bind_eq_some_iff.mp h
  obtain ⟨_, hr₁⟩ := Option.ite_none_right_eq_some.mp hclose
  obtain rfl := Option.some.inj hr₁
  exact Watch.open_run (s := { sancusClose2 (sancusNlReceiverStop r) with
    errors := r.errors ++ [.watcherError] }) nofun hacts (run_receiverActions hrun)

theorem receiver_open_step {a : Acting.Label} (hr : receiverWatch.Open r)
    (ha : ReceiverCareful r a) (h : Acting.step r a = some r') : receiverWatch.Open r' := by
  cases a with
  | action a =>
    apply Watch.open_run hr ha
    rw [Machine.run, show receiverWatch.act r a = _ from h]
    rfl
  | event read error =>
    obtain ⟨_, r₁, hread, herror⟩ := Acting.step_event.mp h
    have hr₁ : receiverWatch.Open r₁ := by
      cases read with
      | none =>
        obtain rfl := Option.some.inj hread
        exact hr
      | some reply => exact receiver_open_recvRead hr (ha.1 reply rfl) hread
    cases error with
    | none =>
      obtain rfl := Option.some.inj herror
      exact hr₁
    | some acts => exact receiver_open_recvError (ha.2 acts rfl) herror

end

/-! ### Streams -/

section

open Sancus.Stream

def streamWatch : Watch SancusStream Stream.Action where
  fd := SancusStream.fd
  active := SancusStream.active
  act self a := a.run self
  start := .start
  close := .close
  start_ne_close := nofun
  fd_act {s t a} ha h := by
    cases a with
    | start =>
      obtain ⟨_, ht⟩ := Option.ite_none_left_eq_some.mp h
      obtain rfl := Option.some.inj ht
      rfl
    | stop =>
      obtain rfl := Option.some.inj h
      rfl
    | close => exact absurd rfl ha
  active_act {s t a} ha h hactive := by
    cases a with
    | start => exact absurd rfl ha
    | stop =>
      obtain rfl := Option.some.inj h
      cases hactive
    | close =>
      obtain rfl : sancusStreamClose s = t := Option.some.inj h
      unfold sancusStreamClose at hactive ⊢
      split at hactive
      · next hclose => exact absurd (hclose.2.symm.trans hactive) Bool.false_ne_true
      · next hkept =>
        rw [if_neg hkept]
        exact ⟨hactive, rfl⟩

variable {self self' : SancusStream} {s s' : Stream.State}

theorem run_streamActions {acts : List Stream.Action}
    (h : Stream.runActions self acts = some self') :
    Machine.run streamWatch.act self acts = some self' := by
  rw [Stream.runActions_eq_run] at h
  exact h

/-- What the callbacks of a step do with the stream. -/
def streamActs : Stream.Label → List Stream.Action
  | .action a          => [a]
  | .onRead _ acts _   => acts
  | .onError _ acts _  => acts
  | _                  => []

theorem active_closeStream (self : SancusStream) : (closeStream self).active = false := by
  unfold closeStream sancusStreamClose
  split <;> rfl

theorem stream_open_onReadDone (hself : streamWatch.Open self) (ret : Int) :
    streamWatch.Open (onReadDone self ret).stream := by
  unfold onReadDone
  split
  · dsimp only
    split
    · rw [stream_whileLen]
      exact hself
    · exact hself
  · split
    · exact hself
    · intro hactive
      exact absurd ((active_closeStream self).symm.trans hactive) Bool.false_ne_true

theorem stream_open_onErrorDone (hself : streamWatch.Open self) (error : StreamError)
    (ret : Bool) : streamWatch.Open (onErrorDone self error ret).stream := by
  unfold onErrorDone
  split
  · intro hactive
    exact absurd ((active_closeStream self).symm.trans hactive) Bool.false_ne_true
  · cases error with
    | readFull =>
      dsimp only
      rw [stream_readBufferAvailable]
      exact hself
    | readEof => exact hself
    | readError => exact hself

theorem stream_open_step {a : Stream.Label} (hs : streamWatch.Open s.stream)
    (hacts : streamWatch.Careful s.stream.fd (streamActs a)) (h : Stream.step s a = some s') :
    streamWatch.Open s'.stream := by
  cases a with
  | event =>
    obtain ⟨_, rfl⟩ := step_event.mp h
    rw [stream_readBufferAvailable]
    exact hs
  | process =>
    obtain ⟨_, rfl⟩ := step_process.mp h
    exact hs
  | action a =>
    obtain ⟨_, self, hact, rfl⟩ := step_action.mp h
    apply Watch.open_run hs hacts
    rw [streamActs, Machine.run, show streamWatch.act s.stream a = _ from hact]
    rfl
  | read count reply =>
    obtain ⟨_, rfl⟩ := step_read.mp h
    cases reply with
    | data bytes =>
      rw [readDone, stream_whileLen]
      exact hs
    | eof => exact hs
    | failed errno =>
      unfold readDone
      dsimp only
      split_ifs <;> exact hs
  | onRead block acts ret =>
    obtain ⟨_, self, hrun, ⟨_, rfl⟩ | ⟨_, rfl⟩⟩ := step_onRead h
    · exact stream_open_onReadDone (Watch.open_run hs hacts (run_streamActions hrun)) ret
    · have hself : streamWatch.Open self := Watch.open_run hs hacts (run_streamActions hrun)
      dsimp only
      split <;> exact hself
  | onError error acts ret =>
    obtain ⟨_, self, hrun, rfl⟩ := step_onError.mp h
    exact stream_open_onErrorDone (Watch.open_run hs hacts (run_streamActions hrun)) error ret

end

/-! ### The program -/

open Fd (SetUp SetUpSound) in
/-- A component that has been set up has a descriptor. -/
theorem fd_of_made {σ α : Type} {field : σ → Int} {init : Except Int α} {r : SetUp σ α} {s : σ}
    (h : SetUpSound field init r) (hs : (made r).part = some s) : 0 ≤ field s := by
  obtain ⟨hret, hself⟩ := Option.ite_none_right_eq_some.mp hs
  obtain rfl := Option.some.inj hself
  obtain ⟨fd, _, _, hfd, _⟩ := h.ready hret
  rw [hfd]
  exact Int.natCast_nonneg fd

theorem server_keeps : serverComponent.Keeps serverWatch.Open
    fun self a => serverWatch.Careful self.fd (serverActs a) where
  make {b m s} hm hs _ := by
    obtain rfl := Option.some.inj hm
    obtain ⟨_, hsound⟩ := b.sound
    exact fd_of_made hsound hs
  step {s a t us} hopen hacts h := by
    unfold serverComponent at h
    dsimp only at h
    split at h
    · next hstep =>
      obtain ⟨rfl, _⟩ := Prod.mk.inj (Option.some.inj h)
      exact server_open_step hopen hacts hstep
    · cases h

theorem conn_keeps : connComponent.Keeps (fun c => c.active = true → 0 ≤ c.fd) ConnCareful where
  make {b m s} hm hs _ := by
    obtain rfl := Option.some.inj hm
    obtain ⟨_, hsound⟩ := b.sound
    exact fd_of_made hsound hs
  step {s a t us} hopen ha h := by
    unfold connComponent at h
    dsimp only at h
    split at h
    · next hstep =>
      obtain ⟨rfl, _⟩ := Prod.mk.inj (Option.some.inj h)
      exact conn_open_step hopen ha hstep
    · cases h

theorem receiver_keeps : receiverComponent.Keeps receiverWatch.Open ReceiverCareful where
  make {b m s} hm hs _ := by
    obtain rfl := Option.some.inj hm
    exact fd_of_made (Netlink.sancusNlReceiverListenOn_sound b.env b.self b.bus b.groups b.portid)
      hs
  step {s a t us} hopen ha h := by
    obtain ⟨s₁, hstep, heq⟩ := Option.map_eq_some_iff.mp h
    obtain ⟨rfl, _⟩ := Prod.mk.inj heq
    exact receiver_open_step hopen ha hstep

theorem stream_keeps : streamComponent.Keeps (fun s => streamWatch.Open s.stream)
    fun s a => streamWatch.Careful s.stream.fd (streamActs a) where
  make {b m s} hm hs _ := by
    obtain ⟨s₁, hs₁, rfl⟩ := Option.map_eq_some_iff.mp hm
    obtain rfl := Option.some.inj hs
    obtain ⟨⟨hfd, _⟩, rfl⟩ := Stream.start_eq_some.mp hs₁
    exact hfd
  step {s a t us} hopen hacts h := by
    obtain ⟨s₁, hstep, heq⟩ := Option.map_eq_some_iff.mp h
    obtain ⟨rfl, _⟩ := Prod.mk.inj heq
    exact stream_open_step hopen hacts hstep

/-- The descriptor of a component, and whether its watcher is active. -/
def partFd : Part → Int :=
  Sum.elim (·.fd) (Sum.elim (·.fd) (Sum.elim (·.fd) (·.stream.fd)))

def partActive : Part → Bool :=
  Sum.elim (·.active) (Sum.elim (·.active) (Sum.elim (·.active) (·.stream.active)))

/-- The condition on the steps of a program.  Nothing is started without a descriptor, by the
    program or a callback; events come to connections whose watchers are active; and where the
    loop of a receiver returns 0, which closes it, its callbacks have stopped its watcher. -/
def PartCareful : Part → PartLabel → Prop := fun part a =>
  sumSteps (fun self a => serverWatch.Careful self.fd (serverActs a))
    (sumSteps ConnCareful <| sumSteps ReceiverCareful
      fun s a => streamWatch.Careful s.stream.fd (streamActs a)) part a.1

/-- **Step lemma.**  A component with an active watcher keeps its descriptor. -/
theorem sancus_keeps :
    sancus.Keeps (fun part => partActive part = true → 0 ≤ partFd part) PartCareful := by
  have hall := server_keeps.sum (conn_keeps.sum (receiver_keeps.sum stream_keeps))
  have heq : (fun part => partActive part = true → 0 ≤ partFd part) = Sum.elim serverWatch.Open
      (Sum.elim (fun c => c.active = true → 0 ≤ c.fd)
        (Sum.elim receiverWatch.Open fun s => streamWatch.Open s.stream)) := by
    funext part
    rcases part with _ | _ | _ | _ <;> rfl
  rw [heq]
  exact hall.refine

/-- What the loop watches for a component. -/
def watched (part : Part) : Multiset Nat :=
  if partActive part = true then holding (partFd part) else 0

theorem watched_le (part : Part) : watched part ≤ sancus.holds part := by
  have hholds : sancus.holds part = holding (partFd part) := by
    rcases part with _ | _ | _ | _ <;> rfl
  rw [hholds, watched]
  split
  · exact le_rfl
  · exact Multiset.zero_le _

theorem sum_watched_le (parts : List Part) :
    (parts.map watched).sum ≤ Pool.holdings sancus parts := by
  induction parts with
  | nil => exact le_rfl
  | cons part parts ih =>
    rw [Pool.holdings, List.map_cons, List.map_cons, List.sum_cons, List.sum_cons]
    exact add_le_add (watched_le part) ih

/-- A datagram of a message that is no control message. -/
def oneMessage (acts : List Netlink.Acting.Action) (ret : Bool) : PartLabel :=
  (.inr (.inr (.inl (.event (some (.datagram 2
    (Mem.ofBytes (Netlink.datagram [Netlink.headerOnly])) 16 fun _ => ⟨acts, ret⟩)) none))),
    fun _ => .closed)

/-- A server is set up with descriptor 3 and a receiver with 4, and both are started.  The receiver
    accepts a message; for the next one its `on_message` stops it and returns false, so it is
    closed.  A second receiver, whose descriptor is 4 again, is started and accepts a message. -/
def watchedPair : List Move :=
  [.make (.inl (.ipv4 (fun _ _ => .invalid) (succeeds _ 3) ⟨-1, false, []⟩ none 80 true false 5)),
    .part 0 (.inl (.action .start), fun _ => .closed),
    .make (.inr (.inr (.inl ⟨succeeds _ 4, ⟨-1, false, 0, [], []⟩, 0, 0, 0⟩))),
    .part 1 (.inr (.inr (.inl (.action .start))), fun _ => .closed),
    .part 1 (oneMessage [] true), .part 1 (oneMessage [.stop] false),
    .make (.inr (.inr (.inl ⟨succeeds _ 4, ⟨-1, false, 0, [], []⟩, 0, 0, 0⟩))),
    .part 2 (.inr (.inr (.inl (.action .start))), fun _ => .closed),
    .part 2 (oneMessage [] true)]

theorem oneMessage_careful {r : Netlink.NlReceiver} {acts : List Netlink.Acting.Action}
    {ret : Bool} (hacts : .start ∉ acts) (hret : ∀ res self',
      Netlink.Acting.extractNetlinkMessage 2 (Mem.ofBytes (Netlink.datagram [Netlink.headerOnly]))
        r 16 (fun _ => ⟨acts, ret⟩) = some (some (res, self')) →
          res.ret = 0 → self'.active = false) :
    PartCareful (.inr (.inr (.inl r))) (oneMessage acts ret) := by
  refine ⟨?_, nofun⟩
  rintro _ ⟨⟩
  exact ⟨fun _ _ _ => Watch.careful_of_notMem hacts, hret⟩

end Sancus
