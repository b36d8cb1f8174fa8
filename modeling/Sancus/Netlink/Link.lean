import Sancus.Netlink.Compose
import Sancus.Netlink.RecvCb
import Sancus.Netlink.Validate

namespace Sancus.Netlink

open CModel

/-!
# Netlink — from senders to a receiver

Senders post messages to a socket, and `recv_cb` takes one datagram from it each time it is
called, whenever that is.

* `sancusNlRecvfrom` — the receive function, which refuses what `recvmsg` had to cut;
* `LinkState` / `linkStep` — the datagrams on their way, the receiver, and what its
  `on_message` has read;
* `Message.expected` — what is to be read of a message that is taken;
* `extract_carried` — `extract_netlink_message` on one message;
* `LinkOk.step` — the invariant, and the step lemma;
* `link_delivers` — every message is read once, as it was composed, or not at all.
-/

/-! ### Receiving one datagram -/

def ENOSPC : Nat := 28

/-- `sizeof(struct sockaddr_nl)`. -/
def sizeofSockaddrNl : Nat := 12

/-- What `recvmsg(2)` answers: an error, or the bytes it has stored, whether it has cut the
    datagram (`MSG_TRUNC`), and the length of the address it came from. -/
inductive RecvmsgReply where
  | failed (errno : Nat)
  | received (bytes : List UInt8) (truncated : Bool) (namelen : Nat)

/-- A datagram on its way: its bytes, and the length of the address of its sender. -/
structure Posted where
  bytes : List UInt8
  namelen : Nat

/-- `recvmsg(2)` takes a datagram whole, and stores what fits of it. -/
def Posted.recvmsg (p : Posted) (buflen : Nat) : RecvmsgReply :=
  .received (p.bytes.take buflen) (buflen < p.bytes.length) p.namelen

/-- What `sancus_nl_recvfrom` returns, the `errno` it sets, and the buffer. -/
structure Recvfrom where
  ret : Int
  errno : Option Nat
  buf : Mem

/-- `sancus_nl_recvfrom`. -/
def sancusNlRecvfrom (buf : Mem) : RecvmsgReply → Recvfrom
  | .failed errno => ⟨-1, some errno, buf⟩
  | .received bytes truncated namelen =>
    if truncated then ⟨-1, some ENOSPC, buf.store 0 bytes⟩
    else if namelen ≠ sizeofSockaddrNl then ⟨-1, some EINVAL, buf.store 0 bytes⟩
    else ⟨bytes.length, none, buf.store 0 bytes⟩

/-- What `recv_cb` goes on with, the application answering `keep` for every message. -/
def Recvfrom.reply (r : Recvfrom) (fuel : Nat) (keep : Bool) : RecvReply :=
  if r.ret < 0 then .failed else .datagram fuel r.buf r.ret.toNat fun _ => keep

/-- What `on_message` reads when it is called for the datagram. -/
def Recvfrom.messages (r : Recvfrom) (fuel offset : Nat) (portid : Int) (keep : Bool) :
    Option (List Received) :=
  if r.ret < 0 then some []
  else
    (extractNetlinkMessage fuel r.buf ⟨portid, fun _ => keep⟩ r.ret.toNat).bind fun res =>
      res.delivered.mapM (readMessage fuel offset r.buf)

/-! ### The link -/

structure LinkState where
  receiver : RecvState
  inFlight : List Posted
  seen : List Received

/-- What happens: a sender posts a message, `recv_cb` takes a datagram into a buffer that holds
    `buf`, or something else happens to the receiver. -/
inductive LinkLabel where
  | post (d : Draft) (namelen : Nat)
  | take (fuel : Nat) (buf : Mem) (keep error : Bool)
  | other (a : Label)

/-- The label brings no datagram. -/
def Label.Quiet : Label → Prop
  | .event (some (.datagram _ _ _ _)) _ => False
  | _                                   => True

instance (a : Label) : Decidable a.Quiet := by unfold Label.Quiet; split <;> infer_instance

/-- How often the label makes `recv_cb` report that it could not receive. -/
def Label.failures : Label → Nat
  | .event (some .failed) _ => 1
  | _                       => 0

/-- How often `on_error` has been told so. -/
def NlReceiver.failures (self : NlReceiver) : Nat := self.errors.count .recvfromError

/-- One step of a link to a receiver with a buffer of `bufsize` bytes, the messages of which
    have an extra header of the size `extra`. -/
def linkStep (bufsize : Nat) (extra : Option Nat) (s : LinkState) : LinkLabel → Option LinkState
  | .post d namelen => (d.compose extra).map fun (_, bytes) =>
    { s with inFlight := s.inFlight ++ [⟨bytes, namelen⟩] }
  | .take fuel buf keep error =>
    match s.inFlight with
    | []        => none
    | p :: rest =>
      let r := sancusNlRecvfrom buf (p.recvmsg bufsize)
      (step s.receiver (.event (some (r.reply fuel keep)) error)).bind fun receiver =>
        (r.messages fuel (extra.getD 0) s.receiver.receiver.portid keep).map fun new =>
          ⟨receiver, rest, s.seen ++ new⟩
  | .other a =>
    if a.Quiet then (step s.receiver a).map fun receiver => { s with receiver } else none

/-! ### What is to be read -/

/-- A message that has been posted. -/
structure Message where
  fields : Fields
  attrs : List Put
  size : Nat
  namelen : Nat

/-- `recvmsg` gives the whole of it, and the address of a netlink socket. -/
def Message.Readable (bufsize : Nat) (msg : Message) : Prop :=
  msg.size ≤ bufsize ∧ msg.namelen = sizeofSockaddrNl

instance (bufsize : Nat) (msg : Message) : Decidable (msg.Readable bufsize) :=
  inferInstanceAs (Decidable (_ ∧ _))

/-- It is addressed to the port of the receiver, or one of the two is 0. -/
def Message.Accepted (portid : Int) (msg : Message) : Prop :=
  msg.fields.pid.toNat ≠ 0 ∧ intToUnsigned 32 portid ≠ 0 →
    msg.fields.pid.toNat = intToUnsigned 32 portid

instance (portid : Int) (msg : Message) : Decidable (msg.Accepted portid) :=
  inferInstanceAs (Decidable (_ → _))

/-- What `on_message` is to read of a message that is taken: the type and all attributes, unless
    the message cannot be received, is for another port, or is a control message. -/
def Message.expected (bufsize : Nat) (portid : Int) (msg : Message) : Option Received :=
  if msg.Readable bufsize ∧ msg.Accepted portid ∧ NLMSG_MIN_TYPE ≤ msg.fields.type.toNat then
    some ⟨msg.fields.type.toNat, msg.attrs.map Put.seen⟩
  else none

/-- The message of a label that posts one. -/
def LinkLabel.posted (extra : Option Nat) : LinkLabel → Option Message
  | .post d namelen =>
    (d.compose extra).map fun (as, bytes) => ⟨d.fields, as, bytes.length, namelen⟩
  | _ => none

/-- The messages posted in a run. -/
def posted (extra : Option Nat) (labels : List LinkLabel) : List Message :=
  labels.filterMap (LinkLabel.posted extra)

/-- Every message of a run keeps to the sizes the writers can handle. -/
def ProperPosts (extra : Option Nat) (labels : List LinkLabel) : Prop :=
  ∀ d namelen, LinkLabel.post d namelen ∈ labels → d.Proper extra

/-- The failures of `recvmsg` itself in a run. -/
def LinkLabel.failures : LinkLabel → Nat
  | .other a => a.failures
  | _        => 0

/-- The datagram is a message on its way. -/
structure OnItsWay (extra : Option Nat) (p : Posted) (msg : Message) : Prop where
  carries : Carries (extra.getD 0) msg.fields msg.attrs p.bytes
  size : msg.size = p.bytes.length
  namelen : msg.namelen = p.namelen

/-! ### One datagram -/

section

variable {extra : Option Nat} {p : Posted} {msg : Message} {offset : Nat}

/-- A datagram that is received at all is in the buffer whole. -/
theorem recvfrom_posted (hp : OnItsWay extra p msg) (bufsize : Nat) (buf : Mem) :
    (msg.Readable bufsize ∧ sancusNlRecvfrom buf (p.recvmsg bufsize) =
        ⟨p.bytes.length, none, buf.store 0 p.bytes⟩) ∨
      (¬ msg.Readable bufsize ∧ (sancusNlRecvfrom buf (p.recvmsg bufsize)).ret < 0) := by
  unfold Message.Readable Posted.recvmsg sancusNlRecvfrom
  rw [hp.size, hp.namelen]
  by_cases hfit : p.bytes.length ≤ bufsize
  · rw [List.take_of_length_le hfit]
    by_cases hname : p.namelen = sizeofSockaddrNl
    · exact .inl ⟨⟨hfit, hname⟩, by simp [hname, Nat.not_lt.mpr hfit]⟩
    · exact .inr ⟨fun h => hname h.2, by simp [hname, Nat.not_lt.mpr hfit]⟩
  · exact .inr ⟨fun h => hfit h.1, by simp [Nat.lt_of_not_le hfit]⟩

/-- **One message.**  The loop calls `on_message` with it, unless it is for another port or a
    control message, and ends. -/
theorem extract_carried (portid : Int) (keep : Bool) {m : Mem}
    (h : Carries offset msg.fields msg.attrs p.bytes)
    (hm : m.load 0 p.bytes.length = p.bytes) (hsize : p.bytes.length ≤ 8192) :
    ∃ r, Loop.Returns (extractRound m ⟨portid, fun _ => keep⟩) (extractStart p.bytes.length) r ∧
      r.delivered =
        if msg.Accepted portid ∧ NLMSG_MIN_TYPE ≤ msg.fields.type.toNat then [0] else [] := by
  have hlen := h.len m hm
  have h16 := h.length_ge
  have h4 := h.length_mod
  have hstart : extractStart p.bytes.length = ⟨0, p.bytes.length, 0, []⟩ := by
    rw [extractStart, toInt32_of_lt (by omega)]
  have hok : sancusNlMsgOk m 0 p.bytes.length = true := by
    rw [sancusNlMsgOk_iff, hlen, toInt32_of_lt (by omega)]
    omega
  have hport : sancusNlMsgPortidOk m 0 (intToUnsigned 32 portid) = true ↔ msg.Accepted portid := by
    unfold sancusNlMsgPortidOk Message.Accepted
    rw [h.pid m hm]
    split_ifs with hboth
    · simp [hboth]
    · simp [hboth]
  have hnext : (sancusNlMsgNext m 0 p.bytes.length).2 = 0 := by
    rw [sancusNlMsgNext, hlen, sancusNlAlign_self (by omega) h4]
    exact Int.sub_self _
  -- Behind the message nothing is left, so the loop ends there with what it has.
  have hlast : ∀ nlh ret d, Loop.Returns (extractRound m ⟨portid, fun _ => keep⟩)
      ⟨nlh, 0, ret, d⟩ ⟨ret, none, d⟩ := by
    intro nlh ret d
    refine .leave ?_
    have hend : ¬ sancusNlMsgOk m nlh 0 = true := by
      rw [sancusNlMsgOk_iff]
      omega
    rw [extractRound, if_neg hend]
  rw [hstart]
  by_cases hacc : msg.Accepted portid
  · by_cases htype : NLMSG_MIN_TYPE ≤ msg.fields.type.toNat
    · rw [if_pos ⟨hacc, htype⟩]
      cases keep with
      | true =>
        refine ⟨_, .again ?_ (hlast (sancusNlMsgNext m 0 p.bytes.length).1 1 [0]), rfl⟩
        rw [extractRound, if_pos hok, if_pos (hport.mpr hacc), if_pos (h.type m hm ▸ htype),
          if_pos rfl, ExtractState.next, hnext]
        rfl
      | false =>
        refine ⟨⟨0, none, [0]⟩, .leave ?_, rfl⟩
        rw [extractRound, if_pos hok, if_pos (hport.mpr hacc), if_pos (h.type m hm ▸ htype),
          if_neg Bool.false_ne_true]
        rfl
    · rw [if_neg fun hc => htype hc.2]
      refine ⟨_, .again ?_ (hlast (sancusNlMsgNext m 0 p.bytes.length).1 0 []), rfl⟩
      rw [extractRound, if_pos hok, if_pos (hport.mpr hacc), if_neg (h.type m hm ▸ htype),
        ExtractState.next, hnext]
  · rw [if_neg fun hc => hacc hc.1]
    refine ⟨⟨-1, some ESRCH, []⟩, .leave ?_, rfl⟩
    rw [extractRound, if_pos hok, if_neg fun hc => hacc (hport.mp hc)]

end

/-! ### Steps and runs -/

variable {bufsize : Nat} {extra : Option Nat} {portid : Int} {labels : List LinkLabel}
  {a : LinkLabel} {s s' : LinkState} {p : Posted} {msg : Message}

theorem recvRead_frame {self self' : NlReceiver} {reply : RecvReply} (error : Bool)
    (h : recvRead self reply = some self') : self'.portid = self.portid ∧
      self'.failures = self.failures + (Label.event (some reply) error).failures := by
  cases reply with
  | failed =>
    obtain rfl := Option.some.inj h
    exact ⟨rfl, by simp [NlReceiver.failures, Label.failures]⟩
  | datagram fuel m recvbytes onMessage =>
    obtain ⟨res, _, rfl⟩ := Option.map_eq_some_iff.mp h
    split_ifs <;> exact ⟨rfl, rfl⟩

theorem recvError_frame (self : NlReceiver) : (recvError self).receiver.portid = self.portid ∧
    (recvError self).receiver.failures = self.failures := by
  unfold recvError sancusNlReceiverClose
  split_ifs
  · exact ⟨rfl, by simp [NlReceiver.failures, sancusClose2, sancusNlReceiverStop]⟩
  · exact ⟨rfl, rfl⟩

/-- The port id of a receiver is the one it was set up with, and it reports a failure of
    `sancus_nl_recvfrom` each time there is one. -/
theorem step_frame {r r' : RecvState} {a : Label} (h : step r a = some r') :
    r'.receiver.portid = r.receiver.portid ∧
      r'.receiver.failures = r.receiver.failures + a.failures := by
  unfold step at h
  split_ifs at h
  cases a with
  | start =>
    obtain ⟨self, hstart, rfl⟩ := Option.map_eq_some_iff.mp h
    obtain ⟨_, hself⟩ := Option.ite_none_left_eq_some.mp hstart
    obtain rfl := Option.some.inj hself
    exact ⟨rfl, rfl⟩
  | stop =>
    obtain rfl := Option.some.inj h
    exact ⟨rfl, rfl⟩
  | close =>
    obtain ⟨self, hclose, rfl⟩ := Option.map_eq_some_iff.mp h
    obtain ⟨_, hself⟩ := Option.ite_none_right_eq_some.mp hclose
    obtain rfl := Option.some.inj hself
    exact ⟨rfl, rfl⟩
  | event read error =>
    obtain ⟨_, hcb⟩ := Option.ite_none_right_eq_some.mp h
    obtain ⟨self, hread, rfl⟩ := Option.map_eq_some_iff.mp hcb
    have hself : self.portid = r.receiver.portid ∧
        self.failures = r.receiver.failures + (Label.event read error).failures := by
      cases read with
      | none =>
        obtain rfl := Option.some.inj hread
        exact ⟨rfl, rfl⟩
      | some reply => exact recvRead_frame error hread
    cases error with
    | false => exact hself
    | true =>
      rw [if_pos rfl, (recvError_frame self).1, (recvError_frame self).2]
      exact hself

/-- What `on_message` reads of a datagram is what it is to read of the message. -/
theorem messages_posted (hp : OnItsWay extra p msg) (hbuf : bufsize ≤ 8192) {buf : Mem}
    {keep : Bool} {fuel : Nat} {new : List Received}
    (h : (sancusNlRecvfrom buf (p.recvmsg bufsize)).messages fuel (extra.getD 0) portid keep =
      some new) : new = (msg.expected bufsize portid).toList := by
  unfold Message.expected
  rcases recvfrom_posted hp bufsize buf with ⟨hread, heq⟩ | ⟨hread, hret⟩
  · rw [heq, Recvfrom.messages, if_neg (by simp)] at h
    obtain ⟨res, hres, hall⟩ := Option.bind_eq_some_iff.mp h
    have hsize : p.bytes.length ≤ 8192 := by
      have hle := hread.1
      rw [hp.size] at hle
      omega
    have hm := buf.load_store_self 0 p.bytes
    obtain ⟨r, hr, hdelivered⟩ := extract_carried portid keep hp.carries hm hsize
    rw [Int.toNat_natCast] at hres
    rw [(Loop.returns_of_run hres).unique hr, hdelivered] at hall
    by_cases hacc : msg.Accepted portid ∧ NLMSG_MIN_TYPE ≤ msg.fields.type.toNat
    · rw [if_pos hacc] at hall
      rw [if_pos ⟨hread, hacc⟩]
      rw [List.mapM_cons] at hall
      obtain ⟨got, hgot, hnil⟩ := Option.bind_eq_some_iff.mp hall
      obtain rfl := Option.some.inj hnil
      rw [(hp.carries.readMessage hm).2 fuel got hgot]
      rfl
    · rw [if_neg hacc] at hall
      rw [if_neg fun hc => hacc hc.2]
      exact (Option.some.inj hall).symm
  · rw [Recvfrom.messages, if_pos hret] at h
    rw [if_neg fun hc => hread hc.1]
    exact (Option.some.inj h).symm

/-- A message that cannot be received is reported. -/
theorem reply_failures (hp : OnItsWay extra p msg) {buf : Mem} {fuel : Nat} {keep error : Bool} :
    (Label.event (some ((sancusNlRecvfrom buf (p.recvmsg bufsize)).reply fuel keep))
      error).failures = if msg.Readable bufsize then 0 else 1 := by
  rcases recvfrom_posted hp bufsize buf with ⟨hread, heq⟩ | ⟨hread, hret⟩
  · rw [heq, Recvfrom.reply, if_neg (by simp), if_pos hread]
    rfl
  · rw [Recvfrom.reply, if_pos hret, if_neg hread]
    rfl

/-- The invariant: the messages posted so far are those taken, of which `on_message` has read
    what it was to read, and those on their way. -/
structure LinkOk (bufsize : Nat) (extra : Option Nat) (portid : Int) (labels : List LinkLabel)
    (s : LinkState) : Prop where
  portid_eq : s.receiver.receiver.portid = portid
  split : ProperPosts extra labels → ∃ taken waiting, posted extra labels = taken ++ waiting ∧
    s.seen = taken.filterMap (Message.expected bufsize portid) ∧
    s.receiver.receiver.failures =
      taken.countP (fun msg => ¬ msg.Readable bufsize) + (labels.map LinkLabel.failures).sum ∧
    List.Forall₂ (OnItsWay extra) s.inFlight waiting

theorem posted_snoc (extra : Option Nat) (labels : List LinkLabel) (a : LinkLabel) :
    posted extra (labels ++ [a]) = posted extra labels ++ (a.posted extra).toList := by
  rw [posted, List.filterMap_append]
  cases h : a.posted extra <;> simp [posted, h]

/-- **Step lemma.**  A step keeps the invariant. -/
theorem LinkOk.step (hbuf : bufsize ≤ 8192) (hs : LinkOk bufsize extra portid labels s)
    (h : linkStep bufsize extra s a = some s') :
    LinkOk bufsize extra portid (labels ++ [a]) s' := by
  have hbefore : ProperPosts extra (labels ++ [a]) → ProperPosts extra labels :=
    fun hall d namelen hd => hall d namelen (List.mem_append_left _ hd)
  cases a with
  | post d namelen =>
    obtain ⟨⟨as, bytes⟩, hcompose, rfl⟩ := Option.map_eq_some_iff.mp h
    refine ⟨hs.portid_eq, ?_⟩
    intro hproper
    obtain ⟨taken, waiting, hposted, hseen, hfail, hway⟩ := hs.split (hbefore hproper)
    obtain ⟨as', bytes', hcompose', hcarries⟩ := (hproper d namelen (by simp)).compose
    obtain ⟨rfl, rfl⟩ := Prod.mk.inj (Option.some.inj (hcompose'.symm.trans hcompose))
    refine ⟨taken, waiting ++ [⟨d.fields, as', bytes'.length, namelen⟩], ?_, hseen, ?_, ?_⟩
    · rw [posted_snoc, hposted, LinkLabel.posted, hcompose, List.append_assoc]
      rfl
    · simpa [LinkLabel.failures] using hfail
    · exact List.rel_append hway (.cons ⟨hcarries, rfl, rfl⟩ .nil)
  | take fuel buf keep error =>
    unfold linkStep at h
    cases hfly : s.inFlight with
    | nil =>
      rw [hfly] at h
      cases h
    | cons p rest =>
      rw [hfly] at h
      obtain ⟨receiver, hstep, hrest⟩ := Option.bind_eq_some_iff.mp h
      obtain ⟨new, hnew, rfl⟩ := Option.map_eq_some_iff.mp hrest
      obtain ⟨hport, hfails⟩ := step_frame hstep
      refine ⟨hport.trans hs.portid_eq, ?_⟩
      intro hproper
      obtain ⟨taken, waiting, hposted, hseen, hfail, hway⟩ := hs.split (hbefore hproper)
      rw [hfly] at hway
      obtain ⟨msg, waiting', hp, hway', rfl⟩ := List.forall₂_cons_left_iff.mp hway
      rw [hs.portid_eq] at hnew
      refine ⟨taken ++ [msg], waiting', ?_, ?_, ?_, hway'⟩
      · rw [posted_snoc, hposted, List.append_assoc]
        simp [LinkLabel.posted]
      · rw [List.filterMap_append, ← hseen, messages_posted hp hbuf hnew]
        cases hexp : msg.expected bufsize portid <;> simp [hexp]
      · rw [hfails, hfail, reply_failures hp, List.countP_append]
        simp [LinkLabel.failures]
        omega
  | other a =>
    obtain ⟨_, hmap⟩ := Option.ite_none_right_eq_some.mp h
    obtain ⟨receiver, hstep, rfl⟩ := Option.map_eq_some_iff.mp hmap
    obtain ⟨hport, hfails⟩ := step_frame hstep
    refine ⟨hport.trans hs.portid_eq, ?_⟩
    intro hproper
    obtain ⟨taken, waiting, hposted, hseen, hfail, hway⟩ := hs.split (hbefore hproper)
    refine ⟨taken, waiting, ?_, hseen, ?_, hway⟩
    · rw [posted_snoc, hposted]
      exact List.append_nil _
    · rw [hfails, hfail]
      simp [LinkLabel.failures]
      omega

/-- **A datagram can be taken.**  A receiver that is watched on an open descriptor takes what is
    on its way, whatever is in its buffer and whatever the application answers. -/
theorem take_possible (hbuf : bufsize ≤ 8192) (hfly : s.inFlight ≠ [])
    (hway : ∀ p ∈ s.inFlight, ∃ msg, OnItsWay extra p msg) (hthere : s.receiver.aborted = false)
    (hactive : s.receiver.receiver.active = true) (hfd : 0 ≤ s.receiver.receiver.fd) (buf : Mem)
    (keep error : Bool) :
    ∃ fuel s', linkStep bufsize extra s (.take fuel buf keep error) = some s' := by
  obtain ⟨p, rest, hcons⟩ := List.exists_cons_of_ne_nil hfly
  obtain ⟨msg, hp⟩ := hway p (by simp [hcons])
  have hgo : ∀ fuel self new,
      recvRead s.receiver.receiver ((sancusNlRecvfrom buf (p.recvmsg bufsize)).reply fuel keep) =
        some self →
      (sancusNlRecvfrom buf (p.recvmsg bufsize)).messages fuel (extra.getD 0)
        s.receiver.receiver.portid keep = some new →
      ((sancusNlRecvfrom buf (p.recvmsg bufsize)).reply fuel keep).Possible s.receiver.receiver →
      ∃ s', linkStep bufsize extra s (.take fuel buf keep error) = some s' := by
    intro fuel self new hread hnew hpossible
    simp [linkStep, hcons, step, hthere, hactive, hpossible, recvCb, hread, hnew]
  rcases recvfrom_posted hp bufsize buf with ⟨hread, heq⟩ | ⟨_, hret⟩
  · have hsize : p.bytes.length ≤ 8192 := by
      have hle := hread.1
      rw [hp.size] at hle
      omega
    have hm := buf.load_store_self 0 p.bytes
    obtain ⟨r, hr, hdelivered⟩ := extract_carried s.receiver.receiver.portid keep hp.carries
      hm hsize
    obtain ⟨fuel₁, h₁⟩ := hr.exists_run
    obtain ⟨⟨fuel₂, got, h₂⟩, _⟩ := hp.carries.readMessage hm
    have hextract := Loop.run_of_le h₁ (Nat.le_max_left fuel₁ fuel₂)
    have hgot : readMessage (max fuel₁ fuel₂) (extra.getD 0) (buf.store 0 p.bytes) 0 =
        some got := by
      obtain ⟨res, hres, rfl⟩ := Option.map_eq_some_iff.mp h₂
      have hmore := Loop.run_of_le hres (Nat.le_max_right fuel₁ fuel₂)
      exact Option.map_eq_some_iff.mpr ⟨res, hmore, rfl⟩
    have hnew : ∃ new, r.delivered.mapM
        (readMessage (max fuel₁ fuel₂) (extra.getD 0) (buf.store 0 p.bytes)) = some new := by
      rw [hdelivered]
      split_ifs
      · exact ⟨[got], by simp [hgot]⟩
      · exact ⟨[], rfl⟩
    obtain ⟨new, hnew⟩ := hnew
    have hfound : extractNetlinkMessage (max fuel₁ fuel₂) (buf.store 0 p.bytes)
        ⟨s.receiver.receiver.portid, fun _ => keep⟩ p.bytes.length = some r := hextract
    refine ⟨max fuel₁ fuel₂, hgo _ (if r.ret = 0 then sancusClose2 s.receiver.receiver
      else s.receiver.receiver) new ?_ ?_ ?_⟩
    · rw [heq, Recvfrom.reply, if_neg (by simp), recvRead, Int.toNat_natCast, hfound]
      rfl
    · rw [heq, Recvfrom.messages, if_neg (by simp), Int.toNat_natCast, hfound]
      exact hnew
    · rw [heq, Recvfrom.reply, if_neg (by simp)]
      exact ⟨hfd, hsize⟩
  · have hfailed : (sancusNlRecvfrom buf (p.recvmsg bufsize)).reply 0 keep = .failed := if_pos hret
    have hnone : (sancusNlRecvfrom buf (p.recvmsg bufsize)).messages 0 (extra.getD 0)
        s.receiver.receiver.portid keep = some [] := if_pos hret
    exact ⟨0, hgo 0 _ [] (congrArg _ hfailed) hnone (hfailed ▸ trivial)⟩

/-- **Every message is read once, as it was composed, or not at all.**  Take any run of a link,
    the receiver having a buffer of at most 8192 bytes: senders post, and `recv_cb` takes, in any
    order, and the application starts, stops and closes the receiver.  The messages posted are
    those taken and those on their way; `on_message` has read those taken, in order, with all the
    attributes that found room when they were put, but for the ones that did not fit the buffer,
    were for another port or were control messages; each one that did not fit has been reported;
    and one more can be taken whenever the receiver is watched on an open descriptor. -/
theorem link_delivers (bufsize : Nat) (extra : Option Nat) (fd portid : Int)
    (labels : List LinkLabel) (s : LinkState) (hbuf : bufsize ≤ 8192)
    (hproper : ProperPosts extra labels)
    (hrun : Machine.run (linkStep bufsize extra)
      ⟨⟨sancusNlReceiverListen fd portid, false⟩, [], []⟩ labels = some s) :
    ∃ taken waiting, posted extra labels = taken ++ waiting ∧
      s.inFlight.length = waiting.length ∧
      s.seen = taken.filterMap (Message.expected bufsize portid) ∧
      s.receiver.receiver.failures =
        taken.countP (fun msg => ¬ msg.Readable bufsize) + (labels.map LinkLabel.failures).sum ∧
      (waiting ≠ [] → s.receiver.aborted = false → s.receiver.receiver.active = true →
        0 ≤ s.receiver.receiver.fd → ∀ buf keep error,
          ∃ fuel s', linkStep bufsize extra s (.take fuel buf keep error) = some s') := by
  have hok : LinkOk bufsize extra portid labels s :=
    Machine.run_invariant ⟨rfl, fun _ => ⟨[], [], rfl, rfl, rfl, .nil⟩⟩
      (fun _ _ _ _ hs hstep => hs.step hbuf hstep) hrun
  obtain ⟨taken, waiting, hposted, hseen, hfail, hway⟩ := hok.split hproper
  refine ⟨taken, waiting, hposted, hway.length_eq, hseen, hfail, ?_⟩
  intro hwaiting hthere hactive hfd buf keep error
  refine take_possible hbuf ?_ ?_ hthere hactive hfd buf keep error
  · intro hnil
    rw [hnil] at hway
    exact hwaiting (List.forall₂_nil_left_iff.mp hway)
  · intro p hp
    obtain ⟨i, hi, rfl⟩ := List.getElem_of_mem hp
    exact ⟨_, (List.forall₂_iff_get.mp hway).2 i hi (hway.length_eq ▸ hi)⟩

/-- A message of two attributes, of which one finds room. -/
def twoPuts : Draft :=
  ⟨Mem.fresh fun _ => 0xff, 0, 28, ⟨16, 0, 1, 0⟩, [.u16 3 7, .u64 4 9]⟩

/-- It is posted, and taken into a buffer of 64 bytes. -/
theorem link_delivers_one :
    ∃ s, Machine.run (linkStep 64 none) ⟨⟨sancusNlReceiverListen 3 0, false⟩, [], []⟩
        [.other .start, .post twoPuts 12, .take 2 (Mem.fresh fun _ => 0xee) true false] = some s ∧
      s.seen = [⟨16, [(3, [7, 0])]⟩] ∧ ∃ taken waiting,
        posted none
            [.other .start, .post twoPuts 12, .take 2 (Mem.fresh fun _ => 0xee) true false] =
              taken ++ waiting ∧
          s.inFlight.length = waiting.length ∧
          s.seen = taken.filterMap (Message.expected 64 0) := by
  refine ⟨_, rfl, by decide, ?_⟩
  obtain ⟨taken, waiting, hposted, hlen, hseen, _⟩ := link_delivers 64 none 3 0
    [.other .start, .post twoPuts 12, .take 2 (Mem.fresh fun _ => 0xee) true false] _ (by decide)
    (by
      intro d namelen hd
      obtain ⟨rfl, _⟩ : d = twoPuts ∧ namelen = 12 := by simpa using hd
      exact ⟨by decide, by simp, by simp [twoPuts, Put.payload]⟩) rfl
  exact ⟨taken, waiting, hposted, hlen, hseen⟩

end Sancus.Netlink
