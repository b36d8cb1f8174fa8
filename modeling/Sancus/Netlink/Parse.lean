import Sancus.CModel.Loop
import Sancus.Netlink.Attr

namespace Sancus.Netlink

open CModel

/-!
# Netlink — parsing the attributes of a message

`sancus_nl_attr_parse` hands the attributes of a message to a callback, one after the
other, until the callback asks it to stop or there is no room for another one.

* `parseRound` — one round of the `sancus_nl_attr_foreach` loop;
* `attrOk_room` — what an attribute that passes the check looks like;
* `Walk` — the invariant of the loop, and `Walk.round`, the step lemma;
* `parse_walk` — the loop ends, and leaves what the invariant says;
* `attrAfter`, `Follows` — each attribute is the next one behind those visited before;
* `attr_parse_inside` / `attr_parse_ends` — where the attributes lie, how many there are
  and what is returned.
-/

/-! ### The loop -/

def SANCUS_NL_CB_STOP : Int := 0
def SANCUS_NL_CB_OK : Int := 1

/-- The variables of the loop, with the attributes handed to the callback so far. -/
structure ParseState where
  attr : Nat
  ret : Int
  visited : List Nat

/-- What `sancus_nl_attr_parse` returns, and the attributes it has visited. -/
structure ParseResult where
  ret : Int
  visited : List Nat
  deriving DecidableEq

/-- One round of `sancus_nl_attr_parse`.  The callback is a function of the attributes it
    has been called with, the last of them being the current one. -/
def parseRound (m : Mem) (nlh : Nat) (cb : List Nat → Int) (s : ParseState) :
    Round ParseState ParseResult :=
  if sancusNlAttrOk m s.attr (intToInt32 (sancusNlMsgGetPayloadTail m nlh - s.attr)) then
    if cb (s.visited ++ [s.attr]) ≤ SANCUS_NL_CB_STOP then
      .leave ⟨cb (s.visited ++ [s.attr]), s.visited ++ [s.attr]⟩
    else .again ⟨sancusNlAttrNext m s.attr, cb (s.visited ++ [s.attr]), s.visited ++ [s.attr]⟩
  else .leave ⟨s.ret, s.visited⟩

def parseStart (nlh offset : Nat) : ParseState :=
  ⟨sancusNlMsgGetPayloadOffset nlh offset, SANCUS_NL_CB_OK, []⟩

/-- `sancus_nl_attr_parse` with a bound on the rounds of its loop. -/
def sancusNlAttrParse (fuel : Nat) (m : Mem) (nlh offset : Nat) (cb : List Nat → Int) :
    Option ParseResult :=
  Loop.run (parseRound m nlh cb) fuel (parseStart nlh offset)

theorem payloadOffset_eq (nlh offset : Nat) :
    sancusNlMsgGetPayloadOffset nlh offset = nlh + (16 + sancusNlAlign offset) := by
  rw [sancusNlMsgGetPayloadOffset, SANCUS_NL_MSG_HDRLEN_eq, Nat.add_assoc]

/-! ### What is visited and what is returned -/

/-- What the callback returned, call by call. -/
def callbackResults (cb : List Nat → Int) (visited : List Nat) : List Int :=
  (List.range visited.length).map fun i => cb (visited.take (i + 1))

theorem callbackResults_append (cb : List Nat → Int) (visited : List Nat) (attr : Nat) :
    callbackResults cb (visited ++ [attr]) =
      callbackResults cb visited ++ [cb (visited ++ [attr])] := by
  unfold callbackResults
  rw [List.length_append, List.length_singleton, List.range_succ, List.map_append]
  congr 1
  · apply List.map_congr_left
    intro i hi
    have hlt := List.mem_range.mp hi
    rw [List.take_append_of_le_length hlt]
  · rw [List.map_singleton, List.take_of_length_le (by simp)]

/-- The value of `ret` after these calls. -/
def lastResult (cb : List Nat → Int) (visited : List Nat) : Int :=
  (callbackResults cb visited).getLastD SANCUS_NL_CB_OK

/-- The attribute at `attr` starts on a boundary behind the header of the message and ends
    before its tail. -/
structure Inside (m : Mem) (nlh attr : Nat) : Prop where
  ge_header : nlh + sizeofNlmsghdr ≤ attr
  aligned : (attr - nlh) % SANCUS_NL_ALIGNTO = 0
  len_ge : sizeofNlattr ≤ nlaLen m attr
  le_tail : attr + nlaLen m attr ≤ sancusNlMsgGetPayloadTail m nlh

variable {m : Mem} {nlh offset attr : Nat} {cb : List Nat → Int} {s s' : ParseState}
  {r : ParseResult}

/-! ### One round -/

/-- **Room.**  Wherever the loop stands, an attribute that passes the check ends before the
    tail, and so does the step over it.  The tail is at most `0xfffc` bytes away, so that no
    `nla_len` is reached whose alignment would be cut off. -/
theorem attrOk_room (hge : nlh + 16 ≤ attr) (hmod : (attr - nlh) % 4 = 0)
    (hle : attr ≤ nlh + 65548)
    (hok : sancusNlAttrOk m attr (intToInt32 (sancusNlMsgGetPayloadTail m nlh - attr)) = true) :
    Inside m nlh attr ∧ attr + 4 ≤ sancusNlAttrNext m attr ∧
      sancusNlAttrNext m attr ≤ sancusNlMsgGetPayloadTail m nlh ∧
      (sancusNlAttrNext m attr - nlh) % 4 = 0 := by
  have htail : sancusNlMsgGetPayloadTail m nlh = nlh + sancusNlAlign (nlmsgLen m nlh) := rfl
  have hmax := sancusNlAlign_lt (nlmsgLen m nlh)
  have hmod' := sancusNlAlign_mod (nlmsgLen m nlh)
  rw [intToInt32_of_le (by omega) (by omega), sancusNlAttrOk_iff] at hok
  obtain ⟨_, hlen, hroom⟩ := hok
  have hnext : sancusNlAttrNext m attr = attr + (nlaLen m attr + 3) / 4 * 4 := by
    rw [sancusNlAttrNext, sancusNlAlign_of_le (by omega)]
  refine ⟨⟨hge, hmod, hlen, by omega⟩, by omega, by omega, by omega⟩

/-- The invariant: where the loop stands, and what it has visited and called before. -/
structure Walk (m : Mem) (nlh : Nat) (cb : List Nat → Int) (s : ParseState) : Prop where
  ge_header : nlh + 16 ≤ s.attr
  aligned : (s.attr - nlh) % 4 = 0
  bounded : s.attr ≤ nlh + 65548
  within : s.visited ≠ [] → s.attr ≤ sancusNlMsgGetPayloadTail m nlh
  spaced : (s.visited ++ [s.attr]).Pairwise fun a b => a + 4 ≤ b
  count : nlh + 16 + 4 * s.visited.length ≤ s.attr
  inside : ∀ a ∈ s.visited, Inside m nlh a
  going_on : ∀ x ∈ callbackResults cb s.visited, SANCUS_NL_CB_STOP < x
  ret : s.ret = lastResult cb s.visited

/-- What the loop leaves with: the attributes visited are some bytes apart and inside the
    message, and the callback has not asked to stop before the last one. -/
structure Parsed (m : Mem) (nlh : Nat) (cb : List Nat → Int) (r : ParseResult) : Prop where
  spaced : r.visited.Pairwise fun a b => a + 4 ≤ b
  count : r.visited.length ≤ 16379
  inside : ∀ a ∈ r.visited, Inside m nlh a
  going_on : ∀ x ∈ (callbackResults cb r.visited).dropLast, SANCUS_NL_CB_STOP < x
  ret : r.ret = lastResult cb r.visited

theorem Walk.start (m : Mem) (nlh offset : Nat) (cb : List Nat → Int) :
    Walk m nlh cb (parseStart nlh offset) := by
  have hmax := sancusNlAlign_lt offset
  have hmod := sancusNlAlign_mod offset
  have hattr := payloadOffset_eq nlh offset
  constructor
  case within => exact fun h => absurd rfl h
  case spaced => exact List.pairwise_singleton _ _
  case inside => exact nofun
  case going_on => exact nofun
  case ret => rfl
  all_goals simp only [parseStart, List.length_nil]; omega

/-- **Step lemma.**  A round that goes round again keeps the invariant and comes closer to
    the tail. -/
theorem Walk.round (hw : Walk m nlh cb s) (hagain : parseRound m nlh cb s = .again s') :
    Walk m nlh cb s' ∧
      sancusNlMsgGetPayloadTail m nlh - s'.attr < sancusNlMsgGetPayloadTail m nlh - s.attr := by
  rw [parseRound] at hagain
  split at hagain
  · next hok =>
    split at hagain
    · cases hagain
    · next hcb =>
      obtain rfl := Round.again.inj hagain
      obtain ⟨hin, hstep, hend, hmod⟩ := attrOk_room hw.ge_header hw.aligned hw.bounded hok
      have hmax := sancusNlAlign_lt (nlmsgLen m nlh)
      have htail : sancusNlMsgGetPayloadTail m nlh = nlh + sancusNlAlign (nlmsgLen m nlh) := rfl
      have hge := hw.ge_header
      have hcount := hw.count
      refine ⟨⟨?_, hmod, ?_, fun _ => hend, ?_, ?_, ?_, ?_, ?_⟩, ?_⟩
      · show nlh + 16 ≤ sancusNlAttrNext m s.attr
        omega
      · show sancusNlAttrNext m s.attr ≤ nlh + 65548
        omega
      · rw [List.pairwise_append]
        refine ⟨hw.spaced, List.pairwise_singleton _ _, ?_⟩
        intro a ha b hb
        obtain rfl := List.mem_singleton.mp hb
        -- an earlier attribute is before the current one, which is before the next
        rcases List.mem_append.mp ha with ha | ha
        · have hlt :=
            (List.pairwise_append.mp hw.spaced).2.2 a ha s.attr (List.mem_singleton_self _)
          show a + 4 ≤ sancusNlAttrNext m s.attr
          omega
        · obtain rfl := List.mem_singleton.mp ha
          exact hstep
      · show nlh + 16 + 4 * (s.visited ++ [s.attr]).length ≤ sancusNlAttrNext m s.attr
        rw [List.length_append, List.length_singleton]
        omega
      · exact List.forall_mem_append.mpr ⟨hw.inside, List.forall_mem_singleton.mpr hin⟩
      · rw [callbackResults_append]
        exact List.forall_mem_append.mpr
          ⟨hw.going_on, List.forall_mem_singleton.mpr (not_le.mp hcb)⟩
      · rw [lastResult, callbackResults_append, List.getLastD_concat]
      · show _ - sancusNlAttrNext m s.attr < _
        omega
  · cases hagain

/-- A round that leaves the loop leaves what the invariant says. -/
theorem Walk.leave (hw : Walk m nlh cb s) (hleave : parseRound m nlh cb s = .leave r) :
    Parsed m nlh cb r := by
  have hmax := sancusNlAlign_lt (nlmsgLen m nlh)
  have htail : sancusNlMsgGetPayloadTail m nlh = nlh + sancusNlAlign (nlmsgLen m nlh) := rfl
  have hcount := hw.count
  rw [parseRound] at hleave
  split at hleave
  · next hok =>
    obtain ⟨hin, hstep, hend, _⟩ := attrOk_room hw.ge_header hw.aligned hw.bounded hok
    split at hleave
    · obtain rfl := Round.leave.inj hleave
      refine ⟨hw.spaced, ?_, ?_, ?_, ?_⟩
      · rw [List.length_append, List.length_singleton]
        omega
      · exact List.forall_mem_append.mpr ⟨hw.inside, List.forall_mem_singleton.mpr hin⟩
      · rw [callbackResults_append, List.dropLast_concat]
        exact hw.going_on
      · rw [lastResult, callbackResults_append, List.getLastD_concat]
    · cases hleave
  · obtain rfl := Round.leave.inj hleave
    refine ⟨(List.pairwise_append.mp hw.spaced).1, ?_, hw.inside, ?_, hw.ret⟩
    · show s.visited.length ≤ 16379
      cases hv : s.visited with
      | nil => simp
      | cons a as =>
        have hend := hw.within (by simp [hv])
        rw [← hv]
        omega
    · intro x hx
      exact hw.going_on x (List.dropLast_subset _ hx)

/-! ### The whole loop -/

/-- **Run lemma.**  The loop ends, whatever the message, the offset and the callback. -/
theorem parse_walk (m : Mem) (nlh offset : Nat) (cb : List Nat → Int) :
    ∃ fuel r, sancusNlAttrParse fuel m nlh offset cb = some r ∧ Parsed m nlh cb r := by
  have hstart := Walk.start m nlh offset cb
  obtain ⟨r, hr⟩ := Loop.returns_of_measure (I := Walk m nlh cb)
    (fun s : ParseState => sancusNlMsgGetPayloadTail m nlh - s.attr)
    (fun _ _ hw hagain => hw.round hagain) hstart
  have hparsed : Parsed m nlh cb r :=
    hr.post (fun _ _ hw hagain => (hw.round hagain).1) (fun _ _ hw hleave => hw.leave hleave) hstart
  obtain ⟨fuel, hfuel⟩ := hr.exists_run
  exact ⟨fuel, r, hfuel, hparsed⟩

/-- Only the last call can have asked to stop, so what is returned is the first result that
    asks for it, or else the last one. -/
theorem Parsed.ret_eq (h : Parsed m nlh cb r) :
    r.ret = ((callbackResults cb r.visited).find? (· ≤ SANCUS_NL_CB_STOP)).getD
      (lastResult cb r.visited) := by
  rw [h.ret]
  cases hfind : (callbackResults cb r.visited).find? (· ≤ SANCUS_NL_CB_STOP) with
  | none => rfl
  | some x =>
    have hx : x ≤ SANCUS_NL_CB_STOP := by simpa using List.find?_some hfind
    have hmem := List.mem_of_find?_eq_some hfind
    have hne : callbackResults cb r.visited ≠ [] := List.ne_nil_of_mem hmem
    rw [← List.dropLast_append_getLast hne, List.mem_append, List.mem_singleton] at hmem
    rcases hmem with hmem | hmem
    · exact absurd hx (not_le.mpr (h.going_on x hmem))
    · rw [Option.getD_some, hmem, lastResult, List.getLastD_eq_getLast?,
        List.getLast?_eq_some_getLast hne, Option.getD_some]

/-! ### Which attributes are visited -/

/-- The attribute that comes after those, the first one at the payload offset. -/
def attrAfter (m : Mem) (nlh offset : Nat) (visited : List Nat) : Nat :=
  visited.getLast?.elim (sancusNlMsgGetPayloadOffset nlh offset) (sancusNlAttrNext m)

@[simp] theorem attrAfter_concat (visited : List Nat) (attr : Nat) :
    attrAfter m nlh offset (visited ++ [attr]) = sancusNlAttrNext m attr := by
  simp [attrAfter]

/-- Each attribute is the one after those before it. -/
def InOrder (m : Mem) (nlh offset : Nat) (visited : List Nat) : Prop :=
  ∀ before attr after, visited = before ++ attr :: after → attr = attrAfter m nlh offset before

theorem InOrder.concat {visited : List Nat} (h : InOrder m nlh offset visited) :
    InOrder m nlh offset (visited ++ [attrAfter m nlh offset visited]) := by
  intro before attr after hsplit
  rcases List.eq_nil_or_concat' after with rfl | ⟨after, last, rfl⟩
  · obtain ⟨rfl, hlast⟩ := List.append_inj' hsplit rfl
    exact (List.cons.inj hlast).1.symm
  · have hall : visited ++ [attrAfter m nlh offset visited] =
        (before ++ attr :: after) ++ [last] := by simpa using hsplit
    obtain ⟨hvisited, _⟩ := List.append_inj' hall rfl
    exact h before attr after hvisited

/-- The invariant: the loop stands at the attribute after those it has visited in order. -/
structure Follows (m : Mem) (nlh offset : Nat) (s : ParseState) : Prop where
  attr_eq : s.attr = attrAfter m nlh offset s.visited
  inOrder : InOrder m nlh offset s.visited

theorem Follows.start (m : Mem) (nlh offset : Nat) :
    Follows m nlh offset (parseStart nlh offset) where
  attr_eq := rfl
  inOrder before attr after h := by simp [parseStart] at h

/-- **Step lemma.** -/
theorem Follows.round (h : Follows m nlh offset s) (hagain : parseRound m nlh cb s = .again s') :
    Follows m nlh offset s' := by
  rw [parseRound] at hagain
  split at hagain
  · split at hagain
    · cases hagain
    · obtain rfl := Round.again.inj hagain
      refine ⟨(attrAfter_concat s.visited s.attr).symm, ?_⟩
      show InOrder m nlh offset (s.visited ++ [s.attr])
      rw [h.attr_eq]
      exact h.inOrder.concat
  · cases hagain

/-- The loop leaves at a callback that asks to stop, or where there is no further attribute. -/
theorem Follows.leave (h : Follows m nlh offset s) (hleave : parseRound m nlh cb s = .leave r) :
    InOrder m nlh offset r.visited ∧
      ((∃ x ∈ callbackResults cb r.visited, x ≤ SANCUS_NL_CB_STOP) ∨
        sancusNlAttrOk m (attrAfter m nlh offset r.visited)
          (intToInt32 (sancusNlMsgGetPayloadTail m nlh -
            (attrAfter m nlh offset r.visited))) = false) := by
  rw [parseRound] at hleave
  split at hleave
  · split at hleave
    · next hcb =>
      obtain rfl := Round.leave.inj hleave
      refine ⟨?_, .inl ⟨_, ?_, hcb⟩⟩
      · show InOrder m nlh offset (s.visited ++ [s.attr])
        rw [h.attr_eq]
        exact h.inOrder.concat
      · rw [callbackResults_append]
        exact List.mem_append_right _ (List.mem_singleton_self _)
    · cases hleave
  · next hok =>
    obtain rfl := Round.leave.inj hleave
    rw [h.attr_eq] at hok
    exact ⟨h.inOrder, .inr (Bool.eq_false_iff.mpr hok)⟩

/-- **Parsing ends with the right result.**  Whatever the length field, the bytes, the offset
    and the callback: the loop ends after at most 16379 calls, on attributes some bytes apart,
    each of them the next one behind those before it; no call is made after one whose result
    asks to stop, and the attributes come to an end otherwise; and the value returned is that
    result, or the last one, or `SANCUS_NL_CB_OK` where there was no call. -/
theorem attr_parse_ends (m : Mem) (nlh offset : Nat) (cb : List Nat → Int) :
    ∃ fuel r, sancusNlAttrParse fuel m nlh offset cb = some r ∧
      r.visited.length ≤ 16379 ∧ r.visited.Nodup ∧
      (r.visited.Pairwise fun a b => a + sizeofNlattr ≤ b) ∧
      (∀ x ∈ (callbackResults cb r.visited).dropLast, SANCUS_NL_CB_STOP < x) ∧
      r.ret = ((callbackResults cb r.visited).find? (· ≤ SANCUS_NL_CB_STOP)).getD
        ((callbackResults cb r.visited).getLastD SANCUS_NL_CB_OK) ∧
      InOrder m nlh offset r.visited ∧
      ((∃ x ∈ callbackResults cb r.visited, x ≤ SANCUS_NL_CB_STOP) ∨
        sancusNlAttrOk m (attrAfter m nlh offset r.visited)
          (intToInt32 (sancusNlMsgGetPayloadTail m nlh -
            (attrAfter m nlh offset r.visited))) = false) := by
  obtain ⟨fuel, r, hrun, h⟩ := parse_walk m nlh offset cb
  have hfollows := (Loop.returns_of_run hrun).post (I := Follows m nlh offset)
    (fun _ _ hs hagain => hs.round hagain) (fun _ _ hs hleave => hs.leave hleave)
    (Follows.start m nlh offset)
  refine ⟨fuel, r, hrun, h.count, ?_, h.spaced, h.going_on, h.ret_eq, hfollows⟩
  apply h.spaced.imp
  intro a b hab
  omega

/-- **Attributes stay inside the aligned message.**  Each attribute of an accepted message
    that is handed to the callback starts on a boundary behind the header and before
    `nlmsg_len`, and lies within the first `SANCUS_NL_ALIGN(nlmsg_len)` bytes, header and
    payload. -/
theorem attr_parse_inside (m : Mem) (nlh offset : Nat) (len : Int) (cb : List Nat → Int)
    (hok : sancusNlMsgOk m nlh len = true) (hmax : nlmsgLen m nlh ≤ 8192) :
    ∃ fuel r, sancusNlAttrParse fuel m nlh offset cb = some r ∧
      ∀ attr ∈ r.visited, ∃ o, attr = nlh + o ∧ sizeofNlmsghdr ≤ o ∧ o < nlmsgLen m nlh ∧
        o % SANCUS_NL_ALIGNTO = 0 ∧ sizeofNlattr ≤ nlaLen m attr ∧
        o + nlaLen m attr ≤ sancusNlAlign (nlmsgLen m nlh) ∧
        sancusNlAlign (nlmsgLen m nlh) = (nlmsgLen m nlh + 3) / 4 * 4 := by
  obtain ⟨_, h16, _⟩ := sancusNlMsgOk_iff.mp hok
  obtain ⟨fuel, r, hrun, h⟩ := parse_walk m nlh offset cb
  refine ⟨fuel, r, hrun, ?_⟩
  intro attr hattr
  obtain ⟨hge, hmod, hlen, htail⟩ := h.inside attr hattr
  have halign := sancusNlAlign_of_le (show nlmsgLen m nlh ≤ 65532 by omega)
  rw [sancusNlMsgGetPayloadTail] at htail
  rw [sizeofNlmsghdr] at hge
  rw [SANCUS_NL_ALIGNTO] at hmod
  rw [sizeofNlattr] at hlen
  refine ⟨attr - nlh, by omega, ?_, by omega, hmod, hlen, by omega, halign⟩
  rw [sizeofNlmsghdr]
  omega

/-- A message of 17 bytes, the last of them the first of an empty attribute of 4. -/
def unalignedMessage : Mem :=
  Mem.ofBytes [17, 0, 0, 0, 16, 0, 0, 0, 0, 0, 0, 0, 0, 0, 0, 0, 4, 0, 0, 0]

theorem attr_parse_inside_unaligned :
    ∃ fuel r, sancusNlAttrParse fuel unalignedMessage 0 0 (fun _ => SANCUS_NL_CB_OK) = some r ∧
      ∀ attr ∈ r.visited, ∃ o, attr = 0 + o ∧ sizeofNlmsghdr ≤ o ∧ o < nlmsgLen unalignedMessage 0 ∧
        o % SANCUS_NL_ALIGNTO = 0 ∧ sizeofNlattr ≤ nlaLen unalignedMessage attr ∧
        o + nlaLen unalignedMessage attr ≤ sancusNlAlign (nlmsgLen unalignedMessage 0) ∧
        sancusNlAlign (nlmsgLen unalignedMessage 0) = (nlmsgLen unalignedMessage 0 + 3) / 4 * 4 :=
  attr_parse_inside unalignedMessage 0 0 17 _ (by decide) (by decide)

/-- **The tail is aligned.**  That attribute is handed to the callback, though it ends three
    bytes behind the 17 of the message. -/
theorem attr_parse_past_length :
    sancusNlMsgOk unalignedMessage 0 17 = true ∧ nlmsgLen unalignedMessage 0 = 17 ∧
      sancusNlAttrParse 2 unalignedMessage 0 0 (fun _ => SANCUS_NL_CB_OK) =
        some ⟨SANCUS_NL_CB_OK, [16]⟩ ∧
      nlmsgLen unalignedMessage 0 < 16 + nlaLen unalignedMessage 16 := by
  decide

end Sancus.Netlink
