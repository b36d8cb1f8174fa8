import Sancus.CModel.Loop
import Mathlib.Data.List.Infix
import Mathlib.Tactic.Ring

namespace Sancus.Fd

open CModel

/-!
# File descriptors — the gathered write

`sancus_writev` calls `writev` until all segments are written, consuming from the array
of segments what each call has taken.  What a call sends is recorded by address, so
that two equal bytes at different places are different.

* `Kernel` — how `writev` answers each call;
* `consume` / `writevRound` — the consume loop and the loop around it;
* `Right`, `Skewed`, `Wrong` — what a state of the loop is about to send;
* `writev_emits_iff` — the loop emits the concatenation exactly when no call takes bytes
  after one that ran past a segment into the middle of a later one, and interrupts
  do not go on for ever.
-/

/-! ### The model -/

/-- `struct iovec`. -/
structure Iovec where
  iov_base : Nat
  iov_len : Nat
  deriving DecidableEq

/-- The number of bytes in a list of segments. -/
def total (iov : List Iovec) : Nat := (iov.map Iovec.iov_len).sum

/-- The addresses of those bytes, in order. -/
def addrs (iov : List Iovec) : List Nat := iov.flatMap fun v => List.range' v.iov_base v.iov_len

/-- The bytes themselves, in a given memory. -/
def contents (memory : Nat → UInt8) (iov : List Iovec) : List UInt8 :=
  iov.flatMap fun v => (List.range' v.iov_base v.iov_len).map memory

/-- What a call of `writev` answers: the bytes it took, or the `errno` it failed with. -/
inductive Reply where
  | took (n : Nat)
  | failed (errno : Nat)
  deriving DecidableEq

def EINTR : Nat := 4

/-- `writev(2)`: the reply to each call, from the number of calls before it and the number of
    bytes it is given.  It takes at least a byte when it is given one, and at most what it is
    given. -/
structure Kernel where
  reply : Nat → Nat → Reply
  took_le : ∀ {i room n}, reply i room = .took n → n ≤ room
  took_pos : ∀ {i room n}, reply i room = .took n → 0 < room → 0 < n

/-- The consume loop, `wc` being what the call took and `n` what is left to consume.  The
    segments are those from `iov` on. -/
def consume (wc : Nat) : Nat → List Iovec → List Iovec
  | _, []       => []
  | n, v :: iov =>
    if n = 0 then v :: iov
    else if v.iov_len ≤ n then consume wc (n - v.iov_len) iov
    -- The base moves by `wc`, not by the `n` that is left of it.
    else ⟨v.iov_base + wc, v.iov_len - n⟩ :: iov

/-- The variables of the outer loop: the `iovcnt` segments from `iov` on and the bytes
    written, with the calls made and the addresses sent so far. -/
structure WritevState where
  iov : List Iovec
  wt : Int
  calls : Nat
  sent : List Nat

/-- What `sancus_writev` returns, the error of the call that made it return, and the
    addresses sent. -/
structure WritevResult where
  ret : Int
  errno : Option Nat
  sent : List Nat
  deriving DecidableEq

/-- The state after a call that took `n` bytes. -/
def WritevState.take (s : WritevState) (n : Nat) : WritevState where
  iov := consume n n s.iov
  wt := s.wt + n
  calls := s.calls + 1
  sent := s.sent ++ (addrs s.iov).take n

/-- The state after a call that was interrupted. -/
def WritevState.interrupted (s : WritevState) : WritevState := { s with calls := s.calls + 1 }

/-- One round of `while (iovcnt)`. -/
def writevRound (kernel : Kernel) (s : WritevState) : Round WritevState WritevResult :=
  if s.iov = [] then .leave ⟨s.wt, none, s.sent⟩
  else
    match kernel.reply s.calls (total s.iov) with
    -- Taking no bytes, of segments that are all empty, changes nothing.
    | .took n   => .again (s.take n)
    | .failed e => if e = EINTR then .again s.interrupted else .leave ⟨-e, some e, s.sent⟩

def writevStart (iov : List Iovec) : WritevState := ⟨iov, 0, 0, []⟩

def EINVAL : Nat := 22

/-- `sancus_writev` with a bound on the calls it makes. -/
def sancusWritev (fuel : Nat) (kernel : Kernel) (iov : List Iovec) (iovcnt : Int) :
    Option WritevResult :=
  if iovcnt < 0 then some ⟨-EINVAL, none, []⟩
  else Loop.run (writevRound kernel) fuel (writevStart (iov.take iovcnt.toNat))

/-! ### Consuming a list of segments -/

variable {iov done rest : List Iovec} {v : Iovec} {wc n k : Nat}

@[simp] theorem total_cons (v : Iovec) (iov : List Iovec) :
    total (v :: iov) = v.iov_len + total iov := by simp [total]

@[simp] theorem addrs_cons (v : Iovec) (iov : List Iovec) :
    addrs (v :: iov) = List.range' v.iov_base v.iov_len ++ addrs iov := rfl

@[simp] theorem addrs_append (iov iov' : List Iovec) :
    addrs (iov ++ iov') = addrs iov ++ addrs iov' :=
  List.flatMap_append

@[simp] theorem addrs_length (iov : List Iovec) : (addrs iov).length = total iov := by
  induction iov with
  | nil => rfl
  | cons v iov ih => rw [addrs_cons, List.length_append, ih, List.length_range', total_cons]

theorem contents_eq (memory : Nat → UInt8) (iov : List Iovec) :
    contents memory iov = (addrs iov).map memory := by
  rw [contents, addrs, List.map_flatMap]

/-- Consuming whole segments. -/
theorem consume_done (hne : ∀ v ∈ done, 0 < v.iov_len) :
    consume wc (total done) (done ++ rest) = rest := by
  induction done with
  | nil => cases rest <;> rfl
  | cons v done ih =>
    have hv : 0 < v.iov_len := hne v (by simp)
    rw [List.cons_append, consume, total_cons, if_neg (by omega), if_pos (by omega),
      Nat.add_sub_cancel_left]
    exact ih fun w hw => hne w (by simp [hw])

/-- Consuming into the middle of a segment: its base moves by what the call took, not by what
    was taken of this segment. -/
theorem consume_inside (hk : 0 < k) (hlt : k < v.iov_len) :
    consume wc (total done + k) (done ++ v :: rest) =
      ⟨v.iov_base + wc, v.iov_len - k⟩ :: rest := by
  induction done with
  | nil =>
    show consume wc (0 + k) (v :: rest) = _
    rw [Nat.zero_add, consume, if_neg (by omega), if_neg (by omega)]
  | cons w done ih =>
    rw [List.cons_append, consume, total_cons, if_neg (by omega), if_pos (by omega),
      Nat.add_assoc, Nat.add_sub_cancel_left]
    exact ih

/-- Consuming what was taken leaves as many bytes as were not taken. -/
theorem total_consume (h : n ≤ total iov) : total (consume wc n iov) = total iov - n := by
  induction iov generalizing n with
  | nil => simp [consume, total]
  | cons v iov ih =>
    rw [total_cons] at h ⊢
    rw [consume]
    by_cases h0 : n = 0
    · rw [if_pos h0, total_cons, h0, Nat.sub_zero]
    · rw [if_neg h0]
      by_cases hv : v.iov_len ≤ n
      · rw [if_pos hv, ih (by omega)]
        omega
      · rw [if_neg hv, total_cons]
        show v.iov_len - n + total iov = _
        omega

/-- Taking `n` bytes of a list of segments ends with a segment, or inside one. -/
theorem split_total (h : n ≤ total iov) :
    (∃ done rest, iov = done ++ rest ∧ n = total done) ∨
      ∃ done v rest k, iov = done ++ v :: rest ∧ n = total done + k ∧ 0 < k ∧ k < v.iov_len := by
  induction iov generalizing n with
  | nil => exact .inl ⟨[], [], rfl, Nat.le_zero.mp h⟩
  | cons v iov ih =>
    rw [total_cons] at h
    by_cases hv : v.iov_len ≤ n
    · rcases ih (n := n - v.iov_len) (by omega) with
        ⟨done, rest, rfl, hn⟩ | ⟨done, w, rest, k, rfl, hn, hk, hlt⟩
      · exact .inl ⟨v :: done, rest, rfl, by rw [total_cons]; omega⟩
      · exact .inr ⟨v :: done, w, rest, k, rfl, by rw [total_cons]; omega, hk, hlt⟩
    · by_cases h0 : n = 0
      · exact .inl ⟨[], v :: iov, rfl, h0⟩
      · exact .inr ⟨[], v, iov, n, rfl, (Nat.zero_add n).symm, by omega, by omega⟩

/-- Taking `n` bytes finishes the first segment and ends inside a later one. -/
def CrossesInto (n : Nat) (iov : List Iovec) : Prop :=
  ∃ done v rest k, iov = done ++ v :: rest ∧ done ≠ [] ∧ n = total done + k ∧
    0 < k ∧ k < v.iov_len

theorem total_pos (hne : ∀ v ∈ iov, 0 < v.iov_len) (h : iov ≠ []) : 0 < total iov := by
  cases iov with
  | nil => exact absurd rfl h
  | cons v iov =>
    have hv := hne v (by simp)
    rw [total_cons]
    omega

/-- Consuming what was taken leaves the rest, unless the taking crossed into a segment. -/
theorem consume_addrs (hne : ∀ v ∈ iov, 0 < v.iov_len) (h : n ≤ total iov)
    (hcross : ¬ CrossesInto n iov) :
    addrs (consume n n iov) = (addrs iov).drop n ∧ ∀ v ∈ consume n n iov, 0 < v.iov_len := by
  rcases split_total h with ⟨done, rest, rfl, rfl⟩ | ⟨done, v, rest, k, rfl, rfl, hk, hlt⟩
  · -- The taking ended with a segment: whole segments are gone.
    rw [consume_done fun v hv => hne v (List.mem_append_left _ hv)]
    refine ⟨?_, fun v hv => hne v (List.mem_append_right _ hv)⟩
    rw [addrs_append, ← addrs_length, List.drop_left]
  · -- The segment that was stopped in is the first one.
    have hdone : done = [] := by
      by_contra hnil
      exact hcross ⟨done, v, rest, k, rfl, hnil, rfl, hk, hlt⟩
    obtain rfl := hdone
    rw [consume_inside hk hlt]
    constructor
    · show List.range' (v.iov_base + (0 + k)) (v.iov_len - k) ++ addrs rest =
        (List.range' v.iov_base v.iov_len ++ addrs rest).drop (0 + k)
      rw [Nat.zero_add, List.drop_append_of_le_length (by simp; omega), List.drop_range']
      simp
    · intro w hw
      rcases List.mem_cons.mp hw with rfl | hw
      · show 0 < v.iov_len - k
        omega
      · exact hne w (by simp [hw])

/-! ### What a state is about to send -/

variable {kernel : Kernel} {s s' : WritevState} {r : WritevResult} {want : List Nat}

/-- What is left to send is what has not been sent. -/
structure Right (want : List Nat) (s : WritevState) : Prop where
  want_eq : want = s.sent ++ addrs s.iov
  wt_eq : s.wt = s.sent.length
  nonempty : ∀ v ∈ s.iov, 0 < v.iov_len

/-- What has been sent is right, and the next byte to be sent is not the one that follows. -/
def Skewed (want : List Nat) (s : WritevState) : Prop :=
  ∃ a after v iov, want = s.sent ++ a :: after ∧ s.iov = v :: iov ∧ 0 < v.iov_len ∧
    v.iov_base ≠ a

/-- A byte has been sent that is not to be sent there. -/
def Wrong (want : List Nat) (s : WritevState) : Prop := ¬ s.sent <+: want

theorem right_start (hne : ∀ v ∈ iov, 0 < v.iov_len) : Right (addrs iov) (writevStart iov) :=
  ⟨rfl, rfl, hne⟩

/-- A call that does not cross into a segment keeps a state right. -/
theorem Right.take (h : Right want s) (hn : n ≤ total s.iov) (hcross : ¬ CrossesInto n s.iov) :
    Right want (s.take n) := by
  obtain ⟨haddrs, hne⟩ := consume_addrs h.nonempty hn hcross
  refine ⟨?_, ?_, hne⟩
  · show want = s.sent ++ (addrs s.iov).take n ++ addrs (consume n n s.iov)
    rw [haddrs, List.append_assoc, List.take_append_drop]
    exact h.want_eq
  · show s.wt + n = ((s.sent ++ (addrs s.iov).take n).length : Nat)
    rw [h.wt_eq, List.length_append, List.length_take, addrs_length, Nat.min_eq_left hn]
    omega

/-- A call that crosses into a segment skews the base of what is left of it. -/
theorem Right.skewed (h : Right want s) (hcross : CrossesInto n s.iov) :
    Skewed want (s.take n) := by
  obtain ⟨done, v, rest, k, hiov, hdone, rfl, hk, hlt⟩ := hcross
  have hpos : 0 < total done :=
    total_pos (fun w hw => h.nonempty w (hiov ▸ List.mem_append_left _ hw)) hdone
  -- The segment that was stopped in is split where the call stopped.
  have hrange : List.range' v.iov_base v.iov_len = List.range' v.iov_base k ++
      (v.iov_base + k) :: List.range' (v.iov_base + k + 1) (v.iov_len - k - 1) := by
    rw [← List.range'_succ, List.range'_append_1]
    congr 1
    omega
  refine ⟨v.iov_base + k, List.range' (v.iov_base + k + 1) (v.iov_len - k - 1) ++ addrs rest,
    ⟨v.iov_base + (total done + k), v.iov_len - k⟩, rest, ?_, ?_, ?_, ?_⟩
  · show want = s.sent ++ (addrs s.iov).take (total done + k) ++ _
    have htake : (addrs s.iov).take (total done + k) = addrs done ++ List.range' v.iov_base k := by
      rw [hiov, addrs_append, addrs_cons, hrange, ← addrs_length, List.append_assoc,
        List.take_length_add_append, List.take_left' List.length_range']
    rw [htake, h.want_eq, hiov, addrs_append, addrs_cons, hrange]
    simp
  · show consume _ _ s.iov = _
    rw [hiov, consume_inside hk hlt]
  · show 0 < v.iov_len - k
    omega
  · show v.iov_base + (total done + k) ≠ v.iov_base + k
    omega

/-- Taking bytes in a skewed state sends a wrong one. -/
theorem Skewed.wrong (h : Skewed want s) (hn : 0 < n) : Wrong want (s.take n) := by
  obtain ⟨a, after, v, iov, rfl, hiov, hv, hne⟩ := h
  intro hprefix
  -- The first byte taken is the one at the skewed base.
  have hsent : (s.take n).sent = s.sent ++ v.iov_base ::
      (List.range' (v.iov_base + 1) (v.iov_len - 1) ++ addrs iov).take (n - 1) := by
    show s.sent ++ (addrs s.iov).take n = _
    obtain ⟨n, rfl⟩ := Nat.exists_eq_succ_of_ne_zero (Nat.pos_iff_ne_zero.mp hn)
    obtain ⟨l, hl⟩ := Nat.exists_eq_succ_of_ne_zero (Nat.pos_iff_ne_zero.mp hv)
    rw [hiov, addrs_cons, hl, List.range'_succ]
    rfl
  rw [hsent, List.prefix_append_right_inj, List.cons_prefix_cons] at hprefix
  exact hne hprefix.1

/-- A wrong byte stays sent. -/
theorem Wrong.take (h : Wrong want s) (n : Nat) : Wrong want (s.take n) :=
  fun hprefix => h ((List.prefix_append _ _).trans hprefix)

/-! ### Rounds and runs -/

/-- Of an array with a length of its own, the function returns what its loop leaves with. -/
theorem sancusWritev_returns :
    (∃ fuel, sancusWritev fuel kernel iov iov.length = some r) ↔
      Loop.Returns (writevRound kernel) (writevStart iov) r := by
  have hcnt : ¬ (iov.length : Int) < 0 := by omega
  rw [Loop.returns_iff_run]
  apply exists_congr
  intro fuel
  rw [sancusWritev, if_neg hcnt, Int.toNat_natCast, List.take_length]

/-- What a round that goes round again has done. -/
theorem writevRound_again (h : writevRound kernel s = .again s') :
    s.iov ≠ [] ∧
      ((∃ n, kernel.reply s.calls (total s.iov) = .took n ∧ s' = s.take n) ∨
        kernel.reply s.calls (total s.iov) = .failed EINTR ∧ s' = s.interrupted) := by
  unfold writevRound at h
  split at h
  · cases h
  · next hiov =>
    refine ⟨hiov, ?_⟩
    split at h
    · next n hn => exact .inl ⟨n, hn, (Round.again.inj h).symm⟩
    · next e he =>
      split at h
      · next heq => exact .inr ⟨heq ▸ he, (Round.again.inj h).symm⟩
      · cases h

/-- What a round that leaves returns. -/
theorem writevRound_leave (h : writevRound kernel s = .leave r) :
    s.iov = [] ∧ r = ⟨s.wt, none, s.sent⟩ ∨
      s.iov ≠ [] ∧ ∃ e : Nat, r = ⟨-e, some e, s.sent⟩ := by
  unfold writevRound at h
  split at h
  · next hiov => exact .inl ⟨hiov, (Round.leave.inj h).symm⟩
  · next hiov =>
    split at h
    · cases h
    · next e he =>
      split at h
      · cases h
      · exact .inr ⟨hiov, e, (Round.leave.inj h).symm⟩

theorem writevRound_took (hiov : s.iov ≠ []) (h : kernel.reply s.calls (total s.iov) = .took n) :
    writevRound kernel s = .again (s.take n) := by
  rw [writevRound, if_neg hiov, h]

theorem writevRound_interrupted (hiov : s.iov ≠ [])
    (h : kernel.reply s.calls (total s.iov) = .failed EINTR) :
    writevRound kernel s = .again s.interrupted := by
  rw [writevRound, if_neg hiov, h]
  exact if_pos rfl

theorem Skewed.total_pos (h : Skewed want s) : 0 < total s.iov := by
  obtain ⟨_, _, v, iov, _, hiov, hv, _⟩ := h
  rw [hiov, total_cons]
  omega

theorem Wrong.again (h : Wrong want s) (hs : writevRound kernel s = .again s') :
    Wrong want s' := by
  obtain ⟨_, ⟨n, _, rfl⟩ | ⟨_, rfl⟩⟩ := writevRound_again hs
  · exact h.take n
  · exact h

/-- Once skewed, the loop stays skewed until bytes are taken, and is wrong from then on. -/
theorem skewed_or_wrong_again (h : Skewed want s ∨ Wrong want s)
    (hs : writevRound kernel s = .again s') : Skewed want s' ∨ Wrong want s' := by
  rcases h with h | h
  · obtain ⟨_, ⟨n, hn, rfl⟩ | ⟨_, rfl⟩⟩ := writevRound_again hs
    · exact .inr (h.wrong (kernel.took_pos hn h.total_pos))
    · exact .inl h
  · exact .inr (h.again hs)

/-- **Step lemma.**  A round keeps a right state right, unless its call crosses into a
    segment, which makes it skewed. -/
theorem Right.again (h : Right want s) (hs : writevRound kernel s = .again s') :
    Right want s' ∨ Skewed want s' ∧
      ∃ n, kernel.reply s.calls (total s.iov) = .took n ∧ CrossesInto n s.iov ∧ s' = s.take n := by
  obtain ⟨_, ⟨n, hn, rfl⟩ | ⟨_, rfl⟩⟩ := writevRound_again hs
  · by_cases hcross : CrossesInto n s.iov
    · exact .inr ⟨h.skewed hcross, n, hn, hcross, rfl⟩
    · exact .inl (h.take (kernel.took_le hn) hcross)
  · exact .inl ⟨h.want_eq, h.wt_eq, h.nonempty⟩

/-- Every state of a run is right, skewed or wrong. -/
theorem visits_classified (hne : ∀ v ∈ iov, 0 < v.iov_len)
    (h : Loop.Visits (writevRound kernel) (writevStart iov) s) :
    Right (addrs iov) s ∨ Skewed (addrs iov) s ∨ Wrong (addrs iov) s := by
  apply h.invariant (I := fun s => Right (addrs iov) s ∨ Skewed (addrs iov) s ∨ Wrong (addrs iov) s)
    ?_ (.inl (right_start hne))
  intro a b ha hab
  rcases ha with ha | ha
  · rcases ha.again hab with hb | ⟨hb, _⟩
    · exact .inl hb
    · exact .inr (.inl hb)
  · exact .inr (skewed_or_wrong_again ha hab)

/-! ### The condition -/

/-- After a call that crossed into a segment no call takes bytes. -/
def NoTakeAfterCrossing (kernel : Kernel) (iov : List Iovec) : Prop :=
  ∀ s n, Loop.Visits (writevRound kernel) (writevStart iov) s →
    kernel.reply s.calls (total s.iov) = .took n → CrossesInto n s.iov →
      ∀ t k, Loop.Visits (writevRound kernel) (s.take n) t → t.iov ≠ [] →
        kernel.reply t.calls (total t.iov) ≠ .took k

/-- No state with segments to write is one from which every call is interrupted. -/
def InterruptsEnd (kernel : Kernel) (iov : List Iovec) : Prop :=
  ∀ s, Loop.Visits (writevRound kernel) (writevStart iov) s → s.iov ≠ [] →
    ∃ j, kernel.reply (s.calls + j) (total s.iov) ≠ .failed EINTR

/-- What is to be returned and sent: unless a call failed, the number of bytes, and those of
    the segments in order; when a call failed, the negated error, and a prefix of those. -/
def Emitted (iov : List Iovec) (r : WritevResult) : Prop :=
  match r.errno with
  | none   => r.ret = total iov ∧ ∀ memory : Nat → UInt8, r.sent.map memory = contents memory iov
  | some e => r.ret = -e ∧ ∀ memory : Nat → UInt8, r.sent.map memory <+: contents memory iov

/-- The gathered write returns, and has done what it is to do. -/
def Emits (kernel : Kernel) (iov : List Iovec) : Prop :=
  ∃ fuel r, sancusWritev fuel kernel iov iov.length = some r ∧ Emitted iov r

/-- Lists that agree as prefixes under every content of the memory are prefixes. -/
private theorem prefix_of_map_prefix {l l' : List Nat}
    (h : ∀ memory : Nat → UInt8, l.map memory <+: l'.map memory) : l <+: l' := by
  induction l generalizing l' with
  | nil => exact List.nil_prefix
  | cons a l ih =>
    cases l' with
    | nil => exact absurd (h fun _ => 0) (by simp)
    | cons b l' =>
      have hcons : ∀ memory : Nat → UInt8, memory a = memory b ∧ l.map memory <+: l'.map memory :=
        fun memory => by simpa [List.cons_prefix_cons] using h memory
      have hab : b = a := by
        have := (hcons fun i => if i = a then 1 else 0).1
        by_contra hne
        simp [hne] at this
      rw [hab, List.cons_prefix_cons]
      exact ⟨rfl, ih fun memory => (hcons memory).2⟩

/-- A run that emits has sent a prefix of the addresses. -/
theorem Emits.sent_prefix_addrs (h : Emits kernel iov) :
    ∃ r, Loop.Returns (writevRound kernel) (writevStart iov) r ∧ r.sent <+: addrs iov := by
  obtain ⟨fuel, r, hfuel, hout⟩ := h
  refine ⟨r, sancusWritev_returns.mp ⟨fuel, hfuel⟩, ?_⟩
  apply prefix_of_map_prefix
  intro memory
  rw [← contents_eq]
  unfold Emitted at hout
  split at hout
  · rw [hout.2 memory]
  · exact hout.2 memory

/-- A loop that has been wrong returns something that is not a prefix. -/
theorem Wrong.not_emits (hs : Loop.Visits (writevRound kernel) (writevStart iov) s)
    (h : Wrong (addrs iov) s) : ¬ Emits kernel iov := by
  intro hemits
  obtain ⟨r, hr, hprefix⟩ := hemits.sent_prefix_addrs
  refine (hr.of_visits hs).post (I := Wrong (addrs iov)) (Q := fun r => ¬ r.sent <+: addrs iov)
    (fun a b ha hab => ha.again hab) ?_ h hprefix
  intro a r ha hleave
  rcases writevRound_leave hleave with ⟨_, rfl⟩ | ⟨_, e, rfl⟩
  · exact ha
  · exact ha

/-- **Necessity.**  Taking bytes after a crossing sends a wrong byte. -/
theorem Emits.noTakeAfterCrossing (hne : ∀ v ∈ iov, 0 < v.iov_len) (h : Emits kernel iov) :
    NoTakeAfterCrossing kernel iov := by
  intro s n hs hn hcross t k ht htiov hk
  have hsiov : s.iov ≠ [] := by
    obtain ⟨done, v, rest, _, hiov, _⟩ := hcross
    simp [hiov]
  have hnext := hs.tail (writevRound_took hsiov hn)
  -- The call that crossed leaves a skewed state, or a wrong one.
  have hskew : Skewed (addrs iov) (s.take n) ∨ Wrong (addrs iov) (s.take n) := by
    rcases visits_classified hne hs with hright | hbad
    · exact .inl (hright.skewed hcross)
    · exact skewed_or_wrong_again hbad (writevRound_took hsiov hn)
  have hbad : Skewed (addrs iov) t ∨ Wrong (addrs iov) t :=
    ht.invariant (I := fun s => Skewed (addrs iov) s ∨ Wrong (addrs iov) s)
      (fun a b ha hab => skewed_or_wrong_again ha hab) hskew
  have htake := (hnext.trans ht).tail (writevRound_took htiov hk)
  rcases hbad with hbad | hbad
  · exact Wrong.not_emits htake (hbad.wrong (kernel.took_pos hk hbad.total_pos)) h
  · exact Wrong.not_emits htake (hbad.take k) h

/-- Interrupts that go on for ever are an infinite loop. -/
theorem Emits.interruptsEnd (h : Emits kernel iov) : InterruptsEnd kernel iov := by
  intro s hs hiov
  by_contra hno
  push Not at hno
  obtain ⟨r, hr, _⟩ := h.sent_prefix_addrs
  -- From `s` on the segments stay, and every further call is interrupted.
  refine Loop.not_returns_of_invariant
    (I := fun t => t.iov = s.iov ∧ s.calls ≤ t.calls) ?_ ⟨rfl, le_rfl⟩ r (hr.of_visits hs)
  rintro t ⟨htiov, hle⟩
  have hreply : kernel.reply t.calls (total t.iov) = .failed EINTR := by
    have := hno (t.calls - s.calls)
    rwa [Nat.add_sub_cancel' hle, ← htiov] at this
  exact ⟨t.interrupted, writevRound_interrupted (htiov ▸ hiov) hreply, htiov, Nat.le_succ_of_le hle⟩

/-! ### Sufficiency -/

/-- A state of a run whose bytes are right, or skewed with nothing more to be taken. -/
def Good (kernel : Kernel) (iov : List Iovec) (s : WritevState) : Prop :=
  Loop.Visits (writevRound kernel) (writevStart iov) s ∧
    (Right (addrs iov) s ∨ Skewed (addrs iov) s ∧
      ∀ t k, Loop.Visits (writevRound kernel) s t → t.iov ≠ [] →
        kernel.reply t.calls (total t.iov) ≠ .took k)

theorem Good.again (hno : NoTakeAfterCrossing kernel iov) (h : Good kernel iov s)
    (hs : writevRound kernel s = .again s') : Good kernel iov s' := by
  obtain ⟨hvisits, hright | ⟨hskew, hnone⟩⟩ := h
  · refine ⟨hvisits.tail hs, ?_⟩
    rcases hright.again hs with hright' | ⟨hskew', n, hn, hcross, rfl⟩
    · exact .inl hright'
    · exact .inr ⟨hskew', hno s n hvisits hn hcross⟩
  · obtain ⟨hiov, ⟨n, hn, _⟩ | ⟨_, rfl⟩⟩ := writevRound_again hs
    · exact absurd hn (hnone s n (Loop.Visits.refl s) hiov)
    · exact ⟨hvisits.tail hs, .inr ⟨hskew, fun t k ht => hnone t k (ht.head hs)⟩⟩

theorem Good.total_pos (h : Good kernel iov s) (hiov : s.iov ≠ []) : 0 < total s.iov := by
  rcases h.2 with hright | ⟨hskew, _⟩
  · exact Fd.total_pos hright.nonempty hiov
  · exact hskew.total_pos

/-- A call that is not interrupted takes a byte or makes the loop return. -/
theorem Good.returns_of_reply (hno : NoTakeAfterCrossing kernel iov) (h : Good kernel iov s)
    (hiov : s.iov ≠ []) (hreply : kernel.reply s.calls (total s.iov) ≠ .failed EINTR)
    (ih : ∀ t, total t.iov < total s.iov → Good kernel iov t →
      ∃ r, Loop.Returns (writevRound kernel) t r) :
    ∃ r, Loop.Returns (writevRound kernel) s r := by
  cases hcall : kernel.reply s.calls (total s.iov) with
  | took n =>
    have hstep := writevRound_took hiov hcall
    have hpos := kernel.took_pos hcall (h.total_pos hiov)
    have hlt : total (s.take n).iov < total s.iov := by
      show total (consume n n s.iov) < total s.iov
      rw [total_consume (kernel.took_le hcall)]
      have := h.total_pos hiov
      omega
    obtain ⟨r, hr⟩ := ih _ hlt (h.again hno hstep)
    exact ⟨r, .again hstep hr⟩
  | failed e =>
    have he : e ≠ EINTR := fun he => hreply (he ▸ hcall)
    exact ⟨_, .leave (by rw [writevRound, if_neg hiov, hcall]; exact if_neg he)⟩

/-- From a good state the loop returns. -/
theorem Good.returns (hno : NoTakeAfterCrossing kernel iov) (hint : InterruptsEnd kernel iov)
    (h : Good kernel iov s) : ∃ r, Loop.Returns (writevRound kernel) s r := by
  induction hm : total s.iov using Nat.strongRecOn generalizing s with
  | ind m ih =>
    by_cases hiov : s.iov = []
    · exact ⟨_, .leave (by rw [writevRound, if_pos hiov])⟩
    · -- Inner induction on the calls up to the first one that is not interrupted.
      obtain ⟨j, hj⟩ := hint s h.1 hiov
      induction j generalizing s with
      | zero =>
        exact h.returns_of_reply hno hiov hj fun t ht hgood => ih _ (hm ▸ ht) hgood rfl
      | succ j ihj =>
        by_cases hreply : kernel.reply s.calls (total s.iov) = .failed EINTR
        · have hstep := writevRound_interrupted hiov hreply
          have hj' : kernel.reply (s.interrupted.calls + j) (total s.interrupted.iov) ≠
              .failed EINTR := by
            show kernel.reply (s.calls + 1 + j) (total s.iov) ≠ _
            rwa [Nat.add_right_comm, Nat.add_assoc]
          obtain ⟨r, hr⟩ := ihj (h.again hno hstep) hm hiov hj'
          exact ⟨r, .again hstep hr⟩
        · exact h.returns_of_reply hno hiov hreply fun t ht hgood => ih _ (hm ▸ ht) hgood rfl

/-- What a good state has sent is right so far. -/
theorem Good.sent_prefix (h : Good kernel iov s) : s.sent <+: addrs iov := by
  rcases h.2 with hright | ⟨⟨a, after, _, _, hwant, _⟩, _⟩
  · exact ⟨_, hright.want_eq.symm⟩
  · exact ⟨_, hwant.symm⟩

/-- **Sufficiency.**  A run of good states emits. -/
theorem emits_of_conditions (hne : ∀ v ∈ iov, 0 < v.iov_len)
    (hno : NoTakeAfterCrossing kernel iov) (hint : InterruptsEnd kernel iov) :
    Emits kernel iov := by
  have hstart : Good kernel iov (writevStart iov) := ⟨.refl _, .inl (right_start hne)⟩
  obtain ⟨r, hr⟩ := hstart.returns hno hint
  obtain ⟨fuel, hfuel⟩ := sancusWritev_returns.mpr hr
  refine ⟨fuel, r, hfuel, ?_⟩
  refine hr.post (I := Good kernel iov) (Q := Emitted iov) (fun a b ha hab => ha.again hno hab)
    ?_ hstart
  intro s r hs hleave
  rcases writevRound_leave hleave with ⟨hiov, rfl⟩ | ⟨_, e, rfl⟩
  · rcases hs.2 with hright | ⟨⟨_, _, v, _, _, hcons, _⟩, _⟩
    · have hsent : addrs iov = s.sent := by
        rw [hright.want_eq, hiov]
        exact List.append_nil _
      refine ⟨?_, fun memory => by rw [contents_eq, hsent]⟩
      -- The count and the bytes sent have grown together.
      show s.wt = total iov
      rw [hright.wt_eq, ← addrs_length, hsent]
    · -- A skewed state has a segment left, so its loop does not end.
      exact absurd (hiov.symm.trans hcons) (by simp)
  · -- A call failed: what has been sent so far is a prefix, skewed or not.
    refine ⟨rfl, ?_⟩
    intro memory
    rw [contents_eq]
    exact hs.sent_prefix.map memory

/-- **When the gathered write emits the concatenation.**  For every array of non-empty
    segments and every kernel: `sancus_writev` returns, having sent the segments in order
    (or a prefix of them when a call failed), if and only if no call takes bytes after one
    that ended inside a later segment than it began in, and interrupts end. -/
theorem writev_emits_iff (kernel : Kernel) (iov : List Iovec) (hne : ∀ v ∈ iov, 0 < v.iov_len) :
    Emits kernel iov ↔ NoTakeAfterCrossing kernel iov ∧ InterruptsEnd kernel iov :=
  ⟨fun h => ⟨h.noTakeAfterCrossing hne, h.interruptsEnd⟩,
    fun ⟨hno, hint⟩ => emits_of_conditions hne hno hint⟩

/-- A kernel whose first call takes at most `first` bytes and whose other calls take all. -/
def takesFirst (first : Nat) : Kernel where
  reply i room := .took (if i = 0 ∧ 0 < first ∧ first ≤ room then first else room)
  took_le {i room n} h := by
    obtain rfl := Reply.took.inj h
    split <;> omega
  took_pos {i room n} h hroom := by
    obtain rfl := Reply.took.inj h
    split <;> omega

/-- The rule at two segments, the first call stopping inside the first of them. -/
theorem writev_emits_iff_two :
    Emits (takesFirst 1) [⟨0, 2⟩, ⟨10, 4⟩] ↔
      NoTakeAfterCrossing (takesFirst 1) [⟨0, 2⟩, ⟨10, 4⟩] ∧
        InterruptsEnd (takesFirst 1) [⟨0, 2⟩, ⟨10, 4⟩] :=
  writev_emits_iff _ _ (by decide)

/-- **A wrong byte.**  Of segments of 2 and 4 bytes the first call takes 3; the base of the
    second then moves by 3 instead of 1, and what follows is not what is to be sent. -/
theorem writev_skips_bytes : ¬ Emits (takesFirst 3) [⟨0, 2⟩, ⟨10, 4⟩] := by
  intro h
  obtain ⟨r, hr, hprefix⟩ := h.sent_prefix_addrs
  have hrun : sancusWritev 3 (takesFirst 3) [⟨0, 2⟩, ⟨10, 4⟩] 2 =
      some ⟨6, none, [0, 1, 10, 13, 14, 15]⟩ := by decide
  obtain rfl := hr.unique (Loop.returns_of_run hrun)
  exact absurd hprefix (by decide)

end Sancus.Fd
