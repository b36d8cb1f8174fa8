import Sancus.Fd.Write

namespace Sancus.Log

open CModel
open Fd (Iovec Kernel NoTakeAfterCrossing InterruptsEnd Settles WritevResult)

/-!
# Loggers — how a line gets to its descriptor

The backend for file descriptors hands the parts of a line to `sancus_writev`, which is given
where they lie.  A line gets through whole if no call fails for good, the interruptions end, and no
call takes bytes after one that ended inside a later part than it began in.

* `Placed` — the parts of a line, and where they lie;
* `Writer`, `Writer.writev`, `Writer.emitted` — what writing a line depends on, and what it gives;
* `Writer.Whole` — a writer that takes lines whole;
* `Writer.Whole.writev` — the descriptor is then given the line.
-/

/-! ### Writers -/

/-- The segments of an array, and the memory that they are in. -/
structure Placed (parts : List (List UInt8)) where
  iov : List Iovec
  memory : Nat → UInt8
  holds : iov.map (fun v => (List.range' v.iov_base v.iov_len).map memory) = parts

/-- What writing depends on: where parts are placed, and what `writev(2)` answers. -/
structure Writer where
  place : ∀ parts, Placed parts
  kernel : Kernel

/-- `sancus_writev` on an array of segments, with a bound on the calls it makes. -/
def Writer.writev (w : Writer) (fuel : Nat) (parts : List (List UInt8)) : Option WritevResult :=
  Fd.sancusWritev fuel w.kernel (w.place parts).iov parts.length

/-- The value it returns, for a descriptor. -/
def Writer.returned (w : Writer) (fuel : Nat) : Int → List (List UInt8) → Int :=
  fun _ parts => ((w.writev fuel parts).map WritevResult.ret).getD 0

/-- The bytes that the descriptor has taken. -/
def Writer.emitted (w : Writer) (fuel : Nat) (parts : List (List UInt8)) : Option (List UInt8) :=
  (w.writev fuel parts).map fun r => r.sent.map (w.place parts).memory

/-- The parts of a line are taken whole: the calls fail when they are interrupted only, which ends
    at some time, and after one that ended inside a later part than it began in, nothing more is
    taken. -/
structure Writer.Whole (w : Writer) : Prop where
  interrupted : ∀ {i room e}, w.kernel.reply i room = .failed e → e = Fd.EINTR
  settles : Settles w.kernel
  crossing : ∀ parts, parts.length ≤ 7 → (∀ part ∈ parts, part ≠ []) →
    NoTakeAfterCrossing w.kernel (w.place parts).iov

variable {parts : List (List UInt8)} {kernel : Kernel} {iov : List Iovec} {r : WritevResult}
  {w : Writer}

/-! ### Parts in memory -/

theorem Placed.length_eq (p : Placed parts) : p.iov.length = parts.length := by
  rw [← List.length_map, p.holds]

/-- The bytes of all segments are those of all parts. -/
theorem Placed.contents_eq (p : Placed parts) : Fd.contents p.memory p.iov = parts.flatten := by
  rw [Fd.contents, List.flatMap_def, p.holds]

theorem Placed.len_pos (p : Placed parts) (h : ∀ part ∈ parts, part ≠ []) :
    ∀ v ∈ p.iov, 0 < v.iov_len := by
  intro v hv
  have hpart := h _ (p.holds ▸ List.mem_map_of_mem hv)
  by_contra hlen
  rw [show v.iov_len = 0 by omega] at hpart
  exact hpart rfl

/-! ### Lines that get through -/

/-- An error that is returned comes from a call that failed otherwise than by an interruption. -/
theorem errno_of_writev (hinterrupted : ∀ {i room e}, kernel.reply i room = .failed e → e = Fd.EINTR)
    (h : Loop.Returns (Fd.writevRound kernel) (Fd.writevStart iov) r) : r.errno = none := by
  -- it is the round that leaves which sets it
  refine h.post (I := fun _ => True) (Q := fun r => r.errno = none) (fun _ _ _ _ => trivial) ?_
    trivial
  intro s r _ hleave
  unfold Fd.writevRound at hleave
  split at hleave
  · obtain rfl := Round.leave.inj hleave
    rfl
  · split at hleave
    · cases hleave
    · next e he =>
      rw [if_pos (hinterrupted he)] at hleave
      cases hleave

theorem interruptsEnd_of_settles (h : Settles kernel) : InterruptsEnd kernel iov :=
  fun s _ _ => h s.calls (Fd.total s.iov)

/-- **A line that gets through.**  With enough calls `sancus_writev` gives the descriptor all of
    it. -/
theorem Writer.Whole.writev (hw : w.Whole) (hcount : parts.length ≤ 7)
    (hne : ∀ part ∈ parts, part ≠ []) :
    ∃ calls, ∀ fuel, calls ≤ fuel → w.emitted fuel parts = some parts.flatten := by
  have hiov := (w.place parts).len_pos hne
  obtain ⟨calls, r, hrun, hemitted⟩ := Fd.emits_of_conditions hiov
    (hw.crossing parts hcount hne) (interruptsEnd_of_settles hw.settles)
  have hnone : r.errno = none := errno_of_writev hw.interrupted
    (Fd.sancusWritev_returns.mp ⟨calls, hrun⟩)
  have hsent : r.sent.map (w.place parts).memory = parts.flatten := by
    rw [Fd.Emitted, hnone] at hemitted
    rw [hemitted.2, (w.place parts).contents_eq]
  refine ⟨calls, fun fuel hfuel => ?_⟩
  -- a bound above the calls that are made changes nothing
  have hmore : Fd.sancusWritev fuel w.kernel (w.place parts).iov (w.place parts).iov.length =
      some r := by
    have hnot : ¬ ((w.place parts).iov.length : Int) < 0 := by omega
    rw [Fd.sancusWritev, if_neg hnot] at hrun ⊢
    exact Loop.run_of_le hrun hfuel
  rw [(w.place parts).length_eq] at hmore
  rw [Writer.emitted, Writer.writev, hmore, Option.map_some, hsent]

/-! ### A writer -/

/-- The parts one behind the other, from an address on. -/
def layOut : Nat → List (List UInt8) → List Iovec
  | _,    []            => []
  | base, part :: parts => ⟨base, part.length⟩ :: layOut (base + part.length) parts

theorem layOut_holds (lead : List UInt8) (parts : List (List UInt8)) :
    (layOut lead.length parts).map (fun v => (List.range' v.iov_base v.iov_len).map
      fun i => (lead ++ parts.flatten).getD i 0) = parts := by
  induction parts generalizing lead with
  | nil => rfl
  | cons part parts ih =>
    have hpart : (List.range' lead.length part.length).map
        (fun i => (lead ++ (part :: parts).flatten).getD i 0) = part := by
      apply List.ext_getElem
      · simp
      · intro i hi hi'
        simp [List.getElem?_append, hi']
    have hrest := ih (lead ++ part)
    rw [List.length_append, List.append_assoc] at hrest
    rw [layOut, List.map_cons, hpart]
    exact congrArg (part :: ·) hrest

/-- The first call for each line is interrupted, and the second takes all of it. -/
def patientKernel : Kernel where
  reply i room := if i = 0 then .failed Fd.EINTR else .took room
  took_le {i room n} h := by
    split at h
    · cases h
    · exact (Fd.Reply.took.inj h).ge
  took_pos {i room n} h hroom := by
    split at h
    · cases h
    · exact Fd.Reply.took.inj h ▸ hroom

/-- A call that takes all that it is given crosses into no segment. -/
theorem not_crossesInto_total : ¬ Fd.CrossesInto (Fd.total iov) iov := by
  rintro ⟨done, v, rest, k, rfl, -, htotal, -, hlt⟩
  simp [Fd.total] at htotal hlt
  omega

def patientWriter : Writer :=
  ⟨fun parts => ⟨layOut 0 parts, fun i => parts.flatten.getD i 0, layOut_holds [] parts⟩,
    patientKernel⟩

theorem patientWriter_whole : patientWriter.Whole where
  interrupted {i room e} h := by
    change (if i = 0 then Fd.Reply.failed Fd.EINTR else .took room) = .failed e at h
    split at h
    · exact (Fd.Reply.failed.inj h).symm
    · cases h
  settles i room := ⟨1, by simp [patientWriter, patientKernel]⟩
  crossing parts _ _ s n _ hn hcross := by
    change (if s.calls = 0 then Fd.Reply.failed Fd.EINTR else .took (Fd.total s.iov)) = .took n at hn
    split at hn
    · cases hn
    · obtain rfl := Fd.Reply.took.inj hn
      exact absurd hcross not_crossesInto_total

end Sancus.Log
