import Sancus.Fd.Writev

namespace Sancus.Fd

open CModel

/-!
# File descriptors — when the gathered write ends

The loop of `sancus_writev` counts segments, while a call of `writev` makes progress in
bytes.  Empty segments are consumed together with bytes only, so those at the end of the
array never are.

* `Progresses` — a kernel that takes bytes as long as there are any;
* `EndsFull` / `EndsEmpty` — what the last segment of an array is, and that consuming does
  not change it;
* `writev_returns_iff` — the loop returns exactly when the last segment is not empty.
-/

variable {kernel : Kernel} {iov : List Iovec} {v : Iovec} {wc n : Nat}

/-- A kernel whose calls make progress: one that is given a byte fails with `EINTR` only, one
    that is given none takes none, and only finitely many are interrupted. -/
structure Progresses (kernel : Kernel) : Prop where
  takes : ∀ {i room e}, 0 < room → kernel.reply i room = .failed e → e = EINTR
  takes_none : ∀ i, kernel.reply i 0 = .took 0
  interrupts_end : ∃ bound, ∀ i room, bound ≤ i → kernel.reply i room ≠ .failed EINTR

/-- A call takes what it takes, or is interrupted. -/
theorem Progresses.reply_cases (h : Progresses kernel) (i room : Nat) :
    (∃ n, kernel.reply i room = .took n) ∨ kernel.reply i room = .failed EINTR := by
  cases hreply : kernel.reply i room with
  | took n => exact .inl ⟨n, rfl⟩
  | failed e =>
    rcases Nat.eq_zero_or_pos room with rfl | hroom
    · rw [h.takes_none i] at hreply
      cases hreply
    · rw [h.takes hroom hreply]
      exact .inr rfl

/-! ### The last segment -/

/-- The array is empty or its last segment is not. -/
def EndsFull (iov : List Iovec) : Prop := ∀ v ∈ iov.getLast?, 0 < v.iov_len

/-- The array has a last segment, which is empty. -/
def EndsEmpty (iov : List Iovec) : Prop := ∃ v ∈ iov.getLast?, v.iov_len = 0

theorem not_endsFull : ¬ EndsFull iov ↔ EndsEmpty iov := by
  simp [EndsFull, EndsEmpty]

@[simp] theorem endsFull_nil : EndsFull [] := by simp [EndsFull]

@[simp] theorem endsFull_cons :
    EndsFull (v :: iov) ↔ (iov = [] → 0 < v.iov_len) ∧ EndsFull iov := by
  cases iov <;> simp [EndsFull, List.getLast?_cons_cons]

@[simp] theorem endsEmpty_cons :
    EndsEmpty (v :: iov) ↔ (iov = [] ∧ v.iov_len = 0) ∨ EndsEmpty iov := by
  cases iov <;> simp [EndsEmpty, List.getLast?_cons_cons]

theorem EndsEmpty.ne_nil (h : EndsEmpty iov) : iov ≠ [] := by
  rintro rfl
  simp [EndsEmpty] at h

/-- Segments that end with a full one have a byte. -/
theorem EndsFull.total_pos (h : EndsFull iov) (hiov : iov ≠ []) : 0 < total iov := by
  induction iov with
  | nil => exact absurd rfl hiov
  | cons v iov ih =>
    obtain ⟨hv, hrest⟩ := endsFull_cons.mp h
    rw [total_cons]
    by_cases hnil : iov = []
    · have := hv hnil
      omega
    · have := ih hrest hnil
      omega

/-- Consuming stops inside a segment with a byte left in it, or at its end. -/
theorem EndsFull.consume (h : EndsFull iov) : EndsFull (consume wc n iov) := by
  induction iov generalizing n with
  | nil => simp [Fd.consume]
  | cons v iov ih =>
    obtain ⟨hv, hrest⟩ := endsFull_cons.mp h
    rw [Fd.consume]
    by_cases h0 : n = 0
    · rwa [if_pos h0]
    · rw [if_neg h0]
      by_cases hle : v.iov_len ≤ n
      · rw [if_pos hle]
        exact ih hrest
      · rw [if_neg hle]
        apply endsFull_cons.mpr
        refine ⟨fun _ => ?_, hrest⟩
        show 0 < v.iov_len - n
        omega

/-- An empty last segment is not consumed: when the loop comes to it no byte is left to be
    accounted for. -/
theorem EndsEmpty.consume (h : EndsEmpty iov) (hn : n ≤ total iov) :
    EndsEmpty (consume wc n iov) := by
  induction iov generalizing n with
  | nil => simpa [Fd.consume] using h
  | cons v iov ih =>
    rw [total_cons] at hn
    rw [Fd.consume]
    by_cases h0 : n = 0
    · rwa [if_pos h0]
    · rw [if_neg h0]
      rcases endsEmpty_cons.mp h with ⟨rfl, hv⟩ | hrest
      · -- The segment is the last one, and would have to hold the `n` bytes.
        simp [total] at hn
        omega
      · by_cases hle : v.iov_len ≤ n
        · rw [if_pos hle]
          exact ih hrest (by omega)
        · rw [if_neg hle]
          exact endsEmpty_cons.mpr (.inr hrest)

/-! ### The loop -/

/-- An array that ends with an empty segment is never done with. -/
theorem not_returns_of_endsEmpty (hk : Progresses kernel) (h : EndsEmpty iov)
    (r : WritevResult) : ¬ Loop.Returns (writevRound kernel) (writevStart iov) r := by
  apply Loop.not_returns_of_invariant (I := fun s => EndsEmpty s.iov) ?_ h
  intro s hs
  rcases hk.reply_cases s.calls (total s.iov) with ⟨n, hn⟩ | hint
  · exact ⟨_, writevRound_took hs.ne_nil hn, hs.consume (kernel.took_le hn)⟩
  · exact ⟨_, writevRound_interrupted hs.ne_nil hint, hs⟩

/-- One that ends with a full segment is: a call takes a byte, or is one of the finitely many
    interrupted ones. -/
theorem returns_of_endsFull (hk : Progresses kernel) (h : EndsFull iov) :
    ∃ r, Loop.Returns (writevRound kernel) (writevStart iov) r := by
  obtain ⟨bound, hbound⟩ := hk.interrupts_end
  apply Loop.returns_of_measure (I := fun s => EndsFull s.iov)
    (fun s => total s.iov + (bound - s.calls)) ?_ h
  intro s s' hs hround
  obtain ⟨hiov, ⟨n, hn, rfl⟩ | ⟨hint, rfl⟩⟩ := writevRound_again hround
  · refine ⟨hs.consume, ?_⟩
    show total (Fd.consume n n s.iov) + (bound - (s.calls + 1)) <
      total s.iov + (bound - s.calls)
    have hpos : 0 < total s.iov := hs.total_pos hiov
    have htook : 0 < n := kernel.took_pos hn hpos
    rw [total_consume (kernel.took_le hn)]
    omega
  · refine ⟨hs, ?_⟩
    show total s.iov + (bound - (s.calls + 1)) < total s.iov + (bound - s.calls)
    have hlt : s.calls < bound := by
      by_contra hle
      exact hbound _ _ (not_lt.mp hle) hint
    omega

/-- **When the gathered write ends.**  With a kernel that makes progress, `sancus_writev`
    returns if and only if the array is empty or its last segment is not. -/
theorem writev_returns_iff (kernel : Kernel) (hk : Progresses kernel) (iov : List Iovec) :
    (∃ fuel r, sancusWritev fuel kernel iov iov.length = some r) ↔
      ∀ v ∈ iov.getLast?, 0 < v.iov_len := by
  rw [exists_comm]
  simp only [sancusWritev_returns]
  refine ⟨?_, returns_of_endsFull hk⟩
  rintro ⟨r, hr⟩
  by_contra hends
  exact not_returns_of_endsEmpty hk (not_endsFull.mp hends) r hr

theorem takesFirst_progresses (first : Nat) : Progresses (takesFirst first) where
  takes _ h := by simp [takesFirst] at h
  takes_none i := by simp [takesFirst]
  interrupts_end := ⟨0, by simp [takesFirst]⟩

/-- The rule at an empty segment between two full ones, the first call stopping before it. -/
theorem writev_returns_iff_between :
    (∃ fuel r, sancusWritev fuel (takesFirst 1) [⟨0, 1⟩, ⟨4, 0⟩, ⟨8, 2⟩] 3 = some r) ↔
      ∀ v ∈ ([⟨0, 1⟩, ⟨4, 0⟩, ⟨8, 2⟩] : List Iovec).getLast?, 0 < v.iov_len :=
  writev_returns_iff (takesFirst 1) (takesFirst_progresses 1) [⟨0, 1⟩, ⟨4, 0⟩, ⟨8, 2⟩]

/-- **Turning for ever.**  Of a segment of one byte and an empty one the first call takes the
    byte, and the further calls take none of none. -/
theorem writev_turns_for_ever :
    Progresses (takesFirst 0) ∧
      ¬ ∃ fuel r, sancusWritev fuel (takesFirst 0) [⟨0, 1⟩, ⟨4, 0⟩] 2 = some r := by
  refine ⟨takesFirst_progresses 0, ?_⟩
  rw [exists_comm]
  rintro ⟨r, hr⟩
  have hempty : EndsEmpty [⟨0, 1⟩, ⟨4, 0⟩] := ⟨⟨4, 0⟩, rfl, rfl⟩
  exact not_returns_of_endsEmpty (takesFirst_progresses 0) hempty r (sancusWritev_returns.mp hr)

end Sancus.Fd
