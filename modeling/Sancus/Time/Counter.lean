import Sancus.CModel.Machine
import Sancus.Time.Deadline

namespace Sancus.Time

open CModel

/-!
# Time — a timespec as a counter

A program keeps a time in a variable and updates it over and over: a deadline is moved on, a span
is taken off, what is left or has elapsed is put in its place.  As long as the count of
nanoseconds stays where a canonical timespec can hold it, the variable is that count.

* `TimeOp` — the updates, by the functions of `time.h` and `time.c`;
* `TimeOp.count` — the same on a number of nanoseconds, and `TimeOp.Allowed`, where it is one;
* `Counts` — a timespec that holds a count, and `run_counts`, that every allowed update keeps it;
* `time_counts` — over any sequence of updates.
-/

/-! ### The updates -/

/-- An update of a time: `sancus_time_add`, `sancus_time_add_ms`, `sancus_time_sub`, and what is
    left of it until a time, or what has elapsed since one. -/
inductive TimeOp where
  | add (b : Timespec)
  | addMs (ms : Int)
  | sub (b : Timespec)
  | left (until_ : Timespec)
  | elapsed (since : Timespec)

def TimeOp.run (a : Timespec) : TimeOp → Option Timespec
  | add b         => (sancusTimeAdd a b).map Prod.fst
  | addMs ms      => (sancusTimeAddMs a ms).map Prod.fst
  | sub b         => (sancusTimeSub a b).map Prod.fst
  | left until_   => sancusTimeLeft a until_
  | elapsed since => sancusTimeElapsed a since

/-- The update on a number of nanoseconds. -/
def TimeOp.count (v : Int) : TimeOp → Int
  | add b         => v + b.value
  | addMs ms      => v + ms * 1000000
  | sub b         => v - b.value
  | left until_   => max (until_.value - v) 0
  | elapsed since => max (v - since.value) 0

/-- A timespec holds the count. -/
structure Counts (t : Timespec) (v : Int) : Prop where
  exact : t.Exact v
  nonneg : 0 ≤ v
  fits : v / NSEC ≤ LONG_MAX

/-- The update of a time with the count `v` stays where a timespec can hold it: it does not come
    below zero or above the largest number of seconds, and times to be compared are not more
    seconds apart than an `int` can tell. -/
def TimeOp.Allowed (v : Int) : TimeOp → Prop
  | add b         => Counts b b.value ∧ (v + b.value) / NSEC ≤ LONG_MAX
  | addMs ms      => 0 ≤ ms ∧ ms * 1000000 ≤ LONG_MAX ∧ (v + ms * 1000000) / NSEC ≤ LONG_MAX
  | sub b         => Counts b b.value ∧ b.value ≤ v
  | left until_   => Counts until_ until_.value ∧
    -(INT_MAX + 1) ≤ until_.value / NSEC - v / NSEC ∧ until_.value / NSEC - v / NSEC ≤ INT_MAX
  | elapsed since => Counts since since.value ∧
    -(INT_MAX + 1) ≤ v / NSEC - since.value / NSEC ∧ v / NSEC - since.value / NSEC ≤ INT_MAX

/-- Every update is, at the count it comes to. -/
def AllAllowed : Int → List TimeOp → Prop
  | _, []        => True
  | v, op :: ops => op.Allowed v ∧ AllAllowed (op.count v) ops

/-! ### One update -/

variable {t a b : Timespec} {u v : Int} {op : TimeOp} {ops : List TimeOp}

/-- A timespec that holds a count is the canonical one. -/
theorem Counts.eq (h : Counts t v) : t = ofNs v := by
  obtain ⟨⟨hcanonical, hvalue⟩, hnonneg, _⟩ := h
  rw [← hvalue] at hnonneg ⊢
  exact eq_ofNs hcanonical hnonneg

theorem counts_ofNs (hv : 0 ≤ v) (hmax : v / NSEC ≤ LONG_MAX) : Counts (ofNs v) v :=
  ⟨ofNs_exact hv, hv, hmax⟩

/-- What is left, whether the time has passed or not. -/
theorem left_counts (ha : Counts a u) (hb : Counts b v) (hlo : -(INT_MAX + 1) ≤ v / NSEC - u / NSEC)
    (hhi : v / NSEC - u / NSEC ≤ INT_MAX) :
    ∃ t, sancusTimeLeft a b = some t ∧ Counts t (max (v - u) 0) := by
  rw [ha.eq, hb.eq]
  have hu := ha.nonneg
  have hfits := hb.fits
  rcases le_or_gt u v with hle | hlt
  · refine ⟨_, sancusTimeLeft_ofNs hu hle hfits hhi, ?_⟩
    rw [max_eq_left (by omega)]
    exact counts_ofNs (by omega) (by rw [NSEC_eq] at *; omega)
  · have hgt := sancusTimeIsGt_ofNs hb.nonneg hu hlo hhi
    rw [decide_eq_false (by omega)] at hgt
    refine ⟨ofNs 0, ?_, ?_⟩
    · unfold sancusTimeLeft
      rw [hgt]
      rfl
    · rw [max_eq_right (by omega)]
      exact counts_ofNs le_rfl (by decide)

/-- **Step lemma.**  An allowed update is defined, and leaves the count. -/
theorem Counts.update (ht : Counts t v) (h : op.Allowed v) :
    ∃ t', op.run t = some t' ∧ Counts t' (op.count v) := by
  have hv := ht.nonneg
  cases op with
  | add b =>
    obtain ⟨hb, hmax⟩ := h
    have hadd := timeAdd_ofNs hv hb.nonneg hmax
    rw [← ht.eq, ← hb.eq] at hadd
    exact ⟨_, congrArg (Option.map Prod.fst) hadd,
      counts_ofNs (Int.add_nonneg hv hb.nonneg) hmax⟩
  | addMs ms =>
    obtain ⟨hms, hns, hmax⟩ := h
    have hpos : 0 ≤ ms * 1000000 := by omega
    have hadd := timeAdd_ofNs hv hpos hmax
    refine ⟨_, ?_, counts_ofNs (Int.add_nonneg hv hpos) hmax⟩
    show (sancusTimeAddMs t ms).map Prod.fst = _
    unfold sancusTimeAddMs
    rw [sancusTimeNewMs_eq hms hns, ht.eq]
    exact congrArg (Option.map Prod.fst) hadd
  | sub b =>
    obtain ⟨hb, hle⟩ := h
    have hsub := sancusTimeSub2_ofNs hb.nonneg hle ht.fits
    rw [← ht.eq, ← hb.eq] at hsub
    refine ⟨ofNs (v - b.value), ?_, counts_ofNs (by omega) ?_⟩
    · rw [← hsub]
      show (sancusTimeSub t b).map Prod.fst = sancusTimeSub2 t b
      unfold sancusTimeSub sancusTimeSub2
      cases sancusTimeNeg b with
      | none => rfl
      | some nb =>
        show (timeAdd t nb).map Prod.fst = (timeAdd t nb).bind fun r => some r.1
        rw [Option.map_eq_bind]
        rfl
    · have hb := hb.nonneg
      have hfits := ht.fits
      rw [NSEC_eq] at *
      omega
  | left until_ =>
    obtain ⟨hb, hlo, hhi⟩ := h
    exact left_counts ht hb hlo hhi
  | elapsed since =>
    obtain ⟨hb, hlo, hhi⟩ := h
    -- the same function with its arguments the other way round
    exact left_counts hb ht hlo hhi

/-! ### Sequences of updates -/

/-- **Run lemma.** -/
theorem run_counts (ht : Counts t v) (h : AllAllowed v ops) :
    ∃ t', Machine.run TimeOp.run t ops = some t' ∧ Counts t' (ops.foldl TimeOp.count v) := by
  induction ops generalizing t v with
  | nil => exact ⟨t, rfl, ht⟩
  | cons op ops ih =>
    obtain ⟨hop, hops⟩ := h
    obtain ⟨t₁, hrun, ht₁⟩ := ht.update hop
    obtain ⟨t', hrest, ht'⟩ := ih ht₁ hops
    refine ⟨t', ?_, ht'⟩
    rw [Machine.run, hrun]
    exact hrest

/-- **A timespec is a counter.**  In every sequence of updates that stays where a timespec can
    hold the count, nothing overflows, and the time is the canonical one of the count, without
    any drift; so two sequences that come to the same count leave the same time. -/
theorem time_counts (t : Timespec) (v : Int) (ops : List TimeOp) (ht : Counts t v)
    (h : AllAllowed v ops) :
    ∃ t', Machine.run TimeOp.run t ops = some t' ∧ Counts t' (ops.foldl TimeOp.count v) ∧
      ∀ u s ops', Counts s u → AllAllowed u ops' →
        ops'.foldl TimeOp.count u = ops.foldl TimeOp.count v →
          Machine.run TimeOp.run s ops' = some t' := by
  obtain ⟨t', hrun, ht'⟩ := run_counts ht h
  refine ⟨t', hrun, ht', ?_⟩
  intro u s ops' hs h' hcount
  obtain ⟨s', hrun', hs'⟩ := run_counts hs h'
  rw [hcount] at hs'
  rw [hrun', hs'.eq, ht'.eq]

/-- From 5.999 s on: 1.5 s more, 2.5 s less, and what has elapsed since the first second. -/
def updates : List TimeOp := [.addMs 1500, .sub ⟨2, 500000000⟩, .elapsed ⟨1, 0⟩]

/-- The rule for these updates. -/
theorem time_counts_three :
    Machine.run TimeOp.run ⟨5, 999000000⟩ updates = some ⟨3, 999000000⟩ ∧
      ∃ t', Machine.run TimeOp.run ⟨5, 999000000⟩ updates = some t' ∧ Counts t' 3999000000 := by
  refine ⟨by decide, ?_⟩
  have hcounts : ∀ s n : Int, 0 ≤ s → s ≤ 10 → 0 ≤ n → n < NSEC →
      Counts ⟨s, n⟩ (s * NSEC + n) := by
    intro s n hs hmax hn hlt
    refine ⟨⟨.inl ⟨hn, hlt⟩, Timespec.value_of_nonneg hs⟩, ?_, ?_⟩ <;> rw [NSEC_eq] at *
    · omega
    · rw [LONG_MAX]
      omega
  have hallowed : AllAllowed 5999000000 updates := by
    refine ⟨⟨?_, ?_, ?_⟩, ⟨hcounts 2 500000000 ?_ ?_ ?_ ?_, ?_⟩,
      ⟨hcounts 1 0 ?_ ?_ ?_ ?_, ?_, ?_⟩, trivial⟩ <;> decide
  obtain ⟨t', hrun, ht', _⟩ := time_counts ⟨5, 999000000⟩ 5999000000 updates
    (hcounts 5 999000000 (by decide) (by decide) (by decide) (by decide)) hallowed
  exact ⟨t', hrun, ht'⟩

end Sancus.Time
