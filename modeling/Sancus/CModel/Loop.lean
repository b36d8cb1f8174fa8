import Mathlib.Logic.Relation

namespace CModel

/-!
# C control flow — `while` loops

A loop is given by its body: one round either goes round again in a new state or
leaves the loop with a result.

* `Loop.run` — the loop with a bound on its rounds, which can be evaluated;
* `Loop.Returns` — the loop leaves with a result, after any number of rounds
  (`Loop.returns_iff_run`);
* `Loop.Visits` — the states in which a round of the loop begins;
* `Loop.Returns.post` — the invariant rule;
* `Loop.returns_of_measure` — the variant rule;
* `Loop.run_total` — both, for a bounded number of rounds;
* `Loop.run_map_of_simulates` — two loops with the same rounds;
* `Loop.not_returns_of_invariant` — an invariant that always goes round again is an
  infinite loop.
-/

/-- What one round of a loop does. -/
inductive Round (σ ρ : Type) where
  | again (s : σ)
  | leave (r : ρ)
  deriving DecidableEq

namespace Loop

variable {σ ρ : Type} (body : σ → Round σ ρ)

/-- Run at most `fuel` rounds; `none` when the loop has not left by then. -/
def run : Nat → σ → Option ρ
  | 0,        _ => none
  | fuel + 1, s =>
    match body s with
    | .again s' => run fuel s'
    | .leave r  => some r

/-- The loop started in `s` leaves with the result `r`. -/
inductive Returns : σ → ρ → Prop
  | leave {s : σ} {r : ρ} (h : body s = .leave r) : Returns s r
  | again {s s' : σ} {r : ρ} (h : body s = .again s') (ht : Returns s' r) : Returns s r

/-- A round of the loop started in `s` begins in `t`. -/
def Visits (s t : σ) : Prop := Relation.ReflTransGen (fun a b => body a = .again b) s t

variable {body} {s t u : σ} {r r' : ρ}

theorem returns_of_run {fuel : Nat} (h : run body fuel s = some r) : Returns body s r := by
  induction fuel generalizing s with
  | zero => simp [run] at h
  | succ fuel ih =>
    rw [run] at h
    split at h
    · next s' hs => exact .again hs (ih h)
    · next r₀ hs =>
      obtain rfl := Option.some.inj h
      exact .leave hs

theorem Returns.exists_run (h : Returns body s r) : ∃ fuel, run body fuel s = some r := by
  induction h with
  | leave h => exact ⟨1, by simp [run, h]⟩
  | again h _ ih =>
    obtain ⟨fuel, hfuel⟩ := ih
    exact ⟨fuel + 1, by simp [run, h, hfuel]⟩

/-- A loop that has left within a bound leaves within a larger one. -/
theorem run_of_le {fuel fuel' : Nat} (h : run body fuel s = some r) (hle : fuel ≤ fuel') :
    run body fuel' s = some r := by
  induction fuel generalizing s fuel' with
  | zero => simp [run] at h
  | succ fuel ih =>
    obtain ⟨k, rfl⟩ : ∃ k, fuel' = k + 1 := ⟨fuel' - 1, by omega⟩
    rw [run] at h ⊢
    cases hround : body s with
    | again s' =>
      rw [hround] at h
      exact ih h (by omega)
    | leave r₀ =>
      rw [hround] at h
      exact h

/-- The loop leaves with what some number of its rounds gives. -/
theorem returns_iff_run : Returns body s r ↔ ∃ fuel, run body fuel s = some r := by
  constructor
  · exact Returns.exists_run
  · rintro ⟨fuel, hfuel⟩
    exact returns_of_run hfuel

/-- A loop leaves with one result only. -/
theorem Returns.unique (h : Returns body s r) (h' : Returns body s r') : r = r' := by
  induction h with
  | leave h =>
    cases h' with
    | leave h₂ => exact Round.leave.inj (h.symm.trans h₂)
    | again h₂ _ => exact absurd (h.symm.trans h₂) (by simp)
  | again h _ ih =>
    cases h' with
    | leave h₂ => exact absurd (h.symm.trans h₂) (by simp)
    | again h₂ ht₂ =>
      obtain rfl := Round.again.inj (h.symm.trans h₂)
      exact ih ht₂

theorem Visits.refl (s : σ) : Visits body s s := Relation.ReflTransGen.refl

theorem Visits.tail (h : Visits body s t) (hu : body t = .again u) : Visits body s u :=
  Relation.ReflTransGen.tail h hu

theorem Visits.head (h : body s = .again t) (ht : Visits body t u) : Visits body s u :=
  Relation.ReflTransGen.head h ht

theorem Visits.trans (h : Visits body s t) (ht : Visits body t u) : Visits body s u :=
  Relation.ReflTransGen.trans h ht

/-- A loop leaves with what it leaves with from any state it visits. -/
theorem Visits.returns (h : Visits body s t) (ht : Returns body t r) : Returns body s r := by
  induction h using Relation.ReflTransGen.head_induction_on with
  | refl => exact ht
  | head h _ ih => exact .again h ih

/-- What a loop leaves with it also leaves with from every state it visits. -/
theorem Returns.of_visits (hr : Returns body s r) (h : Visits body s t) : Returns body t r := by
  induction h using Relation.ReflTransGen.head_induction_on with
  | refl => exact hr
  | head h _ ih =>
    cases hr with
    | leave h' => exact absurd (h.symm.trans h') (by simp)
    | again h' hr' =>
      obtain rfl := Round.again.inj (h.symm.trans h')
      exact ih hr'

/-- A loop leaves from a state it visits. -/
theorem returns_iff_visits : Returns body s r ↔ ∃ t, Visits body s t ∧ body t = .leave r := by
  constructor
  · intro h
    induction h with
    | @leave s r h => exact ⟨s, .refl s, h⟩
    | again h _ ih =>
      obtain ⟨t, ht, hleave⟩ := ih
      exact ⟨t, ht.head h, hleave⟩
  · rintro ⟨t, ht, hleave⟩
    exact ht.returns (.leave hleave)

/-! ### The rules -/

/-- **Invariant.** What every round keeps holds in every state visited. -/
theorem Visits.invariant {I : σ → Prop} (hstep : ∀ a b, I a → body a = .again b → I b)
    (h : Visits body s t) (hs : I s) : I t := by
  induction h with
  | refl => exact hs
  | tail _ h ih => exact hstep _ _ ih h

/-- **Invariant rule.** A kept invariant gives the postcondition of the round that leaves. -/
theorem Returns.post {I : σ → Prop} {Q : ρ → Prop}
    (hstep : ∀ a b, I a → body a = .again b → I b)
    (hleave : ∀ a r, I a → body a = .leave r → Q r) (h : Returns body s r) (hs : I s) : Q r := by
  induction h with
  | leave h => exact hleave _ _ hs h
  | again h _ ih => exact ih (hstep _ _ hs h)

/-- **Variant rule.** A measure that every round strictly decreases makes the loop leave. -/
theorem returns_of_measure {I : σ → Prop} (μ : σ → Nat)
    (hstep : ∀ a b, I a → body a = .again b → I b ∧ μ b < μ a) (hs : I s) :
    ∃ r, Returns body s r := by
  induction hn : μ s using Nat.strongRecOn generalizing s with
  | ind n ih =>
    cases hb : body s with
    | leave r => exact ⟨r, .leave hb⟩
    | again s' =>
      obtain ⟨hI, hlt⟩ := hstep s s' hs hb
      obtain ⟨r, hr⟩ := ih (μ s') (hn ▸ hlt) hI rfl
      exact ⟨r, .again hb hr⟩

/-- **Total correctness.** With an invariant and a measure, a bound on the rounds that is above
    the measure is enough, and the result meets the postcondition. -/
theorem run_total {I : σ → Prop} {Q : ρ → Prop} (μ : σ → Nat) {fuel : Nat}
    (hstep : ∀ a b, I a → body a = .again b → I b ∧ μ b < μ a)
    (hleave : ∀ a r, I a → body a = .leave r → Q r) (hs : I s) (hfuel : μ s < fuel) :
    ∃ r, run body fuel s = some r ∧ Q r := by
  induction fuel generalizing s with
  | zero => exact absurd hfuel (Nat.not_lt_zero _)
  | succ fuel ih =>
    rw [run]
    cases hb : body s with
    | leave r => exact ⟨r, rfl, hleave s r hs hb⟩
    | again s' =>
      obtain ⟨hI, hlt⟩ := hstep s s' hs hb
      exact ih hI (by omega)

/-- **Two loops that are one.**  A loop whose rounds are those of another, seen through `f`,
    leaves after as many rounds with the same result, seen through `g`. -/
theorem run_map_of_simulates {τ ρ' : Type} {body' : τ → Round τ ρ'} (f : σ → τ) (g : ρ → ρ')
    (hagain : ∀ a b, body a = .again b → body' (f a) = .again (f b))
    (hleave : ∀ a r, body a = .leave r → body' (f a) = .leave (g r)) (fuel : Nat) (s : σ) :
    run body' fuel (f s) = (run body fuel s).map g := by
  induction fuel generalizing s with
  | zero => rfl
  | succ fuel ih =>
    rw [run, run]
    cases hb : body s with
    | again t =>
      rw [hagain s t hb]
      exact ih t
    | leave r =>
      rw [hleave s r hb]
      rfl

theorem run_of_simulates {τ : Type} {body' : τ → Round τ ρ} (f : σ → τ)
    (hagain : ∀ a b, body a = .again b → body' (f a) = .again (f b))
    (hleave : ∀ a r, body a = .leave r → body' (f a) = .leave r) (fuel : Nat) (s : σ) :
    run body' fuel (f s) = run body fuel s := by
  simpa using run_map_of_simulates f id hagain hleave fuel s

/-- **Infinite loop.** An invariant whose states all go round again is never left. -/
theorem not_returns_of_invariant {I : σ → Prop}
    (hstep : ∀ a, I a → ∃ b, body a = .again b ∧ I b) (hs : I s) (r : ρ) :
    ¬ Returns body s r := by
  intro h
  induction h with
  | leave h =>
    obtain ⟨b, hb, _⟩ := hstep _ hs
    exact absurd (h.symm.trans hb) (by simp)
  | again h _ ih =>
    obtain ⟨b, hb, hI⟩ := hstep _ hs
    obtain rfl := Round.again.inj (h.symm.trans hb)
    exact ih hI

end Loop

end CModel
