import Mathlib.Data.List.Induction
import Mathlib.Algebra.BigOperators.Group.List.Basic
import Mathlib.Algebra.GroupWithZero.Nat

namespace CModel

/-!
# C programs as machines — runs of labelled steps

A component that is entered again and again, by events, calls and the answers of its
environment, is a partial step function on labels.

* `Machine.run` — a sequence of labels taken from a state;
* `Machine.run_snoc` — the last step of a run;
* `Machine.run_invariant` — the rule for an invariant over the labels taken so far;
* `Machine.run_spends` — the rule for a budget that every step draws on;
* `Machine.Along` — a property of every step of a run, and its rule.
-/

namespace Machine

variable {σ α : Type} (step : σ → α → Option σ)

/-- The state after the labels, in order; `none` when one of them is not possible. -/
def run : σ → List α → Option σ
  | s, []      => some s
  | s, a :: as => (step s a).bind fun t => run t as

/-- `P` holds of every step of the run, taken in the state before it with its label. -/
def Along (P : σ → α → Prop) (s : σ) (as : List α) : Prop :=
  ∀ pre a post t, as = pre ++ a :: post → run step s pre = some t → P t a

/-- `P` holds of every state of the run, the last one included. -/
def Throughout (P : σ → Prop) (s : σ) (as : List α) : Prop :=
  ∀ pre post t, as = pre ++ post → run step s pre = some t → P t

variable {step} {s t u : σ} {a : α} {as bs : List α}

theorem run_append : run step s (as ++ bs) = (run step s as).bind fun t => run step t bs := by
  induction as generalizing s with
  | nil => rfl
  | cons a as ih =>
    rw [List.cons_append, run, run]
    cases step s a with
    | none => rfl
    | some t => exact ih

/-- A run ends with its last step. -/
theorem run_snoc : run step s (as ++ [a]) = some t ↔
    ∃ u, run step s as = some u ∧ step u a = some t := by
  rw [run_append]
  cases run step s as with
  | none => simp
  | some u => simp [run]

/-- A run that is possible is possible up to every point. -/
theorem exists_run_of_append (h : run step s (as ++ bs) = some t) :
    ∃ u, run step s as = some u ∧ run step u bs = some t := by
  rw [run_append] at h
  exact Option.bind_eq_some_iff.mp h

/-- **Invariant rule.**  What holds at the start and is kept by every step, whatever labels
    have led to it, holds after every run. -/
theorem run_invariant {I : List α → σ → Prop} (hstart : I [] s)
    (hstep : ∀ as t a u, I as t → step t a = some u → I (as ++ [a]) u)
    (h : run step s as = some t) : I as t := by
  induction as using List.reverseRecOn generalizing t with
  | nil =>
    obtain rfl := Option.some.inj h
    exact hstart
  | append_singleton as a ih =>
    obtain ⟨u, hu, ha⟩ := run_snoc.mp h
    exact hstep as u a t (ih hu) ha

/-- The same for an invariant of the states alone. -/
theorem run_keeps {I : σ → Prop} (hstart : I s) (hstep : ∀ t a u, I t → step t a = some u → I u)
    (h : run step s as = some t) : I t :=
  run_invariant (I := fun _ => I) hstart (fun _ t a u => hstep t a u) h

/-- **Budget rule.**  Where every step pays its cost out of what is left, a run costs no more
    than there was at its start. -/
theorem run_spends {I : σ → Prop} {P : α → Prop} {cost : α → Nat} {left : σ → Nat} (hs : I s)
    (hstep : ∀ t a u, I t → P a → step t a = some u → I u ∧ cost a + left u ≤ left t)
    (hP : ∀ a ∈ as, P a) (h : run step s as = some t) :
    (as.map cost).sum + left t ≤ left s := by
  induction as generalizing s with
  | nil =>
    obtain rfl := Option.some.inj h
    simp
  | cons a as ih =>
    obtain ⟨u, hu, hrest⟩ := Option.bind_eq_some_iff.mp h
    obtain ⟨hIu, hpaid⟩ := hstep s a u hs (hP a List.mem_cons_self) hu
    have hless := ih hIu (fun b hb => hP b (List.mem_cons_of_mem a hb)) hrest
    rw [List.map_cons, List.sum_cons]
    omega

theorem along_nil {P : σ → α → Prop} : Along step P s [] := by
  intro pre a post _ heq
  simp at heq

/-- `P` holds of the first step, and of those after it. -/
theorem along_cons {P : σ → α → Prop} (ha : P s a)
    (has : ∀ t, step s a = some t → Along step P t as) : Along step P s (a :: as) := by
  intro pre b post t heq ht
  cases pre with
  | nil =>
    obtain ⟨rfl, rfl⟩ := List.cons.inj heq
    obtain rfl := Option.some.inj ht
    exact ha
  | cons b' pre =>
    obtain ⟨rfl, rfl⟩ := List.cons.inj heq
    obtain ⟨u, hu, hrest⟩ := Option.bind_eq_some_iff.mp ht
    exact has u hu pre b post t rfl hrest

/-- **Guarded rule.**  What every step that meets `P` keeps holds throughout a run whose
    steps all meet it. -/
theorem throughout_of_along {I : σ → Prop} {P : σ → α → Prop} (hstart : I s)
    (hstep : ∀ t a u, I t → P t a → step t a = some u → I u) (hP : Along step P s as) :
    Throughout step I s as := by
  intro pre
  induction pre using List.reverseRecOn with
  | nil =>
    intro _ t _ ht
    obtain rfl := Option.some.inj ht
    exact hstart
  | append_singleton pre a ih =>
    intro post t heq ht
    obtain ⟨u, hu, ha⟩ := run_snoc.mp ht
    rw [List.append_assoc] at heq
    exact hstep u a t (ih _ u heq hu) (hP pre a post u heq hu) ha

end Machine

end CModel
