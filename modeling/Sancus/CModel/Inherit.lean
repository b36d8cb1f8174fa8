import Mathlib.Logic.Basic

namespace CModel

/-!
# Inheritance — what the nearest element of a chain decides

A chain is walked from its first element on, until one of them defines what is looked for.

* `Inherits` — what a walk finds is what the nearest such element defines, or a default;
* `Inherits.of_cons` — a walk that goes on exactly at the elements that define nothing does that;
* `Inherits.insert` — an element that defines nothing makes no difference anywhere.
-/

variable {α β γ : Type}

/-- The result of `f` is `k` of what the nearest element defines by `g`, or `d` if none does. -/
def Inherits (g : α → Option γ) (d : β) (k : γ → β) (f : List α → β) : Prop :=
  ∀ l, f l = (l.findSome? g).elim d k

variable {g : α → Option γ} {d : β} {k : γ → β} {f : List α → β}

theorem Inherits.of_cons (hnil : f [] = d)
    (hcons : ∀ x l, f (x :: l) = (g x).elim (f l) k) : Inherits g d k f := by
  intro l
  induction l with
  | nil => exact hnil
  | cons x l ih =>
    rw [hcons, List.findSome?_cons]
    cases g x with
    | none => exact ih
    | some c => rfl

theorem Inherits.insert (h : Inherits g d k f) {x : α} (hx : g x = none) (below above : List α) :
    f (below ++ x :: above) = f (below ++ above) := by
  rw [h, h]
  simp [hx]

end CModel
