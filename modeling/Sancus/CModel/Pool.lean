import Sancus.CModel.Machine
import Mathlib.Algebra.BigOperators.Group.Multiset.Basic

namespace CModel

/-!
# C programs and what they hold — components over a pool of resources

A resource (a descriptor, a block of memory) is obtained from an environment, held by one
component, and given back once.  A component says what it holds, and tells with every step what
it has obtained, given back or handed over.

* `Use` / `Disciplined` — such uses, and that they lead from one holding to another;
* `Component` — a machine whose steps are disciplined, `Component.sum` — two of them as one;
* `Component.refine` — a component whose releases take the environment several attempts;
* `Pool` — what the environment has given out, with any number of components and what the
  program keeps for itself;
* `Pool.Sound` — every resource that is out is held in one place, and only such ones have been
  given back;
* `Pool.run_sound` — that this holds whatever the components do, in any order;
* `Component.Keeps` / `Pool.run_parts` — an invariant of the components, and that all of them have
  it after a run whose steps allow for it.
-/

/-- What is done to a resource: it is obtained from the environment, given back to it, offered
    back to it in vain, or handed over to the program around the component. -/
inductive Use (ρ : Type) where
  | acquire (r : ρ)
  | release (r : ρ)
  | refused (r : ρ)
  | hand (r : ρ)
  deriving DecidableEq

/-- The uses, in order, lead from holding `held` to holding `held'`: only what is held is given
    away, and all that is obtained is held. -/
inductive Disciplined {ρ : Type} : Multiset ρ → List (Use ρ) → Multiset ρ → Prop
  | nil {held : Multiset ρ} : Disciplined held [] held
  | acquire {held held' : Multiset ρ} {r : ρ} {us : List (Use ρ)}
      (h : Disciplined (r ::ₘ held) us held') : Disciplined held (.acquire r :: us) held'
  | release {held held' : Multiset ρ} {r : ρ} {us : List (Use ρ)}
      (h : Disciplined held us held') : Disciplined (r ::ₘ held) (.release r :: us) held'
  | refused {held held' : Multiset ρ} {r : ρ} {us : List (Use ρ)}
      (h : Disciplined (r ::ₘ held) us held') : Disciplined (r ::ₘ held) (.refused r :: us) held'
  | hand {held held' : Multiset ρ} {r : ρ} {us : List (Use ρ)}
      (h : Disciplined held us held') : Disciplined (r ::ₘ held) (.hand r :: us) held'

/-- What comes of setting a component up: what the program has given for it, what was done with
    resources, and the component, if there is one. -/
structure Made (σ ρ : Type) where
  given : Multiset ρ
  uses : List (Use ρ)
  part : Option σ

/-- A component: how it is set up, its steps with what each does to resources, and what it holds.
    All of them are disciplined. -/
structure Component (σ α β ρ : Type) where
  make : β → Option (Made σ ρ)
  step : σ → α → Option (σ × List (Use ρ))
  holds : σ → Multiset ρ
  make_disciplined : ∀ {b m}, make b = some m →
    Disciplined m.given m.uses ((m.part.map holds).getD 0)
  step_disciplined : ∀ {s a s' us}, step s a = some (s', us) → Disciplined (holds s) us (holds s')

/-! ### Disciplined uses -/

section

variable {ρ : Type} {held held' held'' : Multiset ρ} {us us' : List (Use ρ)} {r : ρ}

theorem Disciplined.append (h : Disciplined held us held') (h' : Disciplined held' us' held'') :
    Disciplined held (us ++ us') held'' := by
  induction h with
  | nil => exact h'
  | acquire _ ih => exact .acquire (ih h')
  | release _ ih => exact .release (ih h')
  | refused _ ih => exact .refused (ih h')
  | hand _ ih => exact .hand (ih h')

/-- What is held besides does not matter. -/
theorem Disciplined.frame (h : Disciplined held us held') (rest : Multiset ρ) :
    Disciplined (rest + held) us (rest + held') := by
  induction h with
  | nil => exact .nil
  | @acquire held held' r us _ ih =>
    rw [Multiset.add_cons] at ih
    exact .acquire ih
  | @release held held' r us _ ih =>
    rw [Multiset.add_cons]
    exact .release ih
  | @refused held held' r us _ ih =>
    rw [Multiset.add_cons] at ih ⊢
    exact .refused ih
  | @hand held held' r us _ ih =>
    rw [Multiset.add_cons]
    exact .hand ih

/-- What is held is given back. -/
theorem Disciplined.releaseOne : Disciplined {r} [.release r] 0 := .release .nil

/-- What is held is given back after it has been offered in vain. -/
theorem Disciplined.releaseAfter (h : Disciplined {r} us 0) :
    Disciplined {r} (.refused r :: us) 0 := .refused h

/-- **Refinement.**  Giving back may take several attempts: disciplined uses stay so when each
    release is replaced by uses that give the resource back in the end. -/
theorem Disciplined.refine {f : Use ρ → List (Use ρ)}
    (hrelease : ∀ r, Disciplined {r} (f (.release r)) 0)
    (hother : ∀ u, (∀ r, u ≠ .release r) → f u = [u]) (h : Disciplined held us held') :
    Disciplined held (us.flatMap f) held' := by
  induction h with
  | nil => exact .nil
  | @acquire held held' r us _ ih =>
    rw [List.flatMap_cons, hother (.acquire r) nofun]
    exact .acquire ih
  | @release held held' r us _ ih =>
    rw [List.flatMap_cons, ← Multiset.singleton_add, add_comm]
    have hgone := (hrelease r).frame held
    rw [add_zero] at hgone
    exact hgone.append ih
  | @refused held held' r us _ ih =>
    rw [List.flatMap_cons, hother (.refused r) nofun]
    exact .refused ih
  | @hand held held' r us _ ih =>
    rw [List.flatMap_cons, hother (.hand r) nofun]
    exact .hand ih

/-- What is obtained is held. -/
theorem Disciplined.acquireOne : Disciplined 0 [.acquire r] {r} := .acquire .nil

end

/-! ### Two components as one -/

/-- The same outcome for a component that contains the one set up. -/
def Made.map {σ τ ρ : Type} (f : σ → τ) (m : Made σ ρ) : Made τ ρ :=
  ⟨m.given, m.uses, m.part.map f⟩

/-- A component that is of one of two kinds. -/
def Component.sum {σ σ' α α' β β' ρ : Type} (c : Component σ α β ρ) (c' : Component σ' α' β' ρ) :
    Component (σ ⊕ σ') (α ⊕ α') (β ⊕ β') ρ where
  make
    | .inl b => (c.make b).map (Made.map .inl)
    | .inr b => (c'.make b).map (Made.map .inr)
  step
    | .inl s, .inl a => (c.step s a).map fun (t, us) => (.inl t, us)
    | .inr s, .inr a => (c'.step s a).map fun (t, us) => (.inr t, us)
    | _, _           => none
  holds := Sum.elim c.holds c'.holds
  make_disciplined {b m} hm := by
    cases b with
    | inl b =>
      obtain ⟨m₁, hm₁, rfl⟩ := Option.map_eq_some_iff.mp hm
      simpa [Made.map, Function.comp_def] using c.make_disciplined hm₁
    | inr b =>
      obtain ⟨m₁, hm₁, rfl⟩ := Option.map_eq_some_iff.mp hm
      simpa [Made.map, Function.comp_def] using c'.make_disciplined hm₁
  step_disciplined {s a s' us} h := by
    match s, a, h with
    | .inl s, .inl a, h =>
      obtain ⟨⟨t, vs⟩, ht, heq⟩ := Option.map_eq_some_iff.mp h
      obtain ⟨rfl, rfl⟩ := Prod.mk.inj heq
      exact c.step_disciplined ht
    | .inr s, .inr a, h =>
      obtain ⟨⟨t, vs⟩, ht, heq⟩ := Option.map_eq_some_iff.mp h
      obtain ⟨rfl, rfl⟩ := Prod.mk.inj heq
      exact c'.step_disciplined ht

/-! ### Releases that take several attempts -/

/-- The same component, with what the environment does with each release of a step. -/
def Component.refine {σ α β γ ρ : Type} (c : Component σ α β ρ) (f : γ → Use ρ → List (Use ρ))
    (hrelease : ∀ env r, Disciplined {r} (f env (.release r)) 0)
    (hother : ∀ env u, (∀ r, u ≠ .release r) → f env u = [u]) : Component σ (α × γ) β ρ where
  make := c.make
  step s a := (c.step s a.1).map fun (t, us) => (t, us.flatMap (f a.2))
  holds := c.holds
  make_disciplined := c.make_disciplined
  step_disciplined {s a s' us} h := by
    obtain ⟨⟨t, vs⟩, ht, heq⟩ := Option.map_eq_some_iff.mp h
    obtain ⟨rfl, rfl⟩ := Prod.mk.inj heq
    exact (c.step_disciplined ht).refine (hrelease a.2) (hother a.2)

/-! ### The pool -/

/-- What the environment has given out, the components, what the program keeps for itself, and
    what was given back although it was not out. -/
structure Pool (σ ρ : Type) where
  live : Multiset ρ
  parts : List σ
  kept : Multiset ρ
  faults : List ρ

namespace Pool

variable {σ α β ρ : Type}

/-- Nothing has happened yet. -/
def empty : Pool σ ρ := ⟨0, [], 0, []⟩

/-- What happens: a component is set up, or makes a step; or the program obtains a resource, or
    gives back one it keeps. -/
inductive Move (α β ρ : Type) where
  | make (b : β)
  | part (i : Nat) (a : α)
  | acquire (r : ρ)
  | release (r : ρ)

/-- What the components hold together. -/
def holdings (c : Component σ α β ρ) (parts : List σ) : Multiset ρ := (parts.map c.holds).sum

/-- Every resource that is out is held by one component, or kept by the program, and is there
    once; nothing was given back that was not out. -/
structure Sound (c : Component σ α β ρ) (p : Pool σ ρ) : Prop where
  live_eq : p.live = holdings c p.parts + p.kept
  nodup : p.live.Nodup
  faultless : p.faults = []

section

variable {c : Component σ α β ρ}

theorem holdings_append (parts parts' : List σ) :
    holdings c (parts ++ parts') = holdings c parts + holdings c parts' := by
  simp [holdings]

/-- One component among the others. -/
theorem holdings_set {parts : List σ} {i : Nat} {s : σ} (h : parts[i]? = some s) :
    ∃ rest, holdings c parts = c.holds s + rest ∧
      ∀ t, holdings c (parts.set i t) = c.holds t + rest := by
  induction parts generalizing i with
  | nil => simp at h
  | cons s₀ parts ih =>
    cases i with
    | zero =>
      obtain rfl : s₀ = s := by simpa using h
      exact ⟨holdings c parts, by simp [holdings], fun t => by simp [holdings]⟩
    | succ i =>
      obtain ⟨rest, hrest, hset⟩ := ih (i := i) (by simpa using h)
      refine ⟨c.holds s₀ + rest, ?_, fun t => ?_⟩
      · show c.holds s₀ + holdings c parts = _
        rw [hrest, add_left_comm]
      · show c.holds s₀ + holdings c (parts.set i t) = _
        rw [hset t, add_left_comm]

theorem sound_empty : Sound c empty where
  live_eq := rfl
  nodup := Multiset.nodup_zero
  faultless := rfl

end

variable [DecidableEq ρ]

/-- A use of a resource.  What is out is not given out again; what is not out can be given back,
    or offered back, by mistake. -/
def use (p : Pool σ ρ) : Use ρ → Option (Pool σ ρ)
  | .acquire r => if r ∈ p.live then none else some { p with live := r ::ₘ p.live }
  | .release r =>
    if r ∈ p.live then some { p with live := p.live.erase r }
    else some { p with faults := p.faults ++ [r] }
  | .refused r => if r ∈ p.live then some p else some { p with faults := p.faults ++ [r] }
  | .hand r    => some { p with kept := r ::ₘ p.kept }

def useAll : Pool σ ρ → List (Use ρ) → Option (Pool σ ρ)
  | p, []      => some p
  | p, u :: us => (p.use u).bind fun q => q.useAll us

/-- One move; `none` when it is not possible. -/
def step (c : Component σ α β ρ) (p : Pool σ ρ) : Move α β ρ → Option (Pool σ ρ)
  | .make b => do
    let m ← c.make b
    if m.given ≤ p.kept then
      let q ← { p with kept := p.kept - m.given }.useAll m.uses
      return { q with parts := q.parts ++ m.part.toList }
    else none
  | .part i a => do
    let s ← p.parts[i]?
    let (t, us) ← c.step s a
    let q ← p.useAll us
    return { q with parts := q.parts.set i t }
  | .acquire r => p.useAll [.acquire r, .hand r]
  | .release r =>
    if r ∈ p.kept then { p with kept := p.kept.erase r }.use (.release r) else none

variable {c : Component σ α β ρ} {p q : Pool σ ρ}

/-! ### Uses -/

/-- **Disciplined uses are sound.**  They change what is out by what is held and kept, and
    nothing else. -/
theorem useAll_sound {held held' rest : Multiset ρ} {us : List (Use ρ)}
    (hd : Disciplined held us held') (hlive : p.live = held + rest + p.kept)
    (hnodup : p.live.Nodup) (hfaults : p.faults = []) (h : p.useAll us = some q) :
    q.live = held' + rest + q.kept ∧ q.live.Nodup ∧ q.faults = [] ∧ q.parts = p.parts := by
  induction hd generalizing p with
  | nil =>
    obtain rfl := Option.some.inj h
    exact ⟨hlive, hnodup, hfaults, rfl⟩
  | @acquire held held' r us _ ih =>
    obtain ⟨p₁, huse, hrest⟩ := Option.bind_eq_some_iff.mp h
    obtain ⟨hfresh, hp₁⟩ := Option.ite_none_left_eq_some.mp huse
    obtain rfl := Option.some.inj hp₁
    have hlive₁ : r ::ₘ p.live = r ::ₘ held + rest + p.kept := by
      rw [hlive, Multiset.cons_add, Multiset.cons_add]
    have hnodup₁ : (r ::ₘ p.live).Nodup := Multiset.nodup_cons.mpr ⟨hfresh, hnodup⟩
    exact ih (p := { p with live := r ::ₘ p.live }) hlive₁ hnodup₁ hfaults hrest
  | @release held held' r us _ ih =>
    obtain ⟨p₁, huse, hrest⟩ := Option.bind_eq_some_iff.mp h
    have hcons : p.live = r ::ₘ (held + rest + p.kept) := by
      rw [hlive, Multiset.cons_add, Multiset.cons_add]
    have hout : r ∈ p.live := by
      rw [hcons]
      exact Multiset.mem_cons_self r _
    rw [use, if_pos hout] at huse
    obtain rfl := Option.some.inj huse
    have hlive₁ : p.live.erase r = held + rest + p.kept := by
      rw [hcons, Multiset.erase_cons_head]
    exact ih (p := { p with live := p.live.erase r }) hlive₁ (hnodup.erase r) hfaults hrest
  | @refused held held' r us _ ih =>
    obtain ⟨p₁, huse, hrest⟩ := Option.bind_eq_some_iff.mp h
    have hout : r ∈ p.live := by
      rw [hlive, Multiset.cons_add, Multiset.cons_add]
      exact Multiset.mem_cons_self r _
    rw [use, if_pos hout] at huse
    obtain rfl := Option.some.inj huse
    exact ih hlive hnodup hfaults hrest
  | @hand held held' r us _ ih =>
    obtain ⟨p₁, huse, hrest⟩ := Option.bind_eq_some_iff.mp h
    obtain rfl := Option.some.inj huse
    have hlive₁ : p.live = held + rest + r ::ₘ p.kept := by
      rw [hlive, Multiset.cons_add, Multiset.cons_add, Multiset.add_cons]
    exact ih (p := { p with kept := r ::ₘ p.kept }) hlive₁ hnodup hfaults hrest

/-! ### Moves -/

theorem Sound.make (hp : Sound c p) {b : β} (h : step c p (.make b) = some q) : Sound c q := by
  obtain ⟨m, hm, h⟩ := Option.bind_eq_some_iff.mp h
  obtain ⟨hgiven, h⟩ := Option.ite_none_right_eq_some.mp h
  obtain ⟨q₁, huse, hq⟩ := Option.bind_eq_some_iff.mp h
  obtain rfl := Option.some.inj hq
  have hlive : p.live = m.given + holdings c p.parts + (p.kept - m.given) := by
    rw [hp.live_eq, add_right_comm, add_tsub_cancel_of_le hgiven, add_comm]
  obtain ⟨hlive', hnodup, hfaults, hparts⟩ := useAll_sound
    (p := { p with kept := p.kept - m.given }) (c.make_disciplined hm) hlive hp.nodup hp.faultless
    huse
  have hpart : holdings c m.part.toList = (m.part.map c.holds).getD 0 := by
    cases m.part <;> simp [holdings]
  refine ⟨?_, hnodup, hfaults⟩
  show q₁.live = holdings c (q₁.parts ++ m.part.toList) + q₁.kept
  rw [holdings_append, hpart, hparts, hlive', add_comm (holdings c p.parts)]

theorem Sound.part (hp : Sound c p) {i : Nat} {a : α} (h : step c p (.part i a) = some q) :
    Sound c q := by
  obtain ⟨s, hs, h⟩ := Option.bind_eq_some_iff.mp h
  obtain ⟨⟨t, us⟩, hstep, h⟩ := Option.bind_eq_some_iff.mp h
  obtain ⟨q₁, huse, hq⟩ := Option.bind_eq_some_iff.mp h
  obtain rfl := Option.some.inj hq
  obtain ⟨rest, hholds, hset⟩ := holdings_set (c := c) hs
  have hlive : p.live = c.holds s + rest + p.kept := by rw [hp.live_eq, hholds]
  obtain ⟨hlive', hnodup, hfaults, hparts⟩ := useAll_sound (c.step_disciplined hstep) hlive
    hp.nodup hp.faultless huse
  refine ⟨?_, hnodup, hfaults⟩
  show q₁.live = holdings c (q₁.parts.set i t) + q₁.kept
  rw [hparts, hset t, hlive']

/-- **Step lemma.**  Whatever the move, the pool stays sound. -/
theorem Sound.step {m : Move α β ρ} (hp : Sound c p) (h : step c p m = some q) : Sound c q := by
  cases m with
  | make b => exact hp.make h
  | part i a => exact hp.part h
  | acquire r =>
    have hlive : p.live = 0 + holdings c p.parts + p.kept := by rw [zero_add, hp.live_eq]
    obtain ⟨hlive', hnodup, hfaults, hparts⟩ := useAll_sound (.acquire (.hand .nil)) hlive
      hp.nodup hp.faultless h
    refine ⟨?_, hnodup, hfaults⟩
    rw [hlive', hparts, zero_add]
  | release r =>
    obtain ⟨hkept, h⟩ := Option.ite_none_right_eq_some.mp h
    have hlive : p.live = {r} + holdings c p.parts + p.kept.erase r := by
      rw [hp.live_eq, add_right_comm, Multiset.singleton_add, Multiset.cons_erase hkept, add_comm]
    have huse : useAll { p with kept := p.kept.erase r } [.release r] = some q := by
      rw [useAll, h]
      rfl
    obtain ⟨hlive', hnodup, hfaults, hparts⟩ := useAll_sound
      (p := { p with kept := p.kept.erase r }) .releaseOne hlive hp.nodup hp.faultless huse
    refine ⟨?_, hnodup, hfaults⟩
    rw [hlive', hparts, zero_add]

/-- **Every run is sound.**  Whatever components are set up, and in whatever order they and the
    program go on. -/
theorem run_sound {moves : List (Move α β ρ)} (h : Machine.run (step c) empty moves = some p) :
    Sound c p :=
  Machine.run_keeps sound_empty (fun _ _ _ hp hstep => hp.step hstep) h

/-- A resource that is out is held in one place only. -/
theorem Sound.held_once (hp : Sound c p) {r : ρ} (hr : r ∈ p.live) :
    (holdings c p.parts).count r + p.kept.count r = 1 := by
  rw [← Multiset.count_add, ← hp.live_eq]
  exact Multiset.count_eq_one_of_mem hp.nodup hr

end Pool

/-! ### Invariants of the components -/

section

variable {σ σ' α α' β β' ρ : Type}

/-- Components are set up with `I`, and every step that meets `P` keeps it. -/
structure Component.Keeps (c : Component σ α β ρ) (I : σ → Prop) (P : σ → α → Prop) : Prop where
  make : ∀ {b m s}, c.make b = some m → m.part = some s → I s
  step : ∀ {s a t us}, I s → P s a → c.step s a = some (t, us) → I t

/-- The condition on the steps of either of two components. -/
def sumSteps (P : σ → α → Prop) (P' : σ' → α' → Prop) : σ ⊕ σ' → α ⊕ α' → Prop
  | .inl s, .inl a => P s a
  | .inr s, .inr a => P' s a
  | _, _           => True

/-- What becomes of the releases is no matter to the invariant. -/
theorem Component.Keeps.refine {γ : Type} {c : Component σ α β ρ} {I : σ → Prop}
    {P : σ → α → Prop} (h : c.Keeps I P) {f : γ → Use ρ → List (Use ρ)}
    {hrelease : ∀ env r, Disciplined {r} (f env (.release r)) 0}
    {hother : ∀ env u, (∀ r, u ≠ .release r) → f env u = [u]} :
    (c.refine f hrelease hother).Keeps I fun s a => P s a.1 where
  make := h.make
  step {s a t us} hI hP hstep := by
    obtain ⟨⟨t₁, vs⟩, ht, heq⟩ := Option.map_eq_some_iff.mp hstep
    obtain ⟨rfl, rfl⟩ := Prod.mk.inj heq
    exact h.step hI hP ht

theorem Component.Keeps.sum {c : Component σ α β ρ} {c' : Component σ' α' β' ρ} {I : σ → Prop}
    {I' : σ' → Prop} {P : σ → α → Prop} {P' : σ' → α' → Prop} (h : c.Keeps I P)
    (h' : c'.Keeps I' P') : (c.sum c').Keeps (Sum.elim I I') (sumSteps P P') where
  make {b m s} hm hs := by
    cases b with
    | inl b =>
      obtain ⟨m₁, hm₁, rfl⟩ := Option.map_eq_some_iff.mp hm
      obtain ⟨s₁, hs₁, rfl⟩ := Option.map_eq_some_iff.mp hs
      exact h.make hm₁ hs₁
    | inr b =>
      obtain ⟨m₁, hm₁, rfl⟩ := Option.map_eq_some_iff.mp hm
      obtain ⟨s₁, hs₁, rfl⟩ := Option.map_eq_some_iff.mp hs
      exact h'.make hm₁ hs₁
  step {s a t us} hI hP hstep := by
    match s, a, hI, hP, hstep with
    | .inl s, .inl a, hI, hP, hstep =>
      obtain ⟨⟨t₁, vs⟩, ht, heq⟩ := Option.map_eq_some_iff.mp hstep
      obtain ⟨rfl, rfl⟩ := Prod.mk.inj heq
      exact h.step hI hP ht
    | .inr s, .inr a, hI, hP, hstep =>
      obtain ⟨⟨t₁, vs⟩, ht, heq⟩ := Option.map_eq_some_iff.mp hstep
      obtain ⟨rfl, rfl⟩ := Prod.mk.inj heq
      exact h'.step hI hP ht

end

namespace Pool

variable {σ α β ρ : Type} [DecidableEq ρ] {c : Component σ α β ρ} {p q : Pool σ ρ}
  {I : σ → Prop} {P : σ → α → Prop}

/-- The component that makes the move, if one does, meets `P`. -/
def Allows (P : σ → α → Prop) (p : Pool σ ρ) : Move α β ρ → Prop
  | .part i a => ∀ s, p.parts[i]? = some s → P s a
  | _         => True

theorem parts_use {u : Use ρ} (h : p.use u = some q) : q.parts = p.parts := by
  cases u with
  | acquire r =>
    obtain ⟨_, hq⟩ := Option.ite_none_left_eq_some.mp h
    obtain rfl := Option.some.inj hq
    rfl
  | release r =>
    rw [use] at h
    split at h <;> (obtain rfl := Option.some.inj h; rfl)
  | refused r =>
    rw [use] at h
    split at h <;> (obtain rfl := Option.some.inj h; rfl)
  | hand r =>
    obtain rfl := Option.some.inj h
    rfl

theorem parts_useAll {us : List (Use ρ)} (h : p.useAll us = some q) : q.parts = p.parts := by
  induction us generalizing p with
  | nil =>
    obtain rfl := Option.some.inj h
    rfl
  | cons u us ih =>
    obtain ⟨p₁, huse, hrest⟩ := Option.bind_eq_some_iff.mp h
    rw [ih hrest, parts_use huse]

/-- **Step lemma.**  A move that allows for the invariant keeps it for all components. -/
theorem parts_step {m : Move α β ρ} (hc : c.Keeps I P) (hp : ∀ s ∈ p.parts, I s)
    (hm : p.Allows P m) (h : step c p m = some q) : ∀ s ∈ q.parts, I s := by
  cases m with
  | make b =>
    obtain ⟨made, hmade, h⟩ := Option.bind_eq_some_iff.mp h
    obtain ⟨_, h⟩ := Option.ite_none_right_eq_some.mp h
    obtain ⟨q₁, huse, hq⟩ := Option.bind_eq_some_iff.mp h
    obtain rfl := Option.some.inj hq
    intro s hs
    rcases List.mem_append.mp hs with hs | hs
    · rw [parts_useAll huse] at hs
      exact hp s hs
    · exact hc.make hmade (Option.mem_toList.mp hs)
  | part i a =>
    obtain ⟨s, hs, h⟩ := Option.bind_eq_some_iff.mp h
    obtain ⟨⟨t, us⟩, hstep, h⟩ := Option.bind_eq_some_iff.mp h
    obtain ⟨q₁, huse, hq⟩ := Option.bind_eq_some_iff.mp h
    obtain rfl := Option.some.inj hq
    intro s' hs'
    have hmem : s' ∈ p.parts.set i t := by
      rw [← parts_useAll huse]
      exact hs'
    rcases List.mem_or_eq_of_mem_set hmem with hold | rfl
    · exact hp s' hold
    · exact hc.step (hp s (List.mem_of_getElem? hs)) (hm s hs) hstep
  | acquire r =>
    rw [parts_useAll h]
    exact hp
  | release r =>
    obtain ⟨_, h⟩ := Option.ite_none_right_eq_some.mp h
    rw [parts_use h]
    exact hp

/-- **Run lemma.**  After a run all moves of which allow for the invariant, all components have
    it. -/
theorem run_parts {moves : List (Move α β ρ)} (hc : c.Keeps I P)
    (halong : Machine.Along (step c) (Allows P) empty moves)
    (hrun : Machine.run (step c) empty moves = some p) : ∀ s ∈ p.parts, I s :=
  Machine.throughout_of_along (I := fun p => ∀ s ∈ p.parts, I s) (List.forall_mem_nil I)
    (fun _ _ _ hp hm hstep => parts_step hc hp hm hstep) halong moves [] p
    (List.append_nil moves).symm hrun

end Pool

end CModel
