import Mathlib.Data.List.Chain
import Mathlib.Data.List.Nodup
import Mathlib.Logic.Function.Basic
import Sancus.CModel.Loop

namespace CModel

/-!
# Circular doubly linked lists

A list is a head and the nodes that follow it, each of them linked both ways to its
neighbours; the last one is linked back to the head.  The links are two functions on
nodes of any type.

* `Ring next prev h xs` — the nodes `xs`, in order, on the ring of the head `h`;
* `Ring.insert`, `Ring.remove` — a node is linked in between two neighbours, or out;
* `Ring.frame` — a ring depends only on the links of its own nodes;
* `Ring.prev_next` — there and back is the same node, all along the ring;
* `Ring.walk` — a `for` loop along a ring goes through its nodes in order;
* `safe_walk` — so does one that saves the node to go on with, while the body changes the links.
-/

variable {α σ ρ : Type}

/-- `y` follows `x`, and both say so. -/
def Linked (next prev : α → α) (x y : α) : Prop := next x = y ∧ prev y = x

/-- From the head `h` the links lead through `xs` and back to `h`. -/
structure Ring (next prev : α → α) (h : α) (xs : List α) : Prop where
  nodup : (h :: xs).Nodup
  linked : (h :: (xs ++ [h])).IsChain (Linked next prev)

variable {next next' prev prev' : α → α} {h i n p : α} {xs ys l r : List α}

namespace Linked

/-- Links out of the last node of a stretch, and back into its first one, are not part of it. -/
theorem frame (hys : ys.IsChain (Linked next prev)) (hp : next p ∉ ys.tail) (hn : n ∉ ys.tail)
    (hnext : ∀ a ∈ ys, a ≠ p → next' a = next a)
    (hprev : ∀ b ∈ ys, b ≠ n → prev' b = prev b) : ys.IsChain (Linked next' prev') := by
  apply hys.imp_of_mem_tail_imp
  intro a b ha hb hab
  have hap : a ≠ p := by
    rintro rfl
    exact hp (hab.1 ▸ hb)
  have hbn : b ≠ n := by
    rintro rfl
    exact hn hb
  exact ⟨(hnext a ha hap).trans hab.1, (hprev b (List.mem_of_mem_tail hb) hbn).trans hab.2⟩

end Linked

/-! ### A ring cut open at one place -/

/-- The nodes on both sides of a place in a ring, and the link between them. -/
theorem isChain_cut {R : α → α → Prop} : (h :: (l ++ r ++ [h])).IsChain R ↔
    (h :: l).IsChain R ∧ R (l.getLastD h) (r.headD h) ∧ (r ++ [h]).IsChain R := by
  have hlast : (h :: l).getLast? = some (l.getLastD h) := by
    rw [List.getLast?_cons, List.getLastD_eq_getLast?]
  have hhead : (r ++ [h]).head? = some (r.headD h) := by
    cases r <;> rfl
  rw [List.append_assoc, ← List.cons_append, List.isChain_append, hlast, hhead]
  constructor
  · rintro ⟨hl, hr, hlr⟩
    exact ⟨hl, hlr _ rfl _ rfl, hr⟩
  · rintro ⟨hl, hlr, hr⟩
    refine ⟨hl, hr, ?_⟩
    rintro _ ⟨⟩ _ ⟨⟩
    exact hlr

/-- The same with a node in that place. -/
theorem isChain_cut_cons {R : α → α → Prop} : (h :: (l ++ i :: r ++ [h])).IsChain R ↔
    (h :: l).IsChain R ∧ R (l.getLastD h) i ∧ R i (r.headD h) ∧ (r ++ [h]).IsChain R := by
  rw [isChain_cut, List.cons_append]
  cases r <;> simp

theorem getLastD_mem : l.getLastD h ∈ h :: (l ++ r) := by
  rw [← List.cons_append]
  exact List.mem_append_left r List.getLastD_mem_cons

theorem headD_mem : r.headD h ∈ h :: (l ++ r) := by
  cases r <;> simp

theorem headD_notMem_left (hnd : (h :: (l ++ r)).Nodup) : r.headD h ∉ l := by
  cases r with
  | nil => simpa using (List.nodup_cons.mp hnd).1
  | cons x r =>
    intro hx
    rw [List.nodup_cons, List.nodup_append] at hnd
    exact hnd.2.2.2 x hx x List.mem_cons_self rfl

theorem headD_notMem_right (hnd : (h :: (l ++ r)).Nodup) : r.headD h ∉ (r ++ [h]).tail := by
  cases r with
  | nil => simp
  | cons x r =>
    rw [List.nodup_cons, List.mem_append, List.nodup_append, List.nodup_cons] at hnd
    have hxh : x ≠ h := by
      rintro rfl
      exact hnd.1 (.inr List.mem_cons_self)
    simp only [List.headD_cons, List.cons_append, List.tail_cons, List.mem_append,
      List.mem_singleton, not_or]
    exact ⟨hnd.2.2.1.1, hxh⟩

namespace Ring

theorem empty : Ring next prev h [] ↔ next h = h ∧ prev h = h := by
  constructor
  · intro hr
    simpa [Linked] using hr.linked
  · rintro ⟨hn, hp⟩
    exact ⟨by simp, by simp [Linked, hn, hp]⟩

/-- The neighbours on both sides of a place are linked. -/
theorem seam (hr : Ring next prev h (l ++ r)) :
    next (l.getLastD h) = r.headD h ∧ prev (r.headD h) = l.getLastD h :=
  (isChain_cut.mp hr.linked).2.1

theorem next_head (hr : Ring next prev h xs) : next h = xs.headD h := (seam (l := []) hr).1

theorem prev_head (hr : Ring next prev h xs) : prev h = xs.getLastD h :=
  (seam (l := xs) (r := []) (by simpa using hr)).2

/-- A node of a ring stands between its neighbours. -/
theorem neighbours (hr : Ring next prev h (l ++ i :: r)) :
    prev i = l.getLastD h ∧ next i = r.headD h := by
  obtain ⟨_, hl, hi, _⟩ := isChain_cut_cons.mp hr.linked
  exact ⟨hl.2, hi.1⟩

/-- The node that follows a node of the ring is one as well, and leads back. -/
theorem prev_next (hr : Ring next prev h xs) (hi : i ∈ h :: xs) :
    prev (next i) = i ∧ next i ∈ h :: xs := by
  rcases List.mem_cons.mp hi with rfl | hi
  · rw [hr.next_head]
    exact ⟨(seam (l := []) hr).2, headD_mem (l := [])⟩
  · obtain ⟨l, r, rfl⟩ := List.append_of_mem hi
    rw [List.append_cons] at hr ⊢
    obtain ⟨hnext, hprev⟩ := hr.seam
    rw [List.getLastD_concat] at hnext hprev
    rw [hnext]
    exact ⟨hprev, headD_mem⟩

/-- So is every node that the links lead to from the head. -/
theorem mem_of_isChain (hr : Ring next prev h xs) (hl : (i :: l).IsChain fun x y => next x = y)
    (hi : i ∈ h :: xs) : ∀ x ∈ i :: l, x ∈ h :: xs := by
  induction l generalizing i with
  | nil =>
    intro x hx
    rwa [List.mem_singleton.mp hx]
  | cons y l ih =>
    obtain ⟨rfl, hl⟩ := List.isChain_cons_cons.mp hl
    intro x hx
    rcases List.mem_cons.mp hx with rfl | hx
    · exact hi
    · exact ih hl (hr.prev_next hi).2 x hx

/-- A ring depends only on the links of its own nodes. -/
theorem frame (hr : Ring next prev h xs) (hnext : ∀ a ∈ h :: xs, next' a = next a)
    (hprev : ∀ a ∈ h :: xs, prev' a = prev a) : Ring next' prev' h xs := by
  refine ⟨hr.nodup, hr.linked.imp_of_mem_imp ?_⟩
  intro a b ha hb hab
  have hmem : ∀ x ∈ h :: (xs ++ [h]), x ∈ h :: xs := by simp [or_comm]
  exact ⟨(hnext a (hmem a ha)).trans hab.1, (hprev b (hmem b hb)).trans hab.2⟩

/-- Both halves of a ring keep their links when only those over the cut change, whatever
    node `x` the first half led to. -/
theorem halves_frame {x : α} (hnd : (h :: (l ++ r)).Nodup)
    (hl : (h :: l).IsChain (Linked next prev)) (hr : (r ++ [h]).IsChain (Linked next prev))
    (hx : next (l.getLastD h) = x) (hxl : x ∉ l) (hxr : x ∉ (r ++ [h]).tail)
    (hnext : ∀ a ∈ h :: (l ++ r), a ≠ l.getLastD h → next' a = next a)
    (hprev : ∀ a ∈ h :: (l ++ r), a ≠ r.headD h → prev' a = prev a) :
    (h :: l).IsChain (Linked next' prev') ∧ (r ++ [h]).IsChain (Linked next' prev') := by
  have hleft : ∀ a ∈ h :: l, a ∈ h :: (l ++ r) := by
    intro a ha
    exact List.mem_append_left r ha
  have hright : ∀ a ∈ r ++ [h], a ∈ h :: (l ++ r) := by
    intro a ha
    simp only [List.mem_append, List.mem_cons, List.not_mem_nil, or_false] at ha ⊢
    tauto
  constructor
  · exact Linked.frame hl (hx ▸ hxl) (headD_notMem_left hnd)
      (fun a ha => hnext a (hleft a ha)) (fun a ha => hprev a (hleft a ha))
  · exact Linked.frame hr (hx ▸ hxr) (headD_notMem_right hnd)
      (fun a ha => hnext a (hright a ha)) (fun a ha => hprev a (hright a ha))

theorem nodup_cons_middle : (h :: (l ++ i :: r)).Nodup ↔ i ∉ h :: (l ++ r) ∧
    (h :: (l ++ r)).Nodup := by
  rw [← List.cons_append, List.nodup_middle, List.nodup_cons, List.cons_append]

/-- **Link in.**  A new node linked to two neighbours, which are linked to it. -/
theorem insert (hr : Ring next prev h (l ++ r)) (hi : i ∉ h :: (l ++ r))
    (hin : next' i = r.headD h) (hip : prev' i = l.getLastD h)
    (hp : next' (l.getLastD h) = i) (hn : prev' (r.headD h) = i)
    (hnext : ∀ a, a ≠ i → a ≠ l.getLastD h → next' a = next a)
    (hprev : ∀ a, a ≠ i → a ≠ r.headD h → prev' a = prev a) :
    Ring next' prev' h (l ++ i :: r) := by
  obtain ⟨hl, hlr, hrr⟩ := isChain_cut.mp hr.linked
  have hne : ∀ a ∈ h :: (l ++ r), a ≠ i := fun a ha => ne_of_mem_of_not_mem ha hi
  obtain ⟨hl', hr'⟩ := halves_frame hr.nodup hl hrr hlr.1 (headD_notMem_left hr.nodup)
    (headD_notMem_right hr.nodup) (fun a ha => hnext a (hne a ha)) (fun a ha => hprev a (hne a ha))
  exact ⟨nodup_cons_middle.mpr ⟨hi, hr.nodup⟩,
    isChain_cut_cons.mpr ⟨hl', ⟨hp, hip⟩, ⟨hin, hn⟩, hr'⟩⟩

/-- **Link out.**  The neighbours of a node are linked to each other. -/
theorem remove (hr : Ring next prev h (l ++ i :: r)) (hp : next' (l.getLastD h) = r.headD h)
    (hn : prev' (r.headD h) = l.getLastD h) (hnext : ∀ a, a ≠ l.getLastD h → next' a = next a)
    (hprev : ∀ a, a ≠ r.headD h → prev' a = prev a) : Ring next' prev' h (l ++ r) := by
  obtain ⟨hi, hnd⟩ := nodup_cons_middle.mp hr.nodup
  obtain ⟨hl, hli, _, hrr⟩ := isChain_cut_cons.mp hr.linked
  have hil : i ∉ l := fun hm => hi (by simp [hm])
  have hir : i ∉ (r ++ [h]).tail := by
    intro hm
    rcases List.mem_append.mp (List.mem_of_mem_tail hm) with hm | hm
    · exact hi (by simp [hm])
    · exact hi (by simp [List.mem_singleton.mp hm])
  obtain ⟨hl', hr'⟩ := halves_frame hnd hl hrr hli.1 hil hir (fun a _ => hnext a)
    (fun a _ => hprev a)
  exact ⟨hnd, isChain_cut.mpr ⟨hl', ⟨hp, hn⟩, hr'⟩⟩

/-- A ring followed the other way round. -/
theorem reverse (hr : Ring next prev h xs) : Ring prev next h xs.reverse := by
  refine ⟨?_, ?_⟩
  · have hnd := hr.nodup
    rw [List.nodup_cons] at hnd ⊢
    exact ⟨by simpa using hnd.1, List.nodup_reverse.mpr hnd.2⟩
  · have hrev : (h :: (xs ++ [h])).reverse.IsChain (Linked prev next) := by
      rw [List.isChain_reverse]
      exact hr.linked.imp fun a b hab => ⟨hab.2, hab.1⟩
    simpa using hrev

end Ring

/-! ### Loops along a ring -/

/-- `for (I = …; I != h; I = next(I))`, with a body that may leave the loop. -/
def walkRound [DecidableEq α] (next : α → α) (h : α) (body : α → σ → Round σ ρ) (done : σ → ρ)
    (s : α × σ) : Round (α × σ) ρ :=
  if s.1 = h then .leave (done s.2)
  else match body s.1 s.2 with
    | .again t => .again (next s.1, t)
    | .leave r => .leave r

/-- The same loop over a list. -/
def walkList (body : α → σ → Round σ ρ) (done : σ → ρ) : List α → σ → ρ
  | [],      s => done s
  | x :: xs, s =>
    match body x s with
    | .again t => walkList body done xs t
    | .leave r => r

/-- Where the links lead from `a` through `xs` to `h`, the loop goes through `xs`. -/
theorem walk_of_isChain [DecidableEq α] {body : α → σ → Round σ ρ} {done : σ → ρ} {a : α} {s : σ}
    (hxs : (a :: (xs ++ [h])).IsChain (Linked next prev)) (hh : h ∉ xs) :
    Loop.Returns (walkRound next h body done) (next a, s) (walkList body done xs s) := by
  induction xs generalizing a s with
  | nil =>
    have ha : next a = h := by simpa [Linked] using hxs.rel.1
    exact .leave (by simp [walkRound, walkList, ha])
  | cons x xs ih =>
    rw [List.cons_append, List.isChain_cons_cons] at hxs
    obtain ⟨⟨rfl, _⟩, hxs⟩ := hxs
    have hx : next a ≠ h := fun hx => hh (hx ▸ List.mem_cons_self)
    cases hb : body (next a) s with
    | again t =>
      simp only [walkList, hb]
      have hround : walkRound next h body done (next a, s) = .again (next (next a), t) := by
        simp only [walkRound, if_neg hx, hb]
      exact .again hround (ih hxs fun hm => hh (List.mem_cons_of_mem _ hm))
    | leave r =>
      apply Loop.Returns.leave
      simp only [walkRound, if_neg hx, walkList, hb]

/-- `for (I = …, N = link(I); I != h; I = N, N = link(I))`, with a body that may change the links,
    and leave the loop. -/
def safeRound [DecidableEq α] (link : σ → α → α) (h : α) (body : α → σ → Round σ ρ) (done : σ → ρ)
    (s : α × α × σ) : Round (α × α × σ) ρ :=
  if s.1 = h then .leave (done s.2.2)
  else match body s.1 s.2.2 with
    | .again t => .again (s.2.1, link t s.2.1, t)
    | .leave r => .leave r

/-- **Safe loop.**  An invariant that says which nodes are left, and that the first of them is
    linked to the next before the body runs, leads the loop through all of them. -/
theorem safe_walk [DecidableEq α] {link : σ → α → α} {body : α → σ → Round σ ρ} {done : σ → ρ}
    {I : List α → σ → Prop} (hne : ∀ x rest s, I (x :: rest) s → x ≠ h)
    (hlink : ∀ x rest s, I (x :: rest) s → link s x = rest.headD h)
    (hstep : ∀ x rest s, I (x :: rest) s → ∃ t, body x s = .again t ∧ I rest t) {s : σ}
    (hs : I xs s) : ∃ t, Loop.Returns (safeRound link h body done)
      (xs.headD h, link s (xs.headD h), s) (done t) ∧ I [] t := by
  induction xs generalizing s with
  | nil => exact ⟨s, .leave (if_pos rfl), hs⟩
  | cons x rest ih =>
    obtain ⟨t, hbody, ht⟩ := hstep x rest s hs
    obtain ⟨u, hret, hu⟩ := ih ht
    refine ⟨u, .again ?_ hret, hu⟩
    rw [List.headD_cons, safeRound, if_neg (hne x rest s hs), hbody, hlink x rest s hs]

/-- A loop along a ring is the loop over the list of its nodes. -/
theorem Ring.walk [DecidableEq α] (hr : Ring next prev h xs) (body : α → σ → Round σ ρ)
    (done : σ → ρ) (s : σ) :
    Loop.Returns (walkRound next h body done) (next h, s) (walkList body done xs s) :=
  walk_of_isChain hr.linked (List.nodup_cons.mp hr.nodup).1

end CModel
