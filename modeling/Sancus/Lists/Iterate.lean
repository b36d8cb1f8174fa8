import Sancus.Lists.Integrity

namespace Sancus.Lists

open CModel

/-!
# Linked lists — taking nodes out while going through a list

The loops that save the node to go on with let their bodies move the node they are at to another
list.

* `moveTo` — a body that does this to the nodes of a kind;
* `TwoLists` — two lists with no node in common, and `TwoLists.move`, a node moved over;
* `foreach2_moves` — the loops visit every node, and leave the nodes of the kind in the other list.
-/

/-- A body that notes the node it is given, and moves it to the end of the list `d` if `p` holds. -/
def moveTo {α : Type} [DecidableEq α] (p : α → Bool) (d item : α) (s : Heap α × List α) :
    Round (Heap α × List α) (Heap α × List α) :=
  let (heap, seen) := s
  if p item then .again (sancusListAppend (sancusListDel heap item) d item, seen ++ [item])
  else .again (heap, seen ++ [item])

/-- Two lists that have no node in common. -/
structure TwoLists {α : Type} (heap : Heap α) (h : α) (xs : List α) (d : α) (ds : List α) :
    Prop where
  first : Ring heap.next heap.prev h xs
  second : Ring heap.next heap.prev d ds
  disjoint : List.Disjoint (h :: xs) (d :: ds)

variable {α : Type} {heap : Heap α} {h d i : α} {l r xs ds : List α} {m : Sequences α}

namespace TwoLists

theorem head_ne (ht : TwoLists heap h xs d ds) : h ≠ d := by
  rintro rfl
  exact ht.disjoint List.mem_cons_self List.mem_cons_self

/-- They are lists in the sense of the operations, … -/
theorem represents (ht : TwoLists heap h xs d ds) (hheads : m.heads = [h, d]) (hh : m.seq h = xs)
    (hd : m.seq d = ds) : Represents heap m := by
  subst hh hd
  refine ⟨?_, ?_⟩
  · intro a ha
    rw [hheads] at ha
    rcases List.mem_pair.mp ha with rfl | rfl
    · exact ht.first
    · exact ht.second
  · intro a ha b hb hab
    rw [hheads] at ha hb
    rcases List.mem_pair.mp ha with rfl | rfl <;> rcases List.mem_pair.mp hb with rfl | rfl
    · exact absurd rfl hab
    · exact ht.disjoint
    · exact List.disjoint_symm ht.disjoint
    · exact absurd rfl hab

/-- … and such lists are two of these. -/
theorem of_represents (hm : Represents heap m) (hheads : m.heads = [h, d]) (hne : h ≠ d) :
    TwoLists heap h (m.seq h) d (m.seq d) := by
  have hh : h ∈ m.heads := by simp [hheads]
  have hd : d ∈ m.heads := by simp [hheads]
  exact ⟨hm.ring h hh, hm.ring d hd, hm.disjoint h hh d hd hne⟩

/-- **Move.**  A node taken out of the first list and appended to the second. -/
theorem move [DecidableEq α] (ht : TwoLists heap h (l ++ i :: r) d ds) :
    TwoLists (sancusListAppend (sancusListDel heap i) d i) h (l ++ r) d (ds ++ [i]) := by
  let m : Sequences α := ⟨[h, d], fun a => if a = h then l ++ i :: r else ds⟩
  have hne := ht.head_ne
  have hm : Represents heap m := ht.represents rfl (if_pos rfl) (if_neg hne.symm)
  have hdel := hm.del (h := h) (s := i) (by simp [m]) (if_pos rfl)
  have hseq : Function.update m.seq h (l ++ r) d = ds := by
    simp [m, hne.symm]
  -- the node is in neither of the lists then
  have hfree : ¬ Sequences.InUse { m with seq := Function.update m.seq h (l ++ r) } i := by
    have hnot := (Ring.nodup_cons_middle.mp ht.first.nodup).1
    have hother : i ∉ d :: ds := fun hi => ht.disjoint (by simp) hi
    rintro ⟨a, ha, hi⟩
    rcases List.mem_pair.mp ha with rfl | rfl
    · exact hnot (by simpa using hi)
    · dsimp only at hi
      rw [hseq] at hi
      exact hother hi
  have hlast : (sancusListDel heap i d).prev = ds.getLastD d := by
    have hring := hdel.ring d (by simp [m])
    dsimp only at hring
    rw [hseq] at hring
    exact hring.prev_head
  have hadd := hdel.inject (h := d) (l := ds) (r := []) (by simp [m]) (by simp [hseq]) hfree
  have hafter := of_represents hadd rfl hne
  rw [sancusListAppend, hlast]
  simpa [hne] using hafter

end TwoLists

variable [DecidableEq α] {p : α → Bool}

/-- What a loop forward keeps: the nodes it has seen are in the lists they belong to, in order,
    and those that are left are at the end of the first list. -/
def MovedForward (p : α → Bool) (h : α) (xs : List α) (d : α) (ds rest : List α)
    (s : Heap α × List α) : Prop :=
  xs = s.2 ++ rest ∧
    TwoLists s.1 h (s.2.filter (fun x => !p x) ++ rest) d (ds ++ s.2.filter p)

/-- What a loop backward keeps: those that are left, the last one first, are at its beginning. -/
def MovedBack (p : α → Bool) (h : α) (xs : List α) (d : α) (ds rest : List α)
    (s : Heap α × List α) : Prop :=
  xs.reverse = s.2 ++ rest ∧
    TwoLists s.1 h (rest.reverse ++ (s.2.filter (fun x => !p x)).reverse) d (ds ++ s.2.filter p)

theorem MovedForward.step {x : α} {rest : List α} {s : Heap α × List α}
    (hs : MovedForward p h xs d ds (x :: rest) s) :
    ∃ t, moveTo p d x s = .again t ∧ MovedForward p h xs d ds rest t := by
  obtain ⟨heap, seen⟩ := s
  obtain ⟨hxs, hlists⟩ := hs
  rw [moveTo]
  by_cases hp : p x = true
  · refine ⟨_, if_pos hp, by simpa using hxs, ?_⟩
    simpa [hp] using hlists.move
  · refine ⟨_, if_neg hp, by simpa using hxs, ?_⟩
    simpa [hp] using hlists

theorem MovedBack.step {x : α} {rest : List α} {s : Heap α × List α}
    (hs : MovedBack p h xs d ds (x :: rest) s) :
    ∃ t, moveTo p d x s = .again t ∧ MovedBack p h xs d ds rest t := by
  obtain ⟨heap, seen⟩ := s
  obtain ⟨hxs, hlists⟩ := hs
  simp only [List.reverse_cons, List.append_assoc, List.singleton_append] at hlists
  rw [moveTo]
  by_cases hp : p x = true
  · refine ⟨_, if_pos hp, by simpa using hxs, ?_⟩
    simpa [hp] using hlists.move
  · refine ⟨_, if_neg hp, by simpa using hxs, ?_⟩
    simpa [hp] using hlists

omit [DecidableEq α] in
theorem headD_reverse : xs.reverse.headD h = xs.getLastD h := by
  rw [List.headD_eq_head?_getD, List.head?_reverse, List.getLastD_eq_getLast?]

/-- The loop forward goes through all of the nodes. -/
theorem MovedForward.loop (ht : TwoLists heap h xs d ds) :
    ∃ t, Loop.Returns (safeRound (fun s : Heap α × List α => s.1.next) h (moveTo p d) id)
      (xs.headD h, heap.next (xs.headD h), heap, []) (id t) ∧ MovedForward p h xs d ds [] t := by
  have hstart : MovedForward p h xs d ds xs (heap, []) := ⟨rfl, by simpa using ht⟩
  refine safe_walk ?_ ?_ (fun _ _ _ => MovedForward.step) hstart
  · rintro x rest s ⟨_, hlists⟩ rfl
    exact (List.nodup_cons.mp hlists.first.nodup).1 (by simp)
  · rintro x rest s ⟨_, hlists⟩
    exact hlists.first.neighbours.2

/-- So does the loop backward. -/
theorem MovedBack.loop (ht : TwoLists heap h xs d ds) :
    ∃ t, Loop.Returns (safeRound (fun s : Heap α × List α => s.1.prev) h (moveTo p d) id)
      (xs.reverse.headD h, heap.prev (xs.reverse.headD h), heap, []) (id t) ∧
      MovedBack p h xs d ds [] t := by
  have hstart : MovedBack p h xs d ds xs.reverse (heap, []) := ⟨rfl, by simpa using ht⟩
  refine safe_walk ?_ ?_ (fun _ _ _ => MovedBack.step) hstart
  · rintro x rest s ⟨_, hlists⟩ rfl
    exact (List.nodup_cons.mp hlists.first.nodup).1 (by simp)
  · rintro x rest s ⟨_, hlists⟩
    simp only [List.reverse_cons, List.append_assoc, List.singleton_append] at hlists
    have hprev := hlists.first.neighbours.1
    rwa [← headD_reverse, List.reverse_reverse] at hprev

/-- **Removal under a loop.**  For every list, every other one with no node in common with it, and
    every predicate: both loops visit every node of the first list once, forward and backward,
    and end; the nodes that do not meet the predicate stay in their order, and those that do
    follow the nodes of the second list, in the order of the visits. -/
theorem foreach2_moves (heap : Heap α) (h : α) (xs : List α) (d : α) (ds : List α) (p : α → Bool)
    (ht : TwoLists heap h xs d ds) :
    (∃ fuel after, sancusListForeach2 fuel heap h (moveTo p d) id [] = some (after, xs) ∧
      TwoLists after h (xs.filter fun x => !p x) d (ds ++ xs.filter p)) ∧
    ∃ fuel after,
      sancusListForeachBack2 fuel heap h (moveTo p d) id [] = some (after, xs.reverse) ∧
      TwoLists after h (xs.filter fun x => !p x) d (ds ++ (xs.filter p).reverse) := by
  refine ⟨?_, ?_⟩
  · obtain ⟨⟨after, seen⟩, hret, hxs, hlists⟩ := MovedForward.loop (p := p) ht
    obtain ⟨fuel, hrun⟩ := hret.exists_run
    rw [List.append_nil] at hxs hlists
    subst hxs
    rw [← ht.first.next_head] at hrun
    exact ⟨fuel, after, hrun, hlists⟩
  · obtain ⟨⟨after, seen⟩, hret, hxs, hlists⟩ := MovedBack.loop (p := p) ht
    obtain ⟨fuel, hrun⟩ := hret.exists_run
    rw [List.append_nil] at hxs
    subst hxs
    rw [headD_reverse, ← ht.first.prev_head] at hrun
    refine ⟨fuel, after, hrun, ?_⟩
    simpa [List.filter_reverse] using hlists

/-- The rule for a list of two nodes, of which the even one is moved to a list of none. -/
theorem foreach2_moves_two :
    (∃ fuel after, sancusListForeach2 fuel ringOfTwo 0 (moveTo (fun x => x % 2 == 0) 3) id [] =
        some (after, [1, 2]) ∧ TwoLists after 0 [1] 3 [2]) ∧
      ∃ fuel after, sancusListForeachBack2 fuel ringOfTwo 0 (moveTo (fun x => x % 2 == 0) 3) id [] =
        some (after, [2, 1]) ∧ TwoLists after 0 [1] 3 [2] :=
  foreach2_moves ringOfTwo 0 [1, 2] 3 [] (fun x => x % 2 == 0)
    ⟨ringOfTwo_ring, Ring.empty.mpr ⟨rfl, rfl⟩, by simp⟩

end Sancus.Lists
