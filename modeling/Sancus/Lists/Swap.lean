import Mathlib.Logic.Equiv.Basic
import Sancus.Lists.Node

namespace Sancus.Lists

open CModel

/-!
# Linked lists — swapping two nodes

`sancus_list_swap` exchanges the links of two nodes, but not those of their neighbours, which go
on leading to the node that was there before.

* `Exchanges` — the list is a ring again, with the two nodes exchanged;
* `not_ring_swap` — what the head leads to is no ring any more, with whatever nodes;
* `list_swap_never` — so two nodes of a list are never exchanged.
-/

variable {α : Type} [DecidableEq α] {heap : Heap α} {h a b x : α} {l r xs ys : List α}

theorem next_sancusListSwap : (sancusListSwap heap a b).next x =
    if x = b then heap.next a else if x = a then heap.next b else heap.next x := by
  unfold sancusListSwap Heap.next
  simp only [Function.update_apply]
  split_ifs <;> rfl

theorem prev_sancusListSwap : (sancusListSwap heap a b).prev x =
    if x = b then heap.prev a else if x = a then heap.prev b else heap.prev x := by
  unfold sancusListSwap Heap.prev
  simp only [Function.update_apply]
  split_ifs <;> rfl

/-- After `sancus_list_swap(a, b)` the list is a ring again, the same but for `a` and `b`, which are
    exchanged. -/
def Exchanges (heap : Heap α) (h : α) (xs : List α) (a b : α) : Prop :=
  Ring (sancusListSwap heap a b).next (sancusListSwap heap a b).prev h (xs.map (Equiv.swap a b))

theorem sancusListSwap_comm (hab : a ≠ b) : sancusListSwap heap a b = sancusListSwap heap b a :=
  Function.update_comm hab _ _ _

/-- The node in front of the first of the two leads to it still, and it leads back to where the
    other one was. -/
theorem not_ring_of_first (hr : Ring heap.next heap.prev h (l ++ a :: r)) (hb : b ∈ r)
    (hys : Ring (sancusListSwap heap a b).next (sancusListSwap heap a b).prev h ys) : False := by
  obtain ⟨ha, hnd⟩ := Ring.nodup_cons_middle.mp hr.nodup
  have hnotb : b ∉ h :: l := by
    intro hmem
    rw [← List.cons_append, List.nodup_append] at hnd
    exact hnd.2.2 b hmem b hb rfl
  have hother : ∀ x ∈ h :: l, x ≠ b ∧ x ≠ a := by
    intro x hx
    refine ⟨fun hxb => hnotb (hxb ▸ hx), fun hxa => ha (hxa ▸ ?_)⟩
    exact List.mem_append_left r hx
  have hsame : ∀ x ∈ h :: l, (sancusListSwap heap a b).next x = heap.next x := by
    intro x hx
    rw [next_sancusListSwap, if_neg (hother x hx).1, if_neg (hother x hx).2]
  obtain ⟨hl, hla, _, _⟩ := isChain_cut_cons.mp hr.linked
  -- the head leads to the node in front as before
  have hchain : (h :: l).IsChain fun x y => (sancusListSwap heap a b).next x = y := by
    refine hl.imp_of_mem_imp ?_
    intro x y hx _ hxy
    rw [hsame x hx, hxy.1]
  have hfront : l.getLastD h ∈ h :: l := List.getLastD_mem_cons
  have hmem := hys.mem_of_isChain hchain List.mem_cons_self _ hfront
  have hback := (hys.prev_next hmem).1
  have hne : a ≠ b := by
    rintro rfl
    exact ha (by simp [hb])
  rw [hsame _ hfront, hla.1, prev_sancusListSwap, if_neg hne, if_pos rfl] at hback
  -- but it is the other one that follows it
  have hbmem : b ∈ h :: (l ++ a :: r).reverse := by simp [hb]
  have hb' : heap.next (heap.prev b) = b := (hr.reverse.prev_next hbmem).1
  rw [hback, hla.1] at hb'
  exact hne hb'

/-- The head of a list with two nodes swapped leads to no ring. -/
theorem not_ring_swap (hr : Ring heap.next heap.prev h xs) (ha : a ∈ xs) (hb : b ∈ xs)
    (hab : a ≠ b) :
    ¬ Ring (sancusListSwap heap a b).next (sancusListSwap heap a b).prev h ys := by
  intro hys
  obtain ⟨l, r, rfl⟩ := List.append_of_mem ha
  simp only [List.mem_append, List.mem_cons, hab.symm, false_or] at hb
  rcases hb with hb | hb
  · obtain ⟨l', r', rfl⟩ := List.append_of_mem hb
    rw [List.append_assoc, List.cons_append] at hr
    rw [sancusListSwap_comm hab] at hys
    exact not_ring_of_first hr (by simp) hys
  · exact not_ring_of_first hr hb hys

/-- **A swap exchanges nothing.**  For every list and any two nodes of it, adjacent or not, the
    list is no ring with the two exchanged. -/
theorem list_swap_never (heap : Heap α) (h : α) (xs : List α) (a b : α)
    (hr : Ring heap.next heap.prev h xs) (ha : a ∈ xs) (hb : b ∈ xs) (hab : a ≠ b) :
    ¬ Exchanges heap h xs a b :=
  not_ring_swap hr ha hb hab

/-- The rule for the two nodes of a list. -/
theorem list_swap_never_two : ¬ Exchanges ringOfTwo 0 [1, 2] 1 2 :=
  list_swap_never ringOfTwo 0 [1, 2] 1 2 ringOfTwo_ring (by decide) (by decide) (by decide)

/-- **The head keeps the old first node.**  In a list of two the head still leads to the first one
    after a swap, and this one leads to itself backwards. -/
theorem list_swap_breaks :
    Ring ringOfTwo.next ringOfTwo.prev 0 [1, 2] ∧
      (sancusListSwap ringOfTwo 1 2).next 0 = 1 ∧ (sancusListSwap ringOfTwo 1 2).prev 1 = 1 ∧
      ¬ Exchanges ringOfTwo 0 [1, 2] 1 2 := by
  refine ⟨ringOfTwo_ring, by decide, by decide, ?_⟩
  intro hex
  have hfirst : (sancusListSwap ringOfTwo 1 2).next 0 = 2 := hex.next_head
  exact absurd hfirst (by decide)

end Sancus.Lists
