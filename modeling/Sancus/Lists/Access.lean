import Mathlib.Data.Fintype.Card
import Sancus.CModel.Integer
import Sancus.Lists.Node

namespace Sancus.Lists

open CModel

/-!
# Linked lists — the nodes by their index

A node is found by counting from the head, forward along one of the links or backward along the
other.

* `sancusListGet`, `sancusListSize`, `sancusListNext`, … — the code;
* `elementAt` — the node at an index, which below zero counts from the end;
* `list_access` — the ways to a node agree.
-/

/-! ### The code -/

section

variable {α : Type}

/-- The body of the loop backward of `sancus_list_get`. -/
def getBack (item : α) (n : Int) : Round Int (Option α) :=
  -- `n` goes up to 0, and does not overflow
  if n + 1 = 0 then .leave (some item) else .again (n + 1)

/-- The body of the loop forward. -/
def getForward (item : α) (n : Int) : Round Int (Option α) :=
  if n = 0 then .leave (some item) else .again (n - 1)

/-- The body of the loop of `sancus_list_size`. -/
def countItem (_ : α) (i : Nat) : Round Nat Nat := .again (toUnsigned 64 (i + 1))

variable [DecidableEq α]

/-- `sancus_list_get` -/
def sancusListGet (fuel : Nat) (heap : Heap α) (head : α) (n : Int) : Option (Option α) :=
  if n < 0 then sancusListForeachBack fuel heap head getBack (fun _ => none) n
  else sancusListForeach fuel heap head getForward (fun _ => none) n

/-- `sancus_list_size` -/
def sancusListSize (fuel : Nat) (heap : Heap α) (head : α) : Option Nat :=
  sancusListForeach fuel heap head countItem id 0

/-- `sancus_list_is_empty(H)` -/
def sancusListIsEmpty (heap : Heap α) (h : α) : Bool := (heap h).next = h

/-- `sancus_list_first(H)` -/
def sancusListFirst (heap : Heap α) (h : α) : Option α :=
  if sancusListIsEmpty heap h then none else some (heap h).next

/-- `sancus_list_last(H)` -/
def sancusListLast (heap : Heap α) (h : α) : Option α :=
  if sancusListIsEmpty heap h then none else some (heap h).prev

/-- `sancus_list_next(H, E)` -/
def sancusListNext (heap : Heap α) : Option α → Option α → Option α
  | some h, some e => if (heap e).next = h then none else some (heap e).next
  | _,      _      => none

end

/-! ### Counting -/

/-- The node at an index: from the first one on, or below zero from behind the last one back. -/
def elementAt {α : Type} (xs : List α) (n : Int) : Option α :=
  if 0 ≤ n ∧ n < xs.length then xs[n.toNat]?
  else if -xs.length ≤ n ∧ n < 0 then xs[(xs.length + n).toNat]?
  else none

variable {α : Type} {heap : Heap α} {h x : α} {xs : List α}

theorem walkList_getForward (xs : List α) (n : Nat) :
    walkList getForward (fun _ => none) xs n = xs[n]? := by
  induction xs generalizing n with
  | nil => rfl
  | cons x xs ih =>
    cases n with
    | zero => rfl
    | succ n =>
      have hn : getForward x ((n + 1 : Nat) : Int) = .again (n : Int) := by
        rw [getForward, if_neg (by omega)]
        simp
      rw [walkList, hn, List.getElem?_cons_succ]
      exact ih n

theorem walkList_getBack (xs : List α) (n : Nat) :
    walkList getBack (fun _ => none) xs (-(n + 1 : Nat)) = xs[n]? := by
  induction xs generalizing n with
  | nil => rfl
  | cons x xs ih =>
    cases n with
    | zero => rfl
    | succ n =>
      have hn : getBack x (-((n + 1 + 1 : Nat) : Int)) = .again (-((n + 1 : Nat) : Int)) := by
        rw [getBack, if_neg (by omega)]
        congr 1
      rw [walkList, hn, List.getElem?_cons_succ]
      exact ih n

/-- The count is that of a `size_t`. -/
theorem walkList_countItem (xs : List α) (i : Nat) (hi : i < 2 ^ 64) :
    walkList countItem id xs i = toUnsigned 64 (i + xs.length) := by
  induction xs generalizing i with
  | nil => simp [walkList, toUnsigned_of_lt hi]
  | cons x xs ih =>
    rw [walkList, countItem]
    dsimp only
    rw [ih _ (toUnsigned_lt 64 _), toUnsigned, toUnsigned, toUnsigned, Nat.mod_add_mod,
      List.length_cons, Nat.add_assoc, Nat.add_comm 1]

theorem elementAt_natCast (xs : List α) (n : Nat) : elementAt xs n = xs[n]? := by
  unfold elementAt
  split
  · simp
  · rw [if_neg (by omega), eq_comm, List.getElem?_eq_none_iff]
    omega

/-- Below zero the nodes are counted from the end. -/
theorem elementAt_neg (xs : List α) (n : Nat) :
    elementAt xs (-(n + 1 : Nat)) = xs.reverse[n]? := by
  unfold elementAt
  rw [if_neg (by omega)]
  split
  · have hn : n < xs.length := by omega
    rw [List.getElem?_reverse hn]
    congr 1
    omega
  · rw [eq_comm, List.getElem?_eq_none_iff, List.length_reverse]
    omega

/-! ### Access -/

variable [DecidableEq α]

theorem sancusListGet_eq (hr : Ring heap.next heap.prev h xs) (n : Int) :
    ∃ fuel, sancusListGet fuel heap h n = some (elementAt xs n) := by
  by_cases hn : n < 0
  · obtain ⟨n, rfl⟩ : ∃ k : Nat, n = -((k + 1 : Nat) : Int) := ⟨(-n - 1).toNat, by omega⟩
    obtain ⟨fuel, hrun⟩ := sancusListForeachBack_ring hr getBack (fun _ => none) (-(n + 1 : Nat))
    rw [walkList_getBack, ← elementAt_neg] at hrun
    exact ⟨fuel, (if_pos hn).trans hrun⟩
  · obtain ⟨n, rfl⟩ := Int.eq_ofNat_of_zero_le (not_lt.mp hn)
    obtain ⟨fuel, hrun⟩ := sancusListForeach_ring hr getForward (fun _ => none) (n : Int)
    rw [walkList_getForward, ← elementAt_natCast] at hrun
    exact ⟨fuel, (if_neg hn).trans hrun⟩

/-- The nodes of a list have addresses, and so they can be counted. -/
theorem sancusListSize_eq (addr : α ↪ Fin (2 ^ 64)) (hr : Ring heap.next heap.prev h xs) :
    ∃ fuel, sancusListSize fuel heap h = some xs.length := by
  have hfew : ((h :: xs).map addr).length ≤ Fintype.card (Fin (2 ^ 64)) :=
    (hr.nodup.map addr.injective).length_le_card
  rw [Fintype.card_fin, List.length_map, List.length_cons] at hfew
  obtain ⟨fuel, hrun⟩ := sancusListForeach_ring hr countItem id 0
  rw [walkList_countItem xs 0 (by decide), Nat.zero_add, toUnsigned_of_lt (by omega)] at hrun
  exact ⟨fuel, hrun⟩

omit [DecidableEq α] in
/-- What follows a node, or nothing behind the last one. -/
theorem headD_eq_iff (hr : Ring heap.next heap.prev h xs) (r : List α) (hsub : r ⊆ xs) :
    (r.headD h = h ↔ r = []) := by
  cases r with
  | nil => simp
  | cons x r =>
    have hx : x ≠ h := by
      rintro rfl
      exact (List.nodup_cons.mp hr.nodup).1 (hsub List.mem_cons_self)
    simp [hx]

theorem sancusListFirst_eq (hr : Ring heap.next heap.prev h xs) :
    sancusListFirst heap h = xs.head? := by
  have hnext : (heap h).next = xs.headD h := hr.next_head
  have hempty := headD_eq_iff hr xs (List.Subset.refl xs)
  rw [sancusListFirst, sancusListIsEmpty, hnext]
  cases xs with
  | nil => simp
  | cons x xs => simpa using hempty

theorem sancusListLast_eq (hr : Ring heap.next heap.prev h xs) :
    sancusListLast heap h = xs.getLast? := by
  have hnext : (heap h).next = xs.headD h := hr.next_head
  have hprev : (heap h).prev = xs.getLastD h := hr.prev_head
  have hempty := headD_eq_iff hr xs (List.Subset.refl xs)
  rw [sancusListLast, sancusListIsEmpty, hnext, hprev]
  cases xs with
  | nil => simp
  | cons x xs =>
    rw [List.getLastD_eq_getLast?]
    simpa [List.getLast?_cons] using hempty

theorem sancusListNext_eq (hr : Ring heap.next heap.prev h xs) {i : Nat} (hi : i < xs.length) :
    sancusListNext heap (some h) (some xs[i]) = xs[i + 1]? := by
  have hsplit : xs = xs.take i ++ xs[i] :: xs.drop (i + 1) := by simp
  have hring := hr
  rw [hsplit] at hring
  have hnext : (heap xs[i]).next = (xs.drop (i + 1)).headD h := hring.neighbours.2
  have hempty := headD_eq_iff hr (xs.drop (i + 1)) (List.drop_subset _ _)
  rw [sancusListNext, hnext, ← List.head?_drop]
  cases hrest : xs.drop (i + 1) with
  | nil => simp
  | cons x r =>
    rw [hrest] at hempty
    simpa using hempty

/-- Going on from the first node leads through the nodes in order. -/
theorem next_iterate (hr : Ring heap.next heap.prev h xs) (i : Nat) :
    (sancusListNext heap (some h))^[i] (sancusListFirst heap h) = xs[i]? := by
  induction i with
  | zero => rw [Function.iterate_zero_apply, sancusListFirst_eq hr, List.head?_eq_getElem?]
  | succ i ih =>
    rw [Function.iterate_succ_apply', ih]
    by_cases hi : i < xs.length
    · rw [List.getElem?_eq_getElem hi, sancusListNext_eq hr hi]
    · rw [List.getElem?_eq_none (by omega), List.getElem?_eq_none (by omega)]
      rfl

/-- **Access by index.**  For every list and every index, the node is found that the index stands
    for, or none; the length is found, and an index less the length stands for the same node; and
    the first node, the last one and those that follow one another are those of the list. -/
theorem list_access (addr : α ↪ Fin (2 ^ 64)) (heap : Heap α) (h : α) (xs : List α)
    (hr : Ring heap.next heap.prev h xs) :
    (∀ n : Int, ∃ fuel, sancusListGet fuel heap h n = some (elementAt xs n)) ∧
    (∃ fuel, sancusListSize fuel heap h = some xs.length) ∧
    (∀ n : Int, 0 ≤ n → n < xs.length → ∃ fuel fuel' e,
      sancusListGet fuel heap h n = some (some e) ∧
        sancusListGet fuel' heap h (n - xs.length) = some (some e)) ∧
    sancusListLast heap h = xs.getLast? ∧
    ∀ i, (sancusListNext heap (some h))^[i] (sancusListFirst heap h) = xs[i]? := by
  refine ⟨sancusListGet_eq hr, sancusListSize_eq addr hr, ?_, sancusListLast_eq hr,
    next_iterate hr⟩
  intro n hn hlt
  obtain ⟨fuel, hfirst⟩ := sancusListGet_eq hr n
  obtain ⟨fuel', hlast⟩ := sancusListGet_eq hr (n - xs.length)
  have helem : xs[n.toNat]? = some xs[n.toNat] := List.getElem?_eq_getElem (by omega)
  rw [elementAt, if_pos ⟨hn, hlt⟩, helem] at hfirst
  rw [elementAt, if_neg (by omega), if_pos (by omega), add_sub_cancel, helem] at hlast
  exact ⟨fuel, fuel', _, hfirst, hlast⟩

/-- The rule for a list of two nodes, whose addresses are these numbers. -/
theorem list_access_two :
    let heap : Heap (Fin (2 ^ 64)) := fun a =>
      if a = 0 then ⟨2, 1⟩ else if a = 1 then ⟨0, 2⟩ else ⟨1, 0⟩
    (∀ n : Int, ∃ fuel, sancusListGet fuel heap 0 n = some (elementAt [1, 2] n)) ∧
      elementAt [(1 : Fin (2 ^ 64)), 2] (-1) = some 2 := by
  intro heap
  have hr : Ring heap.next heap.prev 0 [1, 2] :=
    ⟨by decide, by simp [Linked, heap, Heap.next, Heap.prev]⟩
  exact ⟨(list_access (.refl _) heap 0 [1, 2] hr).1, by decide⟩

end Sancus.Lists
