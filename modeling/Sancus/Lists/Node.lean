import Sancus.CModel.Ring

namespace Sancus.Lists

open CModel

/-!
# Linked lists — the nodes and what is done to them

`struct sancus_list` is embedded in what it links; the nodes have addresses of any type,
and the memory gives the two links of each.  A head is a node too.

* `sancusListInit`, `sancusListInject`, `sancusListDel`, `sancusListSwap` — the writes to the
  memory;
* `sancusListForeach`, `sancusListForeachBack` — the loops, with their bodies;
* `sancusListForeach2`, `sancusListForeachBack2` — the loops whose bodies write to the memory;
* `next_sancusListInject`, … — the links after each write.
-/

/-- `struct sancus_list` -/
structure SancusList (α : Type) where
  prev : α
  next : α
  deriving DecidableEq

/-- The memory: the node at each address. -/
abbrev Heap (α : Type) := α → SancusList α

section

variable {α : Type}

def Heap.next (heap : Heap α) (a : α) : α := (heap a).next
def Heap.prev (heap : Heap α) (a : α) : α := (heap a).prev

/-- The body of a loop that notes the nodes it is given. -/
def note (item : α) (seen : List α) : Round (List α) (List α) := .again (seen ++ [item])

theorem walkList_note (xs seen : List α) : walkList note id xs seen = seen ++ xs := by
  induction xs generalizing seen with
  | nil => simp [walkList]
  | cons x xs ih =>
    rw [walkList, note]
    simpa using ih (seen ++ [x])

end

variable {α : Type} [DecidableEq α]

/-! ### Writes -/

/-- `*self = (struct sancus_list) { self, self };` -/
def sancusListInit (heap : Heap α) (self : α) : Heap α :=
  Function.update heap self { prev := self, next := self }

/-- `sancus_list__inject` -/
def sancusListInject (heap : Heap α) (self prev next : α) : Heap α :=
  let heap := Function.update heap self { prev := prev, next := next }
  -- `next->prev = prev->next = self;`, from the right
  let heap := Function.update heap prev { heap prev with next := self }
  Function.update heap next { heap next with prev := self }

/-- `sancus_list_insert_before(I, N)` -/
def sancusListInsertBefore (heap : Heap α) (item n : α) : Heap α :=
  sancusListInject heap item (heap n).prev n

/-- `sancus_list_insert(H, I)` -/
def sancusListInsert (heap : Heap α) (head item : α) : Heap α :=
  sancusListInject heap item head (heap head).next

/-- `sancus_list_append(H, I)` -/
def sancusListAppend (heap : Heap α) (head item : α) : Heap α :=
  sancusListInject heap item (heap head).prev head

/-- `sancus_list__del` -/
def sancusListDel' (heap : Heap α) (prev next : α) : Heap α :=
  let heap := Function.update heap next { heap next with prev := prev }
  Function.update heap prev { heap prev with next := next }

/-- `sancus_list_del(S)` -/
def sancusListDel (heap : Heap α) (s : α) : Heap α :=
  sancusListDel' heap (heap s).prev (heap s).next

/-- `sancus_list_swap` -/
def sancusListSwap (heap : Heap α) (a b : α) : Heap α :=
  let aux := heap a
  let heap := Function.update heap a { prev := (heap b).prev, next := (heap b).next }
  Function.update heap b { prev := aux.prev, next := aux.next }

/-! ### Loops -/

variable {σ ρ : Type}

/-- `sancus_list_foreach(H, I) body`, and what comes after it. -/
def sancusListForeach (fuel : Nat) (heap : Heap α) (head : α) (body : α → σ → Round σ ρ)
    (done : σ → ρ) (s : σ) : Option ρ :=
  Loop.run (walkRound heap.next head body done) fuel (heap.next head, s)

/-- `sancus_list_foreach_back(H, I) body`, and what comes after it. -/
def sancusListForeachBack (fuel : Nat) (heap : Heap α) (head : α) (body : α → σ → Round σ ρ)
    (done : σ → ρ) (s : σ) : Option ρ :=
  Loop.run (walkRound heap.prev head body done) fuel (heap.prev head, s)

/-- `sancus_list_foreach2(H, I, N) body`, and what comes after it; the body writes to the
    memory. -/
def sancusListForeach2 (fuel : Nat) (heap : Heap α) (head : α)
    (body : α → Heap α × σ → Round (Heap α × σ) ρ) (done : Heap α × σ → ρ) (s : σ) : Option ρ :=
  Loop.run (safeRound (fun s => s.1.next) head body done) fuel
    (heap.next head, heap.next (heap.next head), heap, s)

/-- `sancus_list_foreach_back2(H, I, P) body`, and what comes after it. -/
def sancusListForeachBack2 (fuel : Nat) (heap : Heap α) (head : α)
    (body : α → Heap α × σ → Round (Heap α × σ) ρ) (done : Heap α × σ → ρ) (s : σ) : Option ρ :=
  Loop.run (safeRound (fun s => s.1.prev) head body done) fuel
    (heap.prev head, heap.prev (heap.prev head), heap, s)

/-! ### The links after a write -/

variable {heap : Heap α} {self prev next a s : α}

theorem next_sancusListInit : (sancusListInit heap self).next a =
    if a = self then self else heap.next a := by
  unfold sancusListInit Heap.next
  by_cases ha : a = self <;> simp [ha]

theorem prev_sancusListInit : (sancusListInit heap self).prev a =
    if a = self then self else heap.prev a := by
  unfold sancusListInit Heap.prev
  by_cases ha : a = self <;> simp [ha]

theorem next_sancusListInject : (sancusListInject heap self prev next).next a =
    if a = prev then self else if a = self then next else heap.next a := by
  unfold sancusListInject Heap.next
  simp only [Function.update_apply]
  split_ifs <;> simp_all

theorem prev_sancusListInject : (sancusListInject heap self prev next).prev a =
    if a = next then self else if a = self then prev else heap.prev a := by
  unfold sancusListInject Heap.prev
  simp only [Function.update_apply]
  split_ifs <;> simp_all

theorem next_sancusListDel' : (sancusListDel' heap prev next).next a =
    if a = prev then next else heap.next a := by
  unfold sancusListDel' Heap.next
  simp only [Function.update_apply]
  split_ifs <;> simp_all

theorem prev_sancusListDel' : (sancusListDel' heap prev next).prev a =
    if a = next then prev else heap.prev a := by
  unfold sancusListDel' Heap.prev
  simp only [Function.update_apply]
  split_ifs <;> simp_all

/-! ### A loop over a well-formed list -/

variable {h : α} {xs : List α}

/-- The loops over a well-formed list, forward and backward, are loops over its nodes. -/
theorem sancusListForeach_ring (hr : Ring heap.next heap.prev h xs) (body : α → σ → Round σ ρ)
    (done : σ → ρ) (t : σ) :
    ∃ fuel, sancusListForeach fuel heap h body done t = some (walkList body done xs t) :=
  (hr.walk body done t).exists_run

theorem sancusListForeachBack_ring (hr : Ring heap.next heap.prev h xs)
    (body : α → σ → Round σ ρ) (done : σ → ρ) (t : σ) :
    ∃ fuel, sancusListForeachBack fuel heap h body done t =
      some (walkList body done xs.reverse t) :=
  (hr.reverse.walk body done t).exists_run

/-- The list of the nodes 1 and 2 with the head 0, and every other node on its own. -/
def ringOfTwo : Heap Nat := fun a =>
  if a = 0 then ⟨2, 1⟩ else if a = 1 then ⟨0, 2⟩ else if a = 2 then ⟨1, 0⟩ else ⟨a, a⟩

theorem ringOfTwo_ring : Ring ringOfTwo.next ringOfTwo.prev 0 [1, 2] :=
  ⟨by decide, by simp [Linked, ringOfTwo, Heap.next, Heap.prev]⟩

end Sancus.Lists
