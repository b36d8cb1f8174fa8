import Sancus.CModel.Machine
import Sancus.Lists.Node

namespace Sancus.Lists

open CModel

/-!
# Linked lists — every list stays a ring

What the operations are for: each head has a sequence of nodes, no node is in two of them,
and an operation changes one sequence.  The memory refines that over any run of them.

* `Sequences` — the lists, and `Sequences.step`, what an operation does to them;
* `Op.exec` — what it does to the memory;
* `Represents` — each head is on a ring of its own, which holds its sequence;
* `Represents.step` — one operation keeps that; `lists_integrity` — so does any run.
-/

/-! ### The sequences -/

/-- The heads, and the nodes on the list of each. -/
structure Sequences (α : Type) where
  heads : List α
  seq : α → List α

/-- A call, with the nodes it is given. -/
inductive Op (α : Type) where
  | insert (head item : α)
  | append (head item : α)
  | insertBefore (item n : α)
  | del (s : α)

variable {α : Type} [DecidableEq α]

/-- The lists just initialised. -/
def Sequences.init (heads : List α) : Sequences α := { heads, seq := fun _ => [] }

/-- A node in some list, or the head of one. -/
def Sequences.InUse (m : Sequences α) (i : α) : Prop := ∃ h ∈ m.heads, i ∈ h :: m.seq h

instance (m : Sequences α) (i : α) : Decidable (m.InUse i) :=
  inferInstanceAs (Decidable (∃ h ∈ m.heads, i ∈ h :: m.seq h))

/-- The head of the list a call is about; `none` when it may not be made: only a node in no
    list goes into one, and only a node in some list comes out. -/
def Op.place (m : Sequences α) : Op α → Option α
  | .insert h i | .append h i => if h ∈ m.heads ∧ ¬ m.InUse i then some h else none
  | .insertBefore i n         =>
    if m.InUse i then none else m.heads.find? fun h => n ∈ h :: m.seq h
  | .del s                    => m.heads.find? fun h => s ∈ m.seq h

/-- What it does to that list.  The place before the head itself is the end. -/
def Op.effect (xs : List α) : Op α → List α
  | .insert _ i       => i :: xs
  | .append _ i       => xs ++ [i]
  | .insertBefore i n => xs.takeWhile (· ≠ n) ++ i :: xs.dropWhile (· ≠ n)
  | .del s            => xs.erase s

/-- A call changes the list it is about, and no other. -/
def Sequences.step (m : Sequences α) (op : Op α) : Option (Sequences α) :=
  (op.place m).map fun h => { m with seq := Function.update m.seq h (op.effect (m.seq h)) }

/-! ### The memory -/

/-- What a call does to the memory. -/
def Op.exec (heap : Heap α) : Op α → Heap α
  | .insert h i       => sancusListInsert heap h i
  | .append h i       => sancusListAppend heap h i
  | .insertBefore i n => sancusListInsertBefore heap i n
  | .del s            => sancusListDel heap s

/-- The memory holds the lists: each on a ring of its own. -/
structure Represents (heap : Heap α) (m : Sequences α) : Prop where
  ring : ∀ h ∈ m.heads, Ring heap.next heap.prev h (m.seq h)
  disjoint : ∀ h ∈ m.heads, ∀ h' ∈ m.heads, h ≠ h' →
    List.Disjoint (h :: m.seq h) (h' :: m.seq h')

variable {heap : Heap α} {m m' : Sequences α} {op : Op α} {h i n s : α} {l r xs : List α}

/-! ### One call -/

/-- **Frame.**  A ring is kept where only the links of other nodes are written. -/
theorem ring_update {heap' : Heap α} {seq : List α} (hm : Represents heap m) (hh : h ∈ m.heads)
    (hr : Ring heap'.next heap'.prev h seq)
    (hseq : ∀ a ∈ seq, a ∈ m.seq h ∨ ¬ m.InUse a)
    (hnext : ∀ h' ∈ m.heads, h' ≠ h → ∀ a ∈ h' :: m.seq h', heap'.next a = heap.next a)
    (hprev : ∀ h' ∈ m.heads, h' ≠ h → ∀ a ∈ h' :: m.seq h', heap'.prev a = heap.prev a) :
    Represents heap' { m with seq := Function.update m.seq h seq } := by
  -- the list that changes shares no node with another one
  have hother : ∀ h' ∈ m.heads, h' ≠ h → List.Disjoint (h :: seq) (h' :: m.seq h') := by
    intro h' hh' hne a ha ha'
    have hd := hm.disjoint h hh h' hh' hne.symm
    rcases List.mem_cons.mp ha with rfl | ha
    · exact hd List.mem_cons_self ha'
    · rcases hseq a ha with hmem | hfree
      · exact hd (List.mem_cons_of_mem _ hmem) ha'
      · exact hfree ⟨h', hh', ha'⟩
  constructor
  · intro h' hh'
    by_cases hne : h' = h
    · subst hne
      simpa using hr
    · simpa [hne] using (hm.ring h' hh').frame (hnext h' hh' hne) (hprev h' hh' hne)
  · intro a ha b hb hab
    by_cases hah : a = h
    · subst hah
      simpa [hab.symm] using hother b hb hab.symm
    · by_cases hbh : b = h
      · subst hbh
        simpa [hab] using List.disjoint_symm (hother a ha hab)
      · simpa [hah, hbh] using hm.disjoint a ha b hb hab

omit [DecidableEq α] in
/-- A node of one list is none of another. -/
theorem Represents.ne_of_other {h' a p : α} (hm : Represents heap m) (hh : h ∈ m.heads)
    (hp : p ∈ h :: m.seq h) (hh' : h' ∈ m.heads) (hne : h' ≠ h) (ha : a ∈ h' :: m.seq h') :
    a ≠ p := by
  rintro rfl
  exact hm.disjoint h hh h' hh' hne.symm hp ha

/-- A free node goes between two neighbours. -/
theorem Represents.inject (hm : Represents heap m) (hh : h ∈ m.heads) (hseq : m.seq h = l ++ r)
    (hi : ¬ m.InUse i) : Represents (sancusListInject heap i (l.getLastD h) (r.headD h))
      { m with seq := Function.update m.seq h (l ++ i :: r) } := by
  have hring := hm.ring h hh
  rw [hseq] at hring
  have hfree : ∀ h' ∈ m.heads, ∀ a ∈ h' :: m.seq h', a ≠ i := by
    intro h' hh' a ha hai
    exact hi ⟨h', hh', hai ▸ ha⟩
  have hp : l.getLastD h ∈ h :: m.seq h := hseq ▸ getLastD_mem
  have hn : r.headD h ∈ h :: m.seq h := hseq ▸ headD_mem
  refine ring_update hm hh ?_ ?_ ?_ ?_
  · refine hring.insert ?_ ?_ ?_ ?_ ?_ ?_ ?_
    · exact fun hmem => hfree h hh i (hseq ▸ hmem) rfl
    · rw [next_sancusListInject, if_neg (hfree h hh _ hp).symm, if_pos rfl]
    · rw [prev_sancusListInject, if_neg (hfree h hh _ hn).symm, if_pos rfl]
    · rw [next_sancusListInject, if_pos rfl]
    · rw [prev_sancusListInject, if_pos rfl]
    · intro a hai hap
      rw [next_sancusListInject, if_neg hap, if_neg hai]
    · intro a hai han
      rw [prev_sancusListInject, if_neg han, if_neg hai]
  · intro a ha
    rcases List.mem_append.mp ha with ha | ha
    · exact .inl (by simp [hseq, ha])
    · rcases List.mem_cons.mp ha with rfl | ha
      · exact .inr hi
      · exact .inl (by simp [hseq, ha])
  · intro h' hh' hne a ha
    have hap : a ≠ l.getLastD h := hm.ne_of_other hh hp hh' hne ha
    rw [next_sancusListInject, if_neg hap, if_neg (hfree h' hh' a ha)]
  · intro h' hh' hne a ha
    have han : a ≠ r.headD h := hm.ne_of_other hh hn hh' hne ha
    rw [prev_sancusListInject, if_neg han, if_neg (hfree h' hh' a ha)]

/-- A node of a list goes out from between its neighbours. -/
theorem Represents.del (hm : Represents heap m) (hh : h ∈ m.heads) (hseq : m.seq h = l ++ s :: r) :
    Represents (sancusListDel heap s) { m with seq := Function.update m.seq h (l ++ r) } := by
  have hring := hm.ring h hh
  rw [hseq] at hring
  obtain ⟨hprev, hnext⟩ := hring.neighbours
  have hdel : sancusListDel heap s = sancusListDel' heap (l.getLastD h) (r.headD h) := by
    rw [← hprev, ← hnext]
    rfl
  have hp : l.getLastD h ∈ h :: m.seq h := hseq ▸ getLastD_mem
  have hn : r.headD h ∈ h :: m.seq h := by
    cases r <;> simp [hseq]
  rw [hdel]
  refine ring_update hm hh ?_ ?_ ?_ ?_
  · refine hring.remove ?_ ?_ ?_ ?_
    · rw [next_sancusListDel', if_pos rfl]
    · rw [prev_sancusListDel', if_pos rfl]
    · intro a hap
      rw [next_sancusListDel', if_neg hap]
    · intro a han
      rw [prev_sancusListDel', if_neg han]
  · intro a ha
    rcases List.mem_append.mp ha with ha | ha <;> exact .inl (by simp [hseq, ha])
  · intro h' hh' hne a ha
    have hap : a ≠ l.getLastD h := hm.ne_of_other hh hp hh' hne ha
    rw [next_sancusListDel', if_neg hap]
  · intro h' hh' hne a ha
    have han : a ≠ r.headD h := hm.ne_of_other hh hn hh' hne ha
    rw [prev_sancusListDel', if_neg han]

theorem headD_dropWhile (hn : n ∈ h :: xs) : (xs.dropWhile (· ≠ n)).headD h = n := by
  induction xs with
  | nil => simpa using (List.mem_singleton.mp hn).symm
  | cons x xs ih =>
    by_cases hx : x = n
    · simp [hx]
    · have hmem : n ∈ h :: xs := by
        simpa [Ne.symm hx] using hn
      simpa [hx] using ih hmem

/-- **Step lemma.**  A call does to the memory what it does to the lists. -/
theorem Represents.step (hm : Represents heap m) (hop : m.step op = some m') :
    Represents (op.exec heap) m' := by
  obtain ⟨h, hplace, rfl⟩ := Option.map_eq_some_iff.mp hop
  cases op with
  | insert h₀ i =>
    rw [Op.place, Option.ite_none_right_eq_some] at hplace
    obtain ⟨⟨hh, hi⟩, ⟨⟩⟩ := hplace
    have hnext : (heap h).next = (m.seq h).headD h := (hm.ring h hh).next_head
    rw [Op.exec, sancusListInsert, hnext]
    exact hm.inject (l := []) hh rfl hi
  | append h₀ i =>
    rw [Op.place, Option.ite_none_right_eq_some] at hplace
    obtain ⟨⟨hh, hi⟩, ⟨⟩⟩ := hplace
    have hprev : (heap h).prev = (m.seq h).getLastD h := (hm.ring h hh).prev_head
    rw [Op.exec, sancusListAppend, hprev]
    exact hm.inject (r := []) hh (List.append_nil _).symm hi
  | insertBefore i n =>
    rw [Op.place, Option.ite_none_left_eq_some] at hplace
    obtain ⟨hi, hfind⟩ := hplace
    have hh := List.mem_of_find?_eq_some hfind
    have hn : n ∈ h :: m.seq h := by simpa using List.find?_some hfind
    have hsplit : m.seq h = (m.seq h).takeWhile (· ≠ n) ++ (m.seq h).dropWhile (· ≠ n) := by
      rw [List.takeWhile_append_dropWhile]
    have hring := hm.ring h hh
    rw [hsplit] at hring
    -- the node named is the one behind the place, or the head when the place is the end
    have hprev := hring.seam.2
    rw [headD_dropWhile hn] at hprev
    have hins := hm.inject hh hsplit hi
    rw [headD_dropWhile hn, ← hprev] at hins
    exact hins
  | del s =>
    have hh := List.mem_of_find?_eq_some hplace
    have hs : s ∈ m.seq h := by simpa using List.find?_some hplace
    obtain ⟨l, r, hseq⟩ := List.append_of_mem hs
    have hnot : s ∉ l := by
      have hnd := (List.nodup_cons.mp (hm.ring h hh).nodup).2
      rw [hseq, List.nodup_middle, List.nodup_cons] at hnd
      exact fun hl => hnd.1 (List.mem_append_left r hl)
    have heffect : (Op.del s).effect (m.seq h) = l ++ r := by
      rw [Op.effect, hseq, List.erase_append_right _ hnot, List.erase_cons_head]
    rw [heffect]
    exact hm.del hh hseq

/-! ### Any run -/

theorem links_foldl_init (heads : List α) (heap : Heap α) (a : α) :
    (heads.foldl sancusListInit heap).next a = (if a ∈ heads then a else heap.next a) ∧
    (heads.foldl sancusListInit heap).prev a = (if a ∈ heads then a else heap.prev a) := by
  induction heads generalizing heap with
  | nil => simp
  | cons x heads ih =>
    rw [List.foldl_cons, (ih _).1, (ih _).2, next_sancusListInit, prev_sancusListInit]
    by_cases hx : a = x
    · simp [hx]
    · simp [hx]

theorem represents_init (heads : List α) (heap : Heap α) :
    Represents (heads.foldl sancusListInit heap) (Sequences.init heads) := by
  constructor
  · intro h hh
    obtain ⟨hn, hp⟩ := links_foldl_init heads heap h
    exact Ring.empty.mpr ⟨hn.trans (if_pos hh), hp.trans (if_pos hh)⟩
  · intro h _ h' _ hne
    simpa [Sequences.init] using hne.symm

/-- **Run lemma.**  So does a sequence of calls. -/
theorem Represents.run {ops : List (Op α)} (hm : Represents heap m)
    (hrun : Machine.run Sequences.step m ops = some m') :
    Represents (ops.foldl Op.exec heap) m' := by
  induction ops generalizing heap m with
  | nil =>
    obtain rfl := Option.some.inj hrun
    exact hm
  | cons op ops ih =>
    obtain ⟨m₁, hop, hrun⟩ := Option.bind_eq_some_iff.mp hrun
    exact ih (hm.step hop) hrun

theorem heads_run {ops : List (Op α)} (hrun : Machine.run Sequences.step m ops = some m') :
    m'.heads = m.heads := by
  refine Machine.run_keeps (I := fun t => t.heads = m.heads) rfl ?_ hrun
  intro t op u ht hop
  obtain ⟨h, _, rfl⟩ := Option.map_eq_some_iff.mp hop
  exact ht

/-- After any sequence of calls on lists with initialised heads, in any memory, each head is
    on a ring that holds its sequence: `next` leads through it and back to the head, `prev`
    through its reverse, and no node is on two lists. -/
theorem lists_integrity (heads : List α) (heap : Heap α) (ops : List (Op α)) (m : Sequences α)
    (hrun : Machine.run Sequences.step (Sequences.init heads) ops = some m) :
    let after := ops.foldl Op.exec (heads.foldl sancusListInit heap)
    (∀ h ∈ heads, Ring after.next after.prev h (m.seq h) ∧
      (∃ fuel, sancusListForeach fuel after h note id [] = some (m.seq h)) ∧
      (∃ fuel, sancusListForeachBack fuel after h note id [] = some (m.seq h).reverse)) ∧
    (∀ h ∈ heads, ∀ h' ∈ heads, h ≠ h' → List.Disjoint (h :: m.seq h) (h' :: m.seq h')) := by
  intro after
  have hafter : Represents after m := (represents_init heads heap).run hrun
  have hheads : m.heads = heads := heads_run hrun
  constructor
  · intro h hh
    have hring := hafter.ring h (hheads ▸ hh)
    refine ⟨hring, ?_, ?_⟩
    · simpa [walkList_note] using sancusListForeach_ring hring note id []
    · simpa [walkList_note] using sancusListForeachBack_ring hring note id []
  · intro h hh h' hh'
    exact hafter.disjoint h (hheads ▸ hh) h' (hheads ▸ hh')

/-- Two lists, one of them filled at both ends, before a node and before the head, and cut. -/
theorem lists_integrity_two :
    let ops : List (Op Nat) := [.insert 0 2, .append 0 3, .insertBefore 4 3, .insert 1 5,
      .del 2, .insertBefore 6 0]
    let after := ops.foldl Op.exec ([0, 1].foldl sancusListInit fun _ => ⟨0, 0⟩)
    ∃ m, Machine.run Sequences.step (Sequences.init [0, 1]) ops = some m ∧
      m.seq 0 = [4, 3, 6] ∧ m.seq 1 = [5] ∧ Ring after.next after.prev 0 (m.seq 0) ∧
      (∃ fuel, sancusListForeachBack fuel after 0 note id [] = some (m.seq 0).reverse) := by
  intro ops after
  refine ⟨_, rfl, by decide, by decide, ?_⟩
  have hall := (lists_integrity [0, 1] (fun _ => ⟨0, 0⟩) ops _ rfl).1 0 (by decide)
  exact ⟨hall.1, hall.2.2⟩

end Sancus.Lists
