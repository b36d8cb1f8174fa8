import Sancus.Buffer.Refinement

namespace Sancus.Buffer

open CModel

/-!
# Buffers — where the operations store

Appends store up to the last byte of the storage and need no byte behind the contents;
`truncate` and `stripn` always store a NUL there.  On a buffer that is full to the last
byte that NUL falls outside, unless the call removes something first.

* `Grows` — what a call stores goes inside the storage;
* `Overruns` — a call of `truncate` or `stripn` that removes nothing from a full buffer;
* `run_grows` / `overruns_run` — the step lemmas, for the other calls and for these;
* `buffer_stores_inside_iff` — a run stores inside exactly when it makes no such call.
-/

variable {b : SancusBuffer}

/-- A call gave `r`, and what it has stored since is inside the storage. -/
def Grows (b : SancusBuffer) (r : Int × SancusBuffer) : Prop :=
  ∃ new : List Nat, r.2.buf.stored = new ++ b.buf.stored ∧ ∀ i ∈ new, i < b.size

/-- A call that stores nothing. -/
theorem grows_of_buf_eq {r : Int × SancusBuffer} (h : r.2.buf = b.buf) : Grows b r :=
  ⟨[], by rw [h]; rfl, by simp⟩

/-- A call that stores a run of bytes inside the storage. -/
theorem grows_of_store {r : Int × SancusBuffer} {off : Nat} {bs : List UInt8}
    (h : r.2.buf = b.buf.store off bs) (hin : off + bs.length ≤ b.size) : Grows b r := by
  refine ⟨List.range' off bs.length, by rw [h, Mem.stored_store], ?_⟩
  intro i hi
  rw [List.mem_range'_1] at hi
  omega

/-! ### The operations -/

theorem stripchar_grows (b : SancusBuffer) (many : Bool) (chars : Option CString) (l : Int) :
    Grows b (sancusBufferStripchar b many chars l) := by
  apply grows_of_buf_eq
  unfold sancusBufferStripchar
  cases chars with
  | none => dsimp only; split_ifs <;> rfl
  | some chars => dsimp only; split_ifs <;> rfl

/-- The NUL of a strip goes where the suffix was. -/
theorem strip_grows (h : b.Valid) (s : Option CString) (l : Int) :
    Grows b (sancusBufferStrip b s l) := by
  have hlen := h.len_le
  have hbase := h.base_eq
  cases s with
  | none =>
    apply grows_of_buf_eq
    unfold sancusBufferStrip
    dsimp only
    split_ifs <;> rfl
  | some s =>
    unfold sancusBufferStrip
    dsimp only
    generalize (if l < 0 then (s.strlen : Int) else l) = n
    by_cases hpos : 0 < n ∧ n.toNat ≤ b.len
    · rw [if_pos hpos]
      by_cases heq : b.buf.load (b.base + (b.len - n.toNat)) n.toNat = s.read n.toNat
      · rw [if_pos heq]
        exact grows_of_store rfl (by rw [List.length_singleton]; omega)
      · rw [if_neg heq]
        exact grows_of_buf_eq rfl
    · rw [if_neg hpos]
      exact grows_of_buf_eq rfl

/-- Whatever length it is given, an append stores at most what the tail has room for. -/
theorem appendBytes_grows (h : b.Valid) (trunc : Bool) (src : Nat → UInt8) (l : Int) :
    Grows b (appendBytes b trunc src l) := by
  have hlen := h.len_le
  have hbase := h.base_eq
  unfold appendBytes
  dsimp only
  rw [tailSize_eq h]
  have hclip : (if l ≤ ((b.size - b.len : Nat) : Int) then l
      else if trunc = true then ((b.size - b.len : Nat) : Int) else -ENOBUFS) ≤
        ((b.size - b.len : Nat) : Int) := by
    have hneg : -ENOBUFS ≤ 0 := by decide
    split_ifs <;> omega
  -- The value is generalized, since only that bound on it matters.
  generalize (if l ≤ ((b.size - b.len : Nat) : Int) then l
    else if trunc = true then ((b.size - b.len : Nat) : Int) else -ENOBUFS) = n at hclip
  by_cases hpos : 0 < n
  · rw [if_pos hpos]
    exact grows_of_store rfl (by rw [Mem.load_length]; omega)
  · rw [if_neg hpos]
    exact grows_of_buf_eq rfl

/-- `vsnprintf` stores at most what it is given room for. -/
theorem vsnprintf_stored (m : Mem) (dst : Nat) {l : Nat} (hl : 0 < l) (fmt : Formatted) :
    ∃ new : List Nat, (vsnprintf m dst l fmt).2.stored = new ++ m.stored ∧
      ∀ i ∈ new, i < dst + l := by
  cases fmt with
  | text bytes =>
    refine ⟨_, Mem.stored_store _ _ _, ?_⟩
    intro i hi
    rw [List.mem_range'_1, List.length_append, List.length_take, List.length_singleton] at hi
    omega
  | error code left =>
    refine ⟨_, Mem.stored_store _ _ _, ?_⟩
    intro i hi
    rw [List.mem_range'_1, List.length_take] at hi
    omega

theorem appendv_grows (h : b.Valid) (trunc : Bool) (fmt : Formatted) :
    Grows b (sancusBufferAppendv b trunc fmt) := by
  have hlen := h.len_le
  have hbase := h.base_eq
  unfold sancusBufferAppendv
  dsimp only
  rw [tailSize_eq h, Int.toNat_natCast]
  by_cases hroom : 0 < ((b.size - b.len : Nat) : Int)
  · rw [if_pos hroom]
    obtain ⟨new, hnew, hin⟩ := vsnprintf_stored b.buf (b.base + b.len)
      (show 0 < b.size - b.len by omega) fmt
    have hin' : ∀ i ∈ new, i < b.size := by
      intro i hi
      have hlt := hin i hi
      omega
    split_ifs
    · exact ⟨new, hnew, hin'⟩
    · -- A truncating append stores the NUL once more, at the last byte of the room.
      refine ⟨(b.base + b.len + (((b.size - b.len : Nat) : Int) - 1).toNat) :: new, ?_, ?_⟩
      · show _ :: (vsnprintf b.buf (b.base + b.len) (b.size - b.len) fmt).2.stored = _
        rw [hnew]
        rfl
      · intro i hi
        rcases List.mem_cons.mp hi with rfl | hi
        · omega
        · exact hin' i hi
    · exact ⟨new, hnew, hin'⟩
  · rw [if_neg hroom]
    exact grows_of_buf_eq rfl

/-! ### The calls that overrun -/

/-- A `truncate` or a `stripn` that removes nothing from a buffer full to the last byte. -/
def Overruns (b : SancusBuffer) (op : Op) : Prop :=
  b.base + b.len = b.size ∧ ((∃ n, op = .truncate n ∧ b.len ≤ n) ∨ op = .stripn 0)

/-- The NUL of a `terminate` goes behind the contents. -/
theorem terminate_grows (h : b.Valid) {k : Nat} (hk : k < b.size) :
    Grows b (terminate { b with len := k }) := by
  have hbase := h.base_eq
  have hin : b.base + k + ([0] : List UInt8).length ≤ b.size := by
    rw [List.length_singleton]
    omega
  exact grows_of_store rfl hin

/-- **Step lemma.**  A call that does not overrun stores inside the storage. -/
theorem run_grows (h : b.Valid) (op : Op) (hop : ¬ Overruns b op) : Grows b (op.run b) := by
  have hlen := h.len_le
  have hbase := h.base_eq
  have hpos := h.size_pos
  cases op with
  | append trunc s l =>
    cases s with
    | some s => exact appendBytes_grows h trunc s.byte _
    | none =>
      show Grows b (if 0 < l then (-EINVAL, b) else appendBytes b trunc (fun _ => 0) l)
      split
      · exact grows_of_buf_eq rfl
      · exact appendBytes_grows h trunc _ l
  | appendz trunc s =>
    cases s with
    | some s => exact appendBytes_grows h trunc s.byte _
    | none => exact grows_of_buf_eq rfl
  | appendf trunc fmt => exact appendv_grows h trunc fmt
  | appendv trunc fmt => exact appendv_grows h trunc fmt
  | sparse n =>
    apply grows_of_buf_eq
    show (sancusBufferSparse b n).2.buf = b.buf
    unfold sancusBufferSparse
    split <;> rfl
  | strip s l => exact strip_grows h s l
  | stripz s =>
    cases s with
    | some s => exact strip_grows h (some s) s.strlen
    | none => exact grows_of_buf_eq rfl
  | striponce chars => exact stripchar_grows b false chars (-1)
  | stripany chars => exact stripchar_grows b true chars (-1)
  | stripn n =>
    show Grows b (sancusBufferStripn b n)
    rw [stripn_eq h]
    apply terminate_grows h
    by_contra hfull
    obtain rfl : n = 0 := by omega
    exact hop ⟨by omega, .inr rfl⟩
  | truncate n =>
    show Grows b (sancusBufferTruncate b n)
    rw [truncate_eq h]
    apply terminate_grows h
    by_contra hfull
    exact hop ⟨by omega, .inl ⟨n, rfl, by omega⟩⟩

/-- **Step lemma.**  A call that overruns stores a byte right behind the storage. -/
theorem overruns_run (h : b.Valid) {op : Op} (hop : Overruns b op) :
    (op.run b).2.buf.stored = b.size :: b.buf.stored := by
  obtain ⟨hfull, ⟨n, rfl, hn⟩ | rfl⟩ := hop
  · show (sancusBufferTruncate b n).2.buf.stored = _
    rw [truncate_eq h, Nat.min_eq_right hn, ← hfull]
    rfl
  · show (sancusBufferStripn b 0).2.buf.stored = _
    rw [stripn_eq h, Nat.sub_zero, ← hfull]
    rfl

/-- No call takes a store back. -/
theorem stored_mono (h : b.Valid) (op : Op) {i : Nat} (hi : i ∈ b.buf.stored) :
    i ∈ (op.run b).2.buf.stored := by
  by_cases hop : Overruns b op
  · rw [overruns_run h hop]
    exact List.mem_cons_of_mem _ hi
  · obtain ⟨new, hnew, _⟩ := run_grows h op hop
    rw [hnew]
    exact List.mem_append_right _ hi

/-! ### Runs -/

theorem run_size (h : b.Valid) (op : Op) : (op.run b).2.size = b.size := by
  by_cases hop : NullNegative op
  · obtain ⟨l, _, hrun, _⟩ := nullNegative_run h hop
    rw [hrun]
  · exact (run_refines h op hop).2.2

/-- No call changes the size. -/
theorem size_of_run {buf : Mem} {size : UInt32} {b₀ : SancusBuffer} {ops : List Op}
    (h₀ : sancusBufferInit buf size = some b₀) (h : Machine.run step b₀ ops = some b) :
    b.size = size.toNat := by
  obtain ⟨hvalid, _, hsize, _⟩ := valid_init h₀
  have hstep : ∀ t op u, t.Valid ∧ t.size = size.toNat → step t op = some u →
      u.Valid ∧ u.size = size.toNat := by
    rintro t op u ⟨htvalid, htsize⟩ hu
    obtain rfl := Option.some.inj hu
    exact ⟨run_valid htvalid op, by rw [run_size htvalid, htsize]⟩
  exact (Machine.run_keeps (I := fun b => b.Valid ∧ b.size = size.toNat) ⟨hvalid, hsize⟩ hstep h).2

/-- What has been stored stays recorded. -/
theorem stored_of_run {b' : SancusBuffer} {ops : List Op} (hb : b.Valid)
    (h : Machine.run step b ops = some b') {i : Nat} (hi : i ∈ b.buf.stored) :
    i ∈ b'.buf.stored := by
  have hstep : ∀ t op u, t.Valid ∧ i ∈ t.buf.stored → step t op = some u →
      u.Valid ∧ i ∈ u.buf.stored := by
    rintro t op u ⟨htvalid, hti⟩ hu
    obtain rfl := Option.some.inj hu
    exact ⟨run_valid htvalid op, stored_mono htvalid op hti⟩
  exact (Machine.run_keeps (I := fun b => b.Valid ∧ i ∈ b.buf.stored) ⟨hb, hi⟩ hstep h).2

/-- What holds in every state of a run without overruns. -/
structure StoresInside (size : Nat) (b : SancusBuffer) : Prop where
  valid : b.Valid
  size_eq : b.size = size
  inside : ∀ i ∈ b.buf.stored, i < size

theorem StoresInside.step {size : Nat} (h : StoresInside size b) {op : Op}
    (hop : ¬ Overruns b op) : StoresInside size (op.run b).2 where
  valid := run_valid h.valid op
  size_eq := by rw [run_size h.valid, h.size_eq]
  inside i hi := by
    obtain ⟨new, hnew, hin⟩ := run_grows h.valid op hop
    rw [hnew] at hi
    rcases List.mem_append.mp hi with hi | hi
    · rw [← h.size_eq]
      exact hin i hi
    · exact h.inside i hi

/-- **When every store is inside.**  For every buffer of a size that is not zero and every run
    of calls: every byte stored, each NUL included, is at an index below the size if and
    only if no call of the run overruns. -/
theorem buffer_stores_inside_iff (byte : Nat → UInt8) (size : UInt32) (b₀ b : SancusBuffer)
    (ops : List Op) (h₀ : sancusBufferInit (Mem.fresh byte) size = some b₀)
    (h : Machine.run step b₀ ops = some b) :
    (∀ i ∈ b.buf.stored, i < size.toNat) ↔
      Machine.Along step (fun b op => ¬ Overruns b op) b₀ ops := by
  obtain ⟨hvalid, _, hsize, hbuf⟩ := valid_init h₀
  constructor
  · intro hin pre op post t heq ht hover
    -- The byte stored by the call that overruns is still recorded at the end.
    obtain ⟨u, hu, hrest⟩ := Machine.exists_run_of_append (heq ▸ h)
    obtain rfl := Option.some.inj (ht.symm.trans hu)
    have htvalid := valid_of_run h₀ ht
    have htsize := size_of_run h₀ ht
    have hpost : Machine.run step (op.run t).2 post = some b := hrest
    have hmem : t.size ∈ (op.run t).2.buf.stored := by
      rw [overruns_run htvalid hover]
      exact List.mem_cons_self
    have hlt := hin _ (stored_of_run (run_valid htvalid op) hpost hmem)
    omega
  · intro hno
    have hstart : StoresInside size.toNat b₀ := ⟨hvalid, hsize, by rw [hbuf]; simp⟩
    have hstep : ∀ t op u, StoresInside size.toNat t → ¬ Overruns t op → step t op = some u →
        StoresInside size.toNat u := by
      intro t op u ht hop hu
      obtain rfl := Option.some.inj hu
      exact ht.step hop
    have hthrough := Machine.throughout_of_along (P := fun b op => ¬ Overruns b op) hstart hstep hno
    exact (hthrough ops [] b (List.append_nil _).symm h).inside

/-- The rule for a buffer of 4 bytes that is half filled and then cut. -/
theorem buffer_stores_inside_iff_half :
    ∃ b₀ b, sancusBufferInit (Mem.fresh fun _ => 0) 4 = some b₀ ∧
      Machine.run step b₀ [.sparse 2, .truncate 2] = some b ∧
        ((∀ i ∈ b.buf.stored, i < (4 : UInt32).toNat) ↔
          Machine.Along step (fun b op => ¬ Overruns b op) b₀ [.sparse 2, .truncate 2]) :=
  ⟨_, _, rfl, rfl, buffer_stores_inside_iff (fun _ => 0) 4 _ _ _ rfl rfl⟩

/-- **A NUL behind the storage.**  A buffer of 4 bytes filled to the last and then truncated
    to 4 stores a NUL at index 4. -/
theorem truncate_full_overruns :
    ∃ b₀ b, sancusBufferInit (Mem.fresh fun _ => 0) 4 = some b₀ ∧
      Machine.run step b₀ [.sparse 4, .truncate 4] = some b ∧
        ¬ ∀ i ∈ b.buf.stored, i < (4 : UInt32).toNat :=
  ⟨_, _, rfl, rfl, fun hin => absurd (hin 4 (by decide)) (by decide)⟩

end Sancus.Buffer
