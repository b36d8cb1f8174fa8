import Sancus.CModel.Bytes
import Mathlib.Data.List.Range

namespace CModel

/-!
# C memory models — a byte memory that remembers its stores

`Mem` is the memory a pointer can reach, indexed by the byte offset from that
pointer, together with the offsets that have been stored to.  The record of stores
is what a bounds property speaks of: a store outside an object is a fault even when
it happens to write the byte that was there.

* `Mem.load` / `Mem.store` — read and write a run of bytes;
* `Mem.load_store_self` — a run just stored reads back;
* `Mem.load_store_of_disjoint` — a store leaves every disjoint run alone;
* `Mem.memcpy` / `Mem.memmove` / `Mem.memset` — the library functions, as stores;
* `Mem.Wrote` — a run of bytes has been stored, and nothing else, in whatever pieces.
-/

/-- The bytes reachable from a pointer, with the offsets stored to so far. -/
structure Mem where
  byte : Nat → UInt8
  stored : List Nat

namespace Mem

/-- A memory nothing has been stored to yet. -/
def fresh (byte : Nat → UInt8) : Mem := ⟨byte, []⟩

/-- A memory that starts with the bytes `bs`. -/
def ofBytes (bs : List UInt8) : Mem := fresh fun i => bs.getD i 0

/-- The `n` bytes at offset `off`. -/
def load (m : Mem) (off n : Nat) : List UInt8 := (List.range' off n).map m.byte

/-- Store the bytes `bs` at offset `off`. -/
def store (m : Mem) (off : Nat) (bs : List UInt8) : Mem where
  byte i := if h : off ≤ i ∧ i - off < bs.length then bs[i - off] else m.byte i
  stored := List.range' off bs.length ++ m.stored

/-- The little-endian number in the `w` bytes at offset `off`. -/
def loadLe (m : Mem) (off w : Nat) : Nat := leNat (m.load off w)

/-- Store `n` as a little-endian number of `w` bytes at offset `off`. -/
def storeLe (m : Mem) (off w n : Nat) : Mem := m.store off (leBytes w n)

/-- `memcpy(dst, src, n)`, with `src` the bytes from the source pointer on. -/
def memcpy (m : Mem) (dst : Nat) (src : Nat → UInt8) (n : Nat) : Mem :=
  m.store dst ((fresh src).load 0 n)

/-- `memmove(dst, src, n)` within one memory; the bytes are those before the move. -/
def memmove (m : Mem) (dst src n : Nat) : Mem := m.store dst (m.load src n)

/-- `memset(dst, c, n)`. -/
def memset (m : Mem) (dst : Nat) (c : UInt8) (n : Nat) : Mem := m.store dst (List.replicate n c)

variable (m : Mem)

@[simp] theorem fresh_stored (byte : Nat → UInt8) : (fresh byte).stored = [] := rfl

@[simp] theorem load_length (off n : Nat) : (m.load off n).length = n := by simp [load]

theorem load_add (off a b : Nat) : m.load off (a + b) = m.load off a ++ m.load (off + a) b := by
  rw [load, load, load, ← List.map_append, List.range'_append_1]

/-- A run inside a longer one is the part of its bytes at the same place. -/
theorem load_drop_take (off : Nat) {n i k : Nat} (h : i + k ≤ n) :
    ((m.load off n).drop i).take k = m.load (off + i) k := by
  -- The run is what lies before the part, the part, and what lies behind it.
  have hn : n = i + (k + (n - i - k)) := by omega
  rw [hn, load_add, load_add, List.drop_left' (load_length m off i),
    List.take_left' (load_length m (off + i) k)]

/-- The first bytes of a run. -/
theorem load_take {off n k : Nat} (h : k ≤ n) : (m.load off n).take k = m.load off k :=
  m.load_drop_take off (i := 0) (by omega)

/-- Where two memories hold the same run, they hold the same parts of it. -/
theorem load_part_eq {m m' : Mem} {off off' n i k : Nat} (h : m'.load off' n = m.load off n)
    (hik : i + k ≤ n) : m'.load (off' + i) k = m.load (off + i) k := by
  rw [← m'.load_drop_take off' hik, h, m.load_drop_take off hik]

theorem load_congr {m m' : Mem} {off n : Nat}
    (h : ∀ i, off ≤ i → i < off + n → m.byte i = m'.byte i) : m.load off n = m'.load off n := by
  apply List.map_congr_left
  intro i hi
  rw [List.mem_range'_1] at hi
  exact h i hi.1 hi.2

@[simp] theorem load_ofBytes (bs : List UInt8) : (ofBytes bs).load 0 bs.length = bs := by
  apply List.ext_getElem
  · simp
  · intro i hi hi'
    simp [load, ofBytes, fresh, hi']

/-! ### What a store changes -/

@[simp] theorem stored_store (off : Nat) (bs : List UInt8) :
    (m.store off bs).stored = List.range' off bs.length ++ m.stored := rfl

theorem byte_store_of_mem {off i : Nat} {bs : List UInt8} (h₁ : off ≤ i)
    (h₂ : i - off < bs.length) : (m.store off bs).byte i = bs[i - off] := by
  rw [store]; exact dif_pos ⟨h₁, h₂⟩

theorem byte_store_of_not_mem {off i : Nat} {bs : List UInt8}
    (h : i < off ∨ off + bs.length ≤ i) : (m.store off bs).byte i = m.byte i := by
  rw [store]; exact dif_neg (by omega)

/-- A run just stored reads back. -/
@[simp] theorem load_store_self (off : Nat) (bs : List UInt8) :
    (m.store off bs).load off bs.length = bs := by
  apply List.ext_getElem
  · simp
  · intro i hi hi'
    have hsub : off + i - off < bs.length := by omega
    have hbyte : (m.store off bs).byte (off + i) = bs[off + i - off] :=
      m.byte_store_of_mem (by omega) hsub
    simp only [load, List.getElem_map, List.getElem_range', Nat.one_mul]
    rw [hbyte]
    congr 1
    omega

/-- A store leaves every disjoint run alone. -/
theorem load_store_of_disjoint {off n off' : Nat} {bs : List UInt8}
    (h : off + n ≤ off' ∨ off' + bs.length ≤ off) :
    (m.store off' bs).load off n = m.load off n := by
  apply load_congr
  intro i h₁ h₂
  exact m.byte_store_of_not_mem (by omega)

/-- A number just stored reads back modulo its width. -/
theorem loadLe_storeLe (off w n : Nat) : (m.storeLe off w n).loadLe off w = n % 256 ^ w := by
  have hload := m.load_store_self off (leBytes w n)
  rw [leBytes_length] at hload
  rw [loadLe, storeLe, hload, leNat_leBytes]

theorem loadLe_store_of_disjoint {off w off' : Nat} {bs : List UInt8}
    (h : off + w ≤ off' ∨ off' + bs.length ≤ off) :
    (m.store off' bs).loadLe off w = m.loadLe off w := by
  rw [loadLe, load_store_of_disjoint m h, loadLe]

/-! ### The same for numbers and copies -/

theorem load_storeLe_of_disjoint {off n off' w v : Nat} (h : off + n ≤ off' ∨ off' + w ≤ off) :
    (m.storeLe off' w v).load off n = m.load off n :=
  m.load_store_of_disjoint (by rwa [leBytes_length])

theorem loadLe_storeLe_of_disjoint {off w off' w' v : Nat}
    (h : off + w ≤ off' ∨ off' + w' ≤ off) : (m.storeLe off' w' v).loadLe off w = m.loadLe off w :=
  m.loadLe_store_of_disjoint (by rwa [leBytes_length])

theorem load_memcpy_of_disjoint {off n dst k : Nat} {src : Nat → UInt8}
    (h : off + n ≤ dst ∨ dst + k ≤ off) : (m.memcpy dst src k).load off n = m.load off n :=
  m.load_store_of_disjoint (by rwa [load_length])

theorem loadLe_memcpy_of_disjoint {off w dst k : Nat} {src : Nat → UInt8}
    (h : off + w ≤ dst ∨ dst + k ≤ off) : (m.memcpy dst src k).loadLe off w = m.loadLe off w :=
  m.loadLe_store_of_disjoint (by rwa [load_length])

/-- What was copied is there. -/
theorem load_memcpy_self (dst : Nat) (src : Nat → UInt8) (n : Nat) :
    (m.memcpy dst src n).load dst n = (fresh src).load 0 n := by
  have h := m.load_store_self dst ((fresh src).load 0 n)
  rwa [load_length] at h

/-- What was moved is there. -/
theorem load_memmove_self (dst src n : Nat) :
    (m.memmove dst src n).load dst n = m.load src n := by
  have h := m.load_store_self dst (m.load src n)
  rwa [load_length] at h

@[simp] theorem stored_storeLe (off w v : Nat) :
    (m.storeLe off w v).stored = List.range' off w ++ m.stored := by
  rw [storeLe, stored_store, leBytes_length]

@[simp] theorem stored_memcpy (dst : Nat) (src : Nat → UInt8) (n : Nat) :
    (m.memcpy dst src n).stored = List.range' dst n ++ m.stored := by
  rw [memcpy, stored_store, load_length]

/-- A number is its low part and its high part. -/
theorem loadLe_add (off a b : Nat) :
    m.loadLe off (a + b) = m.loadLe off a + 256 ^ a * m.loadLe (off + a) b := by
  rw [loadLe, load_add, leNat_append, load_length]
  rfl

theorem loadLe_lt (off w : Nat) : m.loadLe off w < 256 ^ w := by
  have h := leNat_lt (m.load off w)
  rwa [load_length] at h

/-! ### Runs written piece by piece -/

/-- From `m` to `m'` the bytes `bs` have been stored at offset `off`, in one store or in several,
    and nothing else. -/
structure Wrote (m m' : Mem) (off : Nat) (bs : List UInt8) : Prop where
  load_eq : m'.load off bs.length = bs
  byte_eq : ∀ i, i < off ∨ off + bs.length ≤ i → m'.byte i = m.byte i
  stored_sub : ∀ i ∈ m'.stored, i ∈ m.stored ∨ (off ≤ i ∧ i < off + bs.length)

theorem wrote_nil (off : Nat) : Wrote m m off [] := ⟨rfl, fun _ _ => rfl, fun _ => .inl⟩

theorem wrote_store (off : Nat) (bs : List UInt8) : Wrote m (m.store off bs) off bs where
  load_eq := m.load_store_self off bs
  byte_eq _ h := m.byte_store_of_not_mem h
  stored_sub i hi := by
    rw [stored_store, List.mem_append, List.mem_range'_1] at hi
    exact hi.symm

/-- A run, and another one behind it. -/
theorem Wrote.append {m m' m'' : Mem} {off : Nat} {as bs : List UInt8} (h₁ : Wrote m m' off as)
    (h₂ : Wrote m' m'' (off + as.length) bs) : Wrote m m'' off (as ++ bs) where
  load_eq := by
    have hfirst : m''.load off as.length = m'.load off as.length :=
      load_congr fun i _ hi => h₂.byte_eq i (.inl hi)
    rw [List.length_append, load_add, h₂.load_eq, hfirst, h₁.load_eq]
  byte_eq i hi := by
    rw [List.length_append] at hi
    rw [h₂.byte_eq i (by omega), h₁.byte_eq i (by omega)]
  stored_sub i hi := by
    rw [List.length_append]
    rcases h₂.stored_sub i hi with hi | hi
    · rcases h₁.stored_sub i hi with hi | hi
      · exact .inl hi
      · exact .inr (by omega)
    · exact .inr (by omega)

end Mem

end CModel
