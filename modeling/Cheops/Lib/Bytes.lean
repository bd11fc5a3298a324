import Mathlib

/-! # Byte memory

A block of memory seen from one address: `m i` is the byte at offset `i`.  Reading a range
gives a list, storing a list overwrites a range.  Numbers are read in network byte order,
from memory (`be16`, `be32`) and from lists (`beNat`).
-/

namespace Cheops.Lib

abbrev Mem := Nat → UInt8

/-- The `n` bytes at offset `off`. -/
def slice (m : Mem) (off n : Nat) : List UInt8 := (List.range n).map fun i => m (off + i)

/-- The memory after `bs` is stored at offset `off`. -/
def store (m : Mem) (off : Nat) (bs : List UInt8) : Mem :=
  fun i => if off ≤ i then bs[i - off]?.getD (m i) else m i

/-- `memcpy(m + dst, m + src, n)`.  If the two overlap, as they do in `handle_agent` when more bytes
    follow a message than it has, C leaves the result open; here it is that of `memmove`. -/
def copyWithin (m : Mem) (dst src n : Nat) : Mem := store m dst (slice m src n)

/-- The number whose big-endian digits are `bs`. -/
def beNat (bs : List UInt8) : Nat := bs.foldl (fun n b => n * 256 + b.toNat) 0

/-- `ntohs` of the 16-bit word at `off`. -/
def be16 (m : Mem) (off : Nat) : Nat := beNat (slice m off 2)

/-- `ntohl` of the 32-bit word at `off`. -/
def be32 (m : Mem) (off : Nat) : Nat := beNat (slice m off 4)

/-- The `n` bytes `htonl`, `htons` store for a number. -/
def toBe : Nat → Nat → List UInt8
  | 0, _ => []
  | n + 1, x => UInt8.ofNat (x / 256 ^ n) :: toBe n x

def text (s : String) : List UInt8 := s.toList.map fun c => UInt8.ofNat c.toNat

variable {m : Mem} {off n i k : Nat} {bs cs : List UInt8}

@[simp] theorem length_slice : (slice m off n).length = n := by simp [slice]

@[simp] theorem slice_zero : slice m off 0 = [] := rfl

theorem getElem_slice (h : i < (slice m off n).length) : (slice m off n)[i] = m (off + i) := by
  simp [slice]

theorem slice_append : slice m off (n + k) = slice m off n ++ slice m (off + n) k := by
  simp [slice, List.range_add, Function.comp_def, Nat.add_assoc]

theorem slice_eq_iff :
    slice m off bs.length = bs ↔ ∀ i (h : i < bs.length), m (off + i) = bs[i] := by
  constructor
  · intro h i hi
    have hi' : i < (slice m off bs.length).length := by simpa using hi
    rw [← getElem_slice hi']
    exact getElem_congr_coll h
  · intro h
    refine List.ext_getElem (by simp) fun i hi hi' => ?_
    rw [getElem_slice]
    exact h i hi'

theorem take_slice (h : k ≤ n) : (slice m off n).take k = slice m off k := by
  obtain ⟨r, rfl⟩ := Nat.exists_eq_add_of_le h
  rw [slice_append, List.take_left' length_slice]

theorem drop_slice (h : k ≤ n) : (slice m off n).drop k = slice m (off + k) (n - k) := by
  obtain ⟨r, rfl⟩ := Nat.exists_eq_add_of_le h
  rw [slice_append, List.drop_left' length_slice, Nat.add_sub_cancel_left]

/-- What was stored is read back. -/
@[simp] theorem slice_store : slice (store m off bs) off bs.length = bs := by
  rw [slice_eq_iff]
  intro i hi
  simp [store, hi]

/-- Bytes that a store does not reach keep their values. -/
theorem slice_store_of_disjoint (apart : k + n ≤ off ∨ off + bs.length ≤ k) :
    slice (store m off bs) k n = slice m k n := by
  refine List.map_congr_left fun i member => ?_
  have := List.mem_range.mp member
  unfold store
  split
  · rw [List.getElem?_eq_none (by omega)]
    rfl
  · rfl

/-- A store right behind `n` known bytes extends them. -/
theorem slice_store_append (bs : List UInt8) (h : slice m off n = cs) :
    slice (store m (off + n) bs) off (n + bs.length) = cs ++ bs := by
  rw [slice_append, slice_store, slice_store_of_disjoint (.inl (Nat.le_refl _)), h]

@[simp] theorem slice_copyWithin {dst src : Nat} :
    slice (copyWithin m dst src n) dst n = slice m src n := by
  have hstore : slice (copyWithin m dst src n) dst (slice m src n).length = slice m src n :=
    slice_store
  rwa [length_slice] at hstore

theorem beNat_lt : ∀ bs : List UInt8, beNat bs < 256 ^ bs.length := by
  intro bs
  induction bs using List.reverseRecOn with
  | nil => simp [beNat]
  | append_singleton bs b ih =>
    have hb := b.toNat_lt
    simp only [beNat, List.foldl_append, List.foldl_cons, List.foldl_nil, List.length_append,
      List.length_singleton, Nat.pow_succ] at ih ⊢
    omega

theorem be32_lt : be32 m off < 2 ^ 32 := by
  have := beNat_lt (slice m off 4)
  rwa [length_slice] at this

/-- A word is read from the bytes that are known. -/
theorem be32_eq (h : slice m off n = bs) (h4 : 4 ≤ n) : be32 m off = beNat (bs.take 4) := by
  rw [be32, ← h, take_slice h4]

@[simp] theorem length_toBe {x : Nat} : (toBe n x).length = n := by
  induction n with
  | zero => rfl
  | succ n ih => simp [toBe, ih]

end Cheops.Lib
