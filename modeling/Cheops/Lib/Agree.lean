import Cheops.Lib.ByteOrder

/-! # Memories that agree

Two memories that have the same bytes in front of an offset.  What is read from there is the same
(`Agree.slice` and the rules for numbers); a byte behind it may be anything (`agree_update`).
-/

namespace Cheops.Lib

def Agree (len : Int) (m m' : Mem) : Prop := ∀ i : Nat, (i : Int) < len → m i = m' i

variable {len : Int} {m m' : Mem} {off n i : Nat} {b : UInt8} {o : ByteOrder}

theorem Agree.refl (m : Mem) : Agree len m m := fun _ _ => rfl

theorem Agree.symm (h : Agree len m m') : Agree len m' m := fun i hi => (h i hi).symm

theorem Agree.slice (h : Agree len m m') (bound : (off + n : Int) ≤ len) :
    slice m off n = slice m' off n := by
  refine List.map_congr_left fun i member => ?_
  have := List.mem_range.mp member
  exact h _ (by omega)

theorem Agree.be16 (h : Agree len m m') (bound : (off + 2 : Int) ≤ len) :
    be16 m off = be16 m' off := congrArg beNat (h.slice bound)

theorem Agree.be32 (h : Agree len m m') (bound : (off + 4 : Int) ≤ len) :
    be32 m off = be32 m' off := congrArg beNat (h.slice bound)

theorem Agree.get (h : Agree len m m') (bound : (off + n : Int) ≤ len) :
    o.get n m off = o.get n m' off := congrArg o.num (h.slice bound)

theorem agree_update (bound : len ≤ i) : Agree len m (Function.update m i b) := by
  intro k before
  have apart : k ≠ i := by omega
  rw [Function.update_of_ne apart]

/-- A word changes with its last byte. -/
theorem slice_update_last (change : b ≠ m (off + n)) :
    slice (Function.update m (off + n) b) off (n + 1) ≠ slice m off (n + 1) := by
  intro same
  have bytes := List.map_inj_left.mp same n (by simp)
  rw [Function.update_self] at bytes
  exact change bytes

/-- The bytes of a number are determined by it. -/
theorem ByteOrder.num_inj {bs cs : List UInt8} (size : bs.length = cs.length)
    (same : o.num bs = o.num cs) : bs = cs := by
  rw [← ByteOrder.bytes_num (o := o) bs, same, size, ByteOrder.bytes_num]

theorem get_update_last (change : b ≠ m (off + n)) :
    o.get (n + 1) (Function.update m (off + n) b) off ≠ o.get (n + 1) m off := by
  intro same
  exact slice_update_last change (ByteOrder.num_inj (by simp) same)

theorem be32_update_last (change : b ≠ m (off + 3)) :
    be32 (Function.update m (off + 3) b) off ≠ be32 m off :=
  get_update_last (o := .big) change

end Cheops.Lib
