import Cheops.Lib.Wire

/-! # Byte orders

How a host of either order keeps a number in memory, and what `htonl`, `htons` and their inverses
are there.  A number that one host keeps and another reads without conversion has its bytes
reversed when the orders differ (`num_bytes_eq`).
-/

namespace Cheops.Lib

inductive ByteOrder where
  | little
  | big
deriving DecidableEq, Repr

namespace ByteOrder

variable (o o' : ByteOrder) (n : Nat)

def bytes (x : Nat) : List UInt8 :=
  match o with
  | .little => (toBe n x).reverse
  | .big => toBe n x

def num (bs : List UInt8) : Nat :=
  match o with
  | .little => beNat bs.reverse
  | .big => beNat bs

/-- `htonl` (`n = 4`) and `htons` (`n = 2`): the number kept in network order. -/
def hton (x : Nat) : Nat := o.num (toBe n x)

/-- `ntohl` and `ntohs`. -/
def ntoh (x : Nat) : Nat := beNat (o.bytes n x)

def get (m : Mem) (off : Nat) : Nat := o.num (slice m off n)

def put (m : Mem) (off x : Nat) : Mem := store m off (o.bytes n x)

def swapBytes (x : Nat) : Nat := beNat (toBe n x).reverse

variable {o o' n} {x off k : Nat} {m : Mem} {bs : List UInt8}

@[simp] theorem length_bytes : (o.bytes n x).length = n := by
  cases o <;> simp [bytes]

theorem num_lt (bs : List UInt8) : o.num bs < 256 ^ bs.length := by
  cases o with
  | little =>
    have bound := beNat_lt bs.reverse
    rwa [List.length_reverse] at bound
  | big => exact beNat_lt bs

/-- What a host keeps it reads back. -/
theorem num_bytes : o.num (o.bytes n x) = x % 256 ^ n := by
  cases o <;> simp [num, bytes, beNat_toBe]

theorem bytes_num (bs : List UInt8) : o.bytes bs.length (o.num bs) = bs := by
  cases o with
  | little =>
    have read := toBe_beNat bs.reverse
    rw [List.length_reverse] at read
    simp only [bytes, num, read, List.reverse_reverse]
  | big => exact toBe_beNat bs

/-- What another host reads. -/
theorem num_bytes_eq : o'.num (o.bytes n x) = if o = o' then x % 256 ^ n else swapBytes n x := by
  cases o <;> cases o' <;> simp [num, bytes, beNat_toBe, swapBytes]

/-- After `htonl` the bytes are in network order. -/
theorem bytes_hton : o.bytes n (o.hton n x) = toBe n x := by
  have read := bytes_num (o := o) (toBe n x)
  rwa [length_toBe] at read

theorem ntoh_num (size : bs.length = n) : o.ntoh n (o.num bs) = beNat bs := by
  rw [ntoh, ← size, bytes_num]

theorem ntoh_get : o.ntoh n (o.get n m off) = beNat (slice m off n) := ntoh_num length_slice

theorem ntoh_hton : o.ntoh n (o.hton n x) = x % 256 ^ n := by
  rw [ntoh, bytes_hton, beNat_toBe]

theorem ntoh_eq_hton : o.ntoh n x = o.hton n x := by
  cases o <;> simp [ntoh, hton, num, bytes]

theorem hton_hton : o.hton n (o.hton n x) = x % 256 ^ n := by
  rw [← ntoh_eq_hton, ntoh_hton]

theorem ntoh_ntoh : o.ntoh n (o.ntoh n x) = x % 256 ^ n := by
  rw [ntoh_eq_hton, ntoh_eq_hton, hton_hton]

theorem swapBytes_lt : swapBytes n x < 256 ^ n := by
  have bound := beNat_lt (toBe n x).reverse
  rwa [List.length_reverse, length_toBe] at bound

/-! ## Words in memory -/

theorem get_put : o'.get n (o.put n m off x) off = o'.num (o.bytes n x) := by
  have stored : slice (o.put n m off x) off (o.bytes n x).length = o.bytes n x := slice_store
  rw [length_bytes] at stored
  rw [get, stored]

theorem get_store_of_disjoint {off' n' : Nat}
    (apart : off' + n' ≤ off ∨ off + bs.length ≤ off') :
    o.get n' (store m off bs) off' = o.get n' m off' := by
  rw [get, slice_store_of_disjoint apart, get]

theorem get_put_of_disjoint {off' n' : Nat} (apart : off' + n' ≤ off ∨ off + n ≤ off') :
    o'.get n' (o.put n m off x) off' = o'.get n' m off' :=
  get_store_of_disjoint (by rwa [length_bytes])

/-- A word inside of a piece of memory that is copied. -/
theorem get_store_slice {size : Nat} {rest : Mem} (inside : off + n ≤ size) :
    o.get n (store rest 0 (slice m 0 size)) off = o.get n m off := by
  have same : slice (store rest 0 (slice m 0 size)) off n = slice m off n := by
    refine List.map_congr_left fun i member => ?_
    have := List.mem_range.mp member
    have bound : off + i < (slice m 0 size).length := by rw [length_slice]; omega
    rw [store, if_pos (Nat.zero_le _), Nat.sub_zero, List.getElem?_eq_getElem bound, getElem_slice,
      Option.getD_some, Nat.zero_add]
  rw [get, same, get]

end ByteOrder

end Cheops.Lib
