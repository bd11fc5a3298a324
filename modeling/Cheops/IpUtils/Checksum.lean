import Cheops.Lib.OnesComplement

/-! # The packets of `sendicmp` (`ip_utils.c`)

`sendicmp` fills in an IP header and an ICMP message behind it, each with a checksum.  The one of
the header is computed over both.  It is right nevertheless, since the message has been made to
add up to all ones by then (`sendicmp_checksums`).
-/

namespace Cheops.IpUtils

open Cheops.Lib

def ICMP_MINLEN : Nat := 8
def ICMP_ECHO : Nat := 8
def IPPROTO_ICMP : Nat := 1
def sizeofIp : Nat := 20

/-- `struct ip`.  Fields of two bytes and the addresses hold what the host reads there. -/
structure Ip where
  ipHl : Nat
  ipV : Nat
  ipTos : Nat
  ipLen : Nat
  ipId : Nat
  ipOff : Nat
  ipTtl : Nat
  ipP : Nat
  ipSum : Nat
  ipSrc : Nat
  ipDst : Nat
deriving DecidableEq, Repr

/-- `struct icmp`, the part that an echo request uses. -/
structure Icmp where
  icmpType : Nat
  icmpCode : Nat
  icmpCksum : Nat
  icmpId : Nat
  icmpSeq : Nat
deriving DecidableEq, Repr

/-- The bytes of the structures, on a host of order `o`. -/
def Ip.bytes (o : ByteOrder) (ip : Ip) : List UInt8 :=
  [UInt8.ofNat (ip.ipV * 16 + ip.ipHl), UInt8.ofNat ip.ipTos] ++ o.bytes 2 ip.ipLen ++
    o.bytes 2 ip.ipId ++ o.bytes 2 ip.ipOff ++ [UInt8.ofNat ip.ipTtl, UInt8.ofNat ip.ipP] ++
    o.bytes 2 ip.ipSum ++ o.bytes 4 ip.ipSrc ++ o.bytes 4 ip.ipDst

def Icmp.bytes (o : ByteOrder) (icmp : Icmp) : List UInt8 :=
  [UInt8.ofNat icmp.icmpType, UInt8.ofNat icmp.icmpCode] ++ o.bytes 2 icmp.icmpCksum ++
    o.bytes 2 icmp.icmpId ++ o.bytes 2 icmp.icmpSeq

/-! ## `inet_checksum` and `sendicmp` -/

/-- `inet_checksum` of some bytes, which must be few enough for its `sum` to be an `int`. -/
def inetChecksum (o : ByteOrder) (bs : List UInt8) : Nat :=
  let sum := (words o bs).sum
  let sum := sum / 2 ^ 16 + sum % 2 ^ 16
  let sum := sum + sum / 2 ^ 16
  2 ^ 16 - 1 - sum % 2 ^ 16

/-- `sendicmp`, not on FreeBSD: the header and the message that are sent.  `src` is what
    `getlocalip` gives for `dst`, and `pid` the process id. -/
def sendicmp (o : ByteOrder) (src pid ttl dst : Nat) : Ip × Icmp :=
  let ip : Ip :=
    { ipHl := 5, ipV := 4, ipTos := 0, ipLen := 0, ipId := o.hton 2 pid, ipOff := 0, ipTtl := ttl
      ipP := IPPROTO_ICMP, ipSum := 0, ipSrc := src, ipDst := dst }
  let icmp : Icmp :=
    { icmpType := ICMP_ECHO, icmpCode := 0, icmpCksum := 0, icmpId := o.hton 2 pid
      icmpSeq := o.hton 2 ttl }
  let icmp := { icmp with icmpCksum := inetChecksum o (icmp.bytes o) }
  let ip := { ip with ipLen := o.hton 2 (ICMP_MINLEN + sizeofIp) }
  let ip := { ip with ipSum := inetChecksum o (ip.bytes o ++ icmp.bytes o) }
  (if ip.ipSum = 0 then { ip with ipSum := 0xffff } else ip, icmp)

/-! ## Sums -/

variable {o : ByteOrder}

/-- The checksum is what the sum lacks to all ones. -/
theorem inetChecksum_folds {bs : List UInt8} (short : (words o bs).sum < 2 ^ 31) :
    ∃ r, Folds (words o bs).sum r ∧ inetChecksum o bs = 65535 - r := by
  unfold inetChecksum
  generalize (words o bs).sum = sum at short ⊢
  refine ⟨_, ?_, rfl⟩
  have once : Folds sum (sum / 2 ^ 16 + sum % 2 ^ 16) ∨
      65535 < sum / 2 ^ 16 + sum % 2 ^ 16 := by
    by_cases carry : 65535 < sum / 2 ^ 16 + sum % 2 ^ 16
    case pos => exact .inr carry
    case neg => exact .inl ⟨by omega, by omega, by omega⟩
  have bound : sum / 2 ^ 16 + sum % 2 ^ 16 < 2 ^ 17 - 1 := by omega
  have same : (sum / 2 ^ 16 + sum % 2 ^ 16) % 65535 = sum % 65535 := by omega
  have less : sum / 2 ^ 16 + sum % 2 ^ 16 ≤ sum := by omega
  generalize sum / 2 ^ 16 + sum % 2 ^ 16 = folded at once bound same less ⊢
  obtain done | carry := once
  · have small : folded < 2 ^ 16 := Nat.lt_succ_of_le done.le
    rw [Nat.div_eq_of_lt small, Nat.add_zero, Nat.mod_eq_of_lt small]
    exact done
  · -- the carry is 1, and there is none from adding it
    have one : folded / 2 ^ 16 = 1 := by omega
    have rest : (folded + 1) % 2 ^ 16 = folded - 65535 := by omega
    rw [one, rest]
    exact ⟨by omega, by omega, iff_of_false (by omega) (by omega)⟩

theorem words_sum_le (bs : List UInt8) : (words o bs).sum ≤ 65535 * bs.length := by
  have bound := words_le o bs
  have few : (words o bs).length ≤ bs.length := by
    rw [length_words]
    omega
  have total := List.sum_le_card_nsmul (words o bs) 65535 bound
  rw [smul_eq_mul] at total
  calc (words o bs).sum ≤ (words o bs).length * 65535 := total
    _ ≤ bs.length * 65535 := Nat.mul_le_mul_right _ few
    _ = 65535 * bs.length := Nat.mul_comm _ _

/-- A word that stands at an even offset counts as it is. -/
theorem words_sum_insert {front back : List UInt8} {x : Nat} (even : front.length % 2 = 0)
    (word : x < 2 ^ 16) :
    (words o (front ++ o.bytes 2 x ++ back)).sum =
      (words o (front ++ o.bytes 2 0 ++ back)).sum + x := by
  have two (y : Nat) (bound : y < 2 ^ 16) : words o (o.bytes 2 y) = [y] := by
    have value := ByteOrder.num_bytes (o := o) (n := 2) (x := y)
    obtain ⟨a, b, bytes⟩ : ∃ a b, o.bytes 2 y = [a, b] :=
      List.length_eq_two.mp ByteOrder.length_bytes
    rw [bytes] at value ⊢
    rw [words, words, value, Nat.mod_eq_of_lt (by simpa using bound)]
  have split (y : Nat) (bound : y < 2 ^ 16) :
      (words o (front ++ o.bytes 2 y ++ back)).sum =
        (words o front).sum + y + (words o back).sum := by
    rw [words_append (by simp [even]), words_append even, two y bound]
    simp [Nat.add_assoc]
  rw [split x word, split 0 (by decide)]
  omega

/-! ## The two checksums -/

/-- A block with its checksum at an even offset adds up to all ones.  The checksum may have been
    computed with more bytes behind the block, if these add up to all ones themselves. -/
theorem onesSum_checksum {front back more : List UInt8} {c : Nat} (even : front.length % 2 = 0)
    (evenBack : back.length % 2 = 0)
    (short : (words o (front ++ o.bytes 2 0 ++ back ++ more)).sum < 2 ^ 31)
    (extra : (words o more).sum % 65535 = 0) (word : c < 2 ^ 16)
    (positive : 0 < (words o (front ++ o.bytes 2 0 ++ back)).sum)
    (checksum : c % 65535 = inetChecksum o (front ++ o.bytes 2 0 ++ back ++ more) % 65535) :
    onesSum (words o (front ++ o.bytes 2 c ++ back)) = 65535 := by
  obtain ⟨r, folds, eq⟩ := inetChecksum_folds short
  have split : (words o (front ++ o.bytes 2 0 ++ back ++ more)).sum =
      (words o (front ++ o.bytes 2 0 ++ back)).sum + (words o more).sum := by
    rw [words_append (by simp [even, evenBack, Nat.add_mod]), List.sum_append]
  have inserted : (words o (front ++ o.bytes 2 c ++ back)).sum = _ := words_sum_insert even word
  apply (onesSum_spec (words_le o _)).eq_max_iff.mpr
  obtain ⟨le, mod, zero⟩ := folds
  rw [inserted]
  omega

theorem words_sum_pos {a b : UInt8} {rest : List UInt8} (nonzero : 0 < a.toNat) :
    0 < (words o (a :: b :: rest)).sum := by
  rw [words, List.sum_cons, num_two]
  cases o with
  | little => exact Nat.add_pos_left (Nat.add_pos_left nonzero _) _
  | big => exact Nat.add_pos_left (Nat.add_pos_left (Nat.mul_pos nonzero (by decide)) _) _

theorem inetChecksum_lt (bs : List UInt8) : inetChecksum o bs < 2 ^ 16 := by
  unfold inetChecksum
  dsimp only
  omega

theorem Ip.bytes_eq (ip : Ip) : ip.bytes o =
    ([UInt8.ofNat (ip.ipV * 16 + ip.ipHl), UInt8.ofNat ip.ipTos] ++ (o.bytes 2 ip.ipLen ++
      o.bytes 2 ip.ipId ++ o.bytes 2 ip.ipOff ++ [UInt8.ofNat ip.ipTtl, UInt8.ofNat ip.ipP])) ++
      o.bytes 2 ip.ipSum ++ (o.bytes 4 ip.ipSrc ++ o.bytes 4 ip.ipDst) := by
  simp [Ip.bytes]

theorem Icmp.bytes_eq (icmp : Icmp) : icmp.bytes o =
    [UInt8.ofNat icmp.icmpType, UInt8.ofNat icmp.icmpCode] ++ o.bytes 2 icmp.icmpCksum ++
      (o.bytes 2 icmp.icmpId ++ o.bytes 2 icmp.icmpSeq) := by
  simp [Icmp.bytes]

/-- What `sendicmp` does about a message of type `ICMP_ECHO`. -/
theorem onesSum_icmp (id seq : Nat) :
    let icmp : Icmp := ⟨ICMP_ECHO, 0, 0, id, seq⟩
    onesSum (words o ({ icmp with icmpCksum := inetChecksum o (icmp.bytes o) }.bytes o)) =
      65535 := by
  dsimp only
  rw [Icmp.bytes_eq]
  have bound := words_sum_le (o := o) ((⟨ICMP_ECHO, 0, 0, id, seq⟩ : Icmp).bytes o)
  rw [Icmp.bytes_eq] at bound ⊢
  dsimp only at bound ⊢
  apply @onesSum_checksum o _ _ []
  · rfl
  · simp
  · rw [List.append_nil]
    refine lt_of_le_of_lt bound ?_
    simp
  · rfl
  · exact inetChecksum_lt _
  · exact words_sum_pos (by decide)
  · rw [List.append_nil]

/-- The header and the message each add up to all ones, in either byte order. -/
theorem sendicmp_checksums (o o' : ByteOrder) (src pid ttl dst : Nat) :
    onesSum (words o' ((sendicmp o src pid ttl dst).1.bytes o)) = 0xffff ∧
      onesSum (words o' ((sendicmp o src pid ttl dst).2.bytes o)) = 0xffff := by
  have message := onesSum_icmp (o := o) (o.hton 2 pid) (o.hton 2 ttl)
  refine ⟨?_, (onesSum_words_eq_max_iff o o' _).mpr message⟩
  apply (onesSum_words_eq_max_iff o o' _).mpr
  have extra := ((onesSum_spec (words_le o _)).eq_max_iff.mp message).2
  set icmp : Icmp := { (⟨ICMP_ECHO, 0, 0, o.hton 2 pid, o.hton 2 ttl⟩ : Icmp) with
    icmpCksum := inetChecksum o ((⟨ICMP_ECHO, 0, 0, o.hton 2 pid, o.hton 2 ttl⟩ : Icmp).bytes o) }
  have size : (icmp.bytes o).length = 8 := by simp [Icmp.bytes]
  set ip : Ip := ⟨5, 4, 0, o.hton 2 (ICMP_MINLEN + sizeofIp), o.hton 2 pid, 0, ttl, IPPROTO_ICMP, 0,
    src, dst⟩ with hip
  have header (c : Nat) (word : c < 2 ^ 16)
      (checksum : c % 65535 = inetChecksum o (ip.bytes o ++ icmp.bytes o) % 65535) :
      onesSum (words o ({ ip with ipSum := c }.bytes o)) = 65535 := by
    have bound := words_sum_le (o := o) (ip.bytes o ++ icmp.bytes o)
    rw [List.length_append, size] at bound
    rw [Ip.bytes_eq] at checksum bound ⊢
    apply onesSum_checksum
    · simp
    · simp
    · refine lt_of_le_of_lt bound ?_
      simp
    · exact extra
    · exact word
    · apply words_sum_pos
      change 0 < (UInt8.ofNat 0x45).toNat
      decide
    · exact checksum
  have lt : inetChecksum o (ip.bytes o ++ icmp.bytes o) < 2 ^ 16 := inetChecksum_lt _
  change onesSum (words o ((if inetChecksum o (ip.bytes o ++ icmp.bytes o) = 0 then
    { ip with ipSum := 0xffff }
    else { ip with ipSum := inetChecksum o (ip.bytes o ++ icmp.bytes o) }).bytes o)) = 65535
  split
  next none => exact header 0xffff (by decide) (by rw [none])
  next => exact header _ lt rfl

/-! ## The accumulator -/

/-- The sum of two `int`s that are not negative, if it is one. -/
def addInt (a b : Nat) : Option Nat := if a + b < 2 ^ 31 then some (a + b) else none

/-- The loop of `inet_checksum` from `w` on, and the odd byte behind it. -/
def inetChecksumLoop (o : ByteOrder) : List UInt8 → Nat → Option Nat
  | a :: b :: w, sum => do
    let sum ← addInt sum (o.num [a, b])
    inetChecksumLoop o w sum
  | [a], sum => addInt sum (o.num [a, 0])
  | [], sum => some sum

/-- `inet_checksum`; there is no result if `sum` overflows. -/
def inetChecksumInt (o : ByteOrder) (bs : List UInt8) : Option Nat := do
  let sum ← inetChecksumLoop o bs 0
  let sum ← addInt (sum / 2 ^ 16) (sum % 2 ^ 16)
  let sum ← addInt sum (sum / 2 ^ 16)
  some (2 ^ 16 - 1 - sum % 2 ^ 16)

def storeField (o : ByteOrder) (off x : Nat) (bs : List UInt8) : List UInt8 :=
  bs.take off ++ o.bytes 2 x ++ bs.drop (off + 2)

theorem inetChecksumLoop_eq {bs : List UInt8} {sum : Nat}
    (short : sum + (words o bs).sum < 2 ^ 31) :
    inetChecksumLoop o bs sum = some (sum + (words o bs).sum) := by
  fun_induction inetChecksumLoop o bs sum with
  | case1 a b w sum ih =>
    rw [words, List.sum_cons] at short ⊢
    have fits : sum + o.num [a, b] < 2 ^ 31 := by omega
    rw [addInt, if_pos fits, Option.bind_eq_bind, Option.bind_some, ih _ (by omega), Nat.add_assoc]
  | case2 a sum =>
    rw [words, List.sum_singleton] at short ⊢
    exact if_pos short
  | case3 sum => rfl

/-- The words of a packet of up to 65535 bytes do not overflow an `int`. -/
theorem words_sum_lt {bs : List UInt8} (length : bs.length ≤ 65535) :
    (words o bs).sum < 2 ^ 31 := by
  have total := List.sum_le_card_nsmul (words o bs) 65535 (words_le o bs)
  rw [length_words, smul_eq_mul] at total
  omega

theorem inetChecksumInt_eq {bs : List UInt8} (length : bs.length ≤ 65535) :
    inetChecksumInt o bs = some (inetChecksum o bs) := by
  have short : (words o bs).sum < 2 ^ 31 := words_sum_lt length
  have added : inetChecksumLoop o bs 0 = some (words o bs).sum := by
    rw [inetChecksumLoop_eq (by omega), Nat.zero_add]
  unfold inetChecksumInt inetChecksum addInt
  rw [added]
  generalize (words o bs).sum = sum at short
  have once : sum / 2 ^ 16 + sum % 2 ^ 16 < 2 ^ 31 := by omega
  have twice : sum / 2 ^ 16 + sum % 2 ^ 16 + (sum / 2 ^ 16 + sum % 2 ^ 16) / 2 ^ 16 < 2 ^ 31 := by
    omega
  simp only [bind, Option.bind_some, if_pos once, if_pos twice]

/-- The checksum of a whole block, in a field of it that was zero. -/
theorem onesSum_inetChecksum {front back : List UInt8} (even : front.length % 2 = 0)
    (short : (words o (front ++ o.bytes 2 0 ++ back)).sum < 2 ^ 31) :
    onesSum (words o (front ++ o.bytes 2 (inetChecksum o (front ++ o.bytes 2 0 ++ back)) ++ back)) =
      65535 := by
  obtain ⟨r, ⟨le, mod, zero⟩, eq⟩ := inetChecksum_folds short
  apply (onesSum_spec (words_le o _)).eq_max_iff.mpr
  rw [words_sum_insert even (inetChecksum_lt _), eq]
  omega

/-- `sum` never overflows, and the checksum in a field that was zero makes the block add up to all
    ones, for a host and a receiver of either byte order. -/
theorem inet_checksum_ones (o o' : ByteOrder) {bs : List UInt8} (length : bs.length ≤ 65535) :
    ∃ c, inetChecksumInt o bs = some c ∧
      ∀ off, off % 2 = 0 → bs[off]? = some 0 → bs[off + 1]? = some 0 →
        onesSum (words o' (storeField o off c bs)) = 0xffff := by
  refine ⟨_, inetChecksumInt_eq length, fun off even first second => ?_⟩
  obtain ⟨inside, first⟩ := List.getElem?_eq_some_iff.mp first
  obtain ⟨inside', second⟩ := List.getElem?_eq_some_iff.mp second
  have zeros : o.bytes 2 0 = [0, 0] := by cases o <;> decide
  have split : bs = bs.take off ++ o.bytes 2 0 ++ bs.drop (off + 2) := by
    have rest : bs.drop off = 0 :: 0 :: bs.drop (off + 2) := by
      rw [List.drop_eq_getElem_cons inside, List.drop_eq_getElem_cons inside', first, second]
    rw [zeros, List.append_assoc, List.cons_append, List.cons_append, List.nil_append, ← rest,
      List.take_append_drop]
  have front : (bs.take off).length % 2 = 0 := by
    rwa [List.length_take_of_le (Nat.le_of_lt inside)]
  have short : (words o bs).sum < 2 ^ 31 := words_sum_lt length
  have ones := onesSum_inetChecksum front (split ▸ short)
  rw [← split] at ones
  exact (onesSum_words_eq_max_iff o o' _).mpr ones

/-- An echo request of an odd length. -/
theorem inet_checksum_ones_odd :
    ∃ c, inetChecksumInt .little [8, 0, 0, 0, 1, 2, 3] = some c ∧
      onesSum (words .big (storeField .little 2 c [8, 0, 0, 0, 1, 2, 3])) = 0xffff := by
  obtain ⟨c, returns, ones⟩ := inet_checksum_ones .little .big
    (show [8, 0, 0, 0, 1, 2, 3].length ≤ 65535 by decide)
  exact ⟨c, returns, ones 2 rfl rfl rfl⟩

end Cheops.IpUtils
