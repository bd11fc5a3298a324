import Cheops.Lib.Bytes

/-! # Words and strings in memory

What an encoder stores piece by piece, a decoder finds at the offsets of the pieces: `StandsAt`
goes through concatenation, and a word or a string is read from where it stands.
-/

namespace Cheops.Lib

variable {m m' : Mem} {off n x : Nat} {bs cs s : List UInt8}

def StandsAt (m : Mem) (off : Nat) (bs : List UInt8) : Prop := slice m off bs.length = bs

instance (m : Mem) (off : Nat) (bs : List UInt8) : Decidable (StandsAt m off bs) :=
  inferInstanceAs (Decidable (_ = _))

theorem standsAt_append :
    StandsAt m off (bs ++ cs) ↔ StandsAt m off bs ∧ StandsAt m (off + bs.length) cs := by
  unfold StandsAt
  rw [List.length_append, slice_append]
  constructor
  · intro stands
    exact List.append_inj stands length_slice
  · rintro ⟨first, second⟩
    rw [first, second]

theorem standsAt_cons {b : UInt8} :
    StandsAt m off (b :: bs) ↔ m off = b ∧ StandsAt m (off + 1) bs := by
  rw [show b :: bs = [b] ++ bs from rfl, standsAt_append]
  simp [StandsAt, slice]

theorem standsAt_nil : StandsAt m off [] := rfl

theorem standsAt_store : StandsAt (store m off bs) off bs := slice_store

/-- Memory seen from a later address. -/
theorem StandsAt.shift {base : Nat} (stands : StandsAt m (base + off) bs) :
    StandsAt (fun i => m (base + i)) off bs := by
  unfold StandsAt slice at stands ⊢
  simpa only [Nat.add_assoc] using stands

/-! ## Words -/

theorem beNat_append : beNat (bs ++ cs) = beNat bs * 256 ^ cs.length + beNat cs := by
  induction cs using List.reverseRecOn with
  | nil => simp [beNat]
  | append_singleton cs c ih =>
    simp only [beNat, ← List.append_assoc, List.foldl_append, List.foldl_cons,
      List.foldl_nil] at ih ⊢
    rw [ih, List.length_append, List.length_singleton, Nat.pow_succ]
    ring

/-- A number is read back from its bytes. -/
theorem beNat_toBe (n x : Nat) : beNat (toBe n x) = x % 256 ^ n := by
  induction n with
  | zero => simp [toBe, beNat, Nat.mod_one]
  | succ n ih =>
    have digit : (UInt8.ofNat (x / 256 ^ n)).toNat = x / 256 ^ n % 256 := by
      simp [UInt8.toNat_ofNat']
    rw [toBe, show ∀ b : UInt8, b :: toBe n x = [b] ++ toBe n x from fun _ => rfl, beNat_append,
      ih, length_toBe, Nat.pow_succ, Nat.mod_mul]
    simp only [beNat, List.foldl_cons, List.foldl_nil, Nat.zero_mul, Nat.zero_add, digit]
    ring

/-- The bytes of a number are those of its remainder. -/
theorem toBe_add_mul (n x y : Nat) : toBe n (x + y * 256 ^ n) = toBe n x := by
  induction n generalizing y with
  | zero => rfl
  | succ n ih =>
    have carry : x + y * 256 ^ (n + 1) = x + y * 256 * 256 ^ n := by rw [Nat.pow_succ]; ring
    have digit : UInt8.ofNat (x / 256 ^ n + y * 256) = UInt8.ofNat (x / 256 ^ n) := by
      apply UInt8.toNat_inj.mp
      simp [UInt8.toNat_ofNat']
    rw [toBe, toBe, carry, ih, Nat.add_mul_div_right _ _ (Nat.pow_pos (by decide)), digit]

theorem toBe_beNat (bs : List UInt8) : toBe bs.length (beNat bs) = bs := by
  induction bs with
  | nil => rfl
  | cons b bs ih =>
    have value : beNat (b :: bs) = beNat bs + b.toNat * 256 ^ bs.length := by
      rw [show b :: bs = [b] ++ bs from rfl, beNat_append, Nat.add_comm]
      simp [beNat]
    have high : (beNat bs + b.toNat * 256 ^ bs.length) / 256 ^ bs.length = b.toNat := by
      rw [Nat.add_mul_div_right _ _ (Nat.pow_pos (by decide)), Nat.div_eq_of_lt (beNat_lt bs),
        Nat.zero_add]
    rw [List.length_cons, toBe, value, high, UInt8.ofNat_toNat, toBe_add_mul, ih]

theorem StandsAt.be32 (stands : StandsAt m off (toBe 4 x)) : be32 m off = x % 2 ^ 32 := by
  have bytes : slice m off 4 = toBe 4 x := by simpa [StandsAt] using stands
  rw [Lib.be32, bytes, beNat_toBe]
  norm_num

theorem StandsAt.be16 (stands : StandsAt m off (toBe 2 x)) : be16 m off = x % 2 ^ 16 := by
  have bytes : slice m off 2 = toBe 2 x := by simpa [StandsAt] using stands
  rw [Lib.be16, bytes, beNat_toBe]
  norm_num

/-! ## Strings -/

/-- `strlen`, looking at no more than `fuel` bytes. -/
def strnlen (m : Mem) : Nat → Nat → Nat
  | 0, _ => 0
  | fuel + 1, off => if m off = 0 then 0 else strnlen m fuel (off + 1) + 1

/-- `strlen`; the address space ends after `2 ^ 64` bytes. -/
def strlen (m : Mem) (off : Nat) : Nat := strnlen m (2 ^ 64) off

def cstring (m : Mem) (off : Nat) : List UInt8 := slice m off (strlen m off)

theorem strnlen_eq {fuel : Nat} (stands : StandsAt m off (s ++ [0])) (nul : 0 ∉ s)
    (fits : s.length < fuel) : strnlen m fuel off = s.length := by
  induction s generalizing fuel off with
  | nil =>
    obtain ⟨fuel, rfl⟩ : ∃ k, fuel = k + 1 := ⟨fuel - 1, by simp at fits; omega⟩
    obtain ⟨zero, -⟩ := standsAt_cons.mp stands
    rw [strnlen, if_pos zero]
    rfl
  | cons b s ih =>
    obtain ⟨fuel, rfl⟩ : ∃ k, fuel = k + 1 := ⟨fuel - 1, by simp at fits; omega⟩
    obtain ⟨first, others⟩ := standsAt_cons.mp stands
    simp only [List.mem_cons, not_or] at nul
    have nonzero : m off ≠ 0 := by
      rw [first]
      exact Ne.symm nul.1
    rw [strnlen, if_neg nonzero, ih others nul.2 (by simp at fits; omega), List.length_cons]

theorem StandsAt.strlen (stands : StandsAt m off (s ++ [0])) (nul : 0 ∉ s)
    (fits : s.length < 2 ^ 64) : strlen m off = s.length := strnlen_eq stands nul fits

theorem StandsAt.cstring (stands : StandsAt m off (s ++ [0])) (nul : 0 ∉ s)
    (fits : s.length < 2 ^ 64) : cstring m off = s := by
  rw [Lib.cstring, stands.strlen nul fits]
  exact (standsAt_append.mp stands).1

/-- Where the search ends before it has to, there is a NUL. -/
theorem strnlen_nul {fuel : Nat} (found : strnlen m fuel off < fuel) :
    m (off + strnlen m fuel off) = 0 := by
  induction fuel generalizing off with
  | zero => omega
  | succ fuel ih =>
    unfold strnlen at found ⊢
    split at found
    next zero =>
      rw [if_pos zero]
      exact zero
    next nonzero =>
      rw [if_neg nonzero]
      have later := @ih (off + 1) (by omega)
      rwa [show off + (strnlen m fuel (off + 1) + 1) = off + 1 + strnlen m fuel (off + 1) by omega]

/-- Bytes without a NUL are the string exactly if there is one behind them. -/
theorem StandsAt.cstring_iff (stands : StandsAt m off s) (nul : 0 ∉ s) (fits : s.length < 2 ^ 64) :
    Lib.cstring m off = s ↔ m (off + s.length) = 0 := by
  constructor
  · intro string
    have length : Lib.strlen m off = s.length := by
      rw [← string, Lib.cstring, length_slice]
    rw [← length]
    exact strnlen_nul (by rw [← Lib.strlen, length]; exact fits)
  · intro zero
    have ended : StandsAt m off (s ++ [0]) :=
      standsAt_append.mpr ⟨stands, standsAt_cons.mpr ⟨zero, standsAt_nil⟩⟩
    exact ended.cstring nul fits

end Cheops.Lib
