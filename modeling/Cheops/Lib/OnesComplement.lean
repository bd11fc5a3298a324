import Cheops.Lib.ByteOrder

/-! # One's complement sums of 16-bit words

The sum with end-around carry.  It is the remainder of the ordinary sum modulo `2 ^ 16 - 1`, with
all ones in the place of 0 for a sum that is not 0 (`onesSum_spec`), so whether it is all ones
does not depend on the byte order (`onesSum_words_eq_max_iff`).
-/

namespace Cheops.Lib

/-- The 16-bit words of some bytes.  An odd byte is the first one of its word. -/
def words (o : ByteOrder) : List UInt8 → List Nat
  | a :: b :: rest => o.num [a, b] :: words o rest
  | [a] => [o.num [a, 0]]
  | [] => []

/-- Addition with end-around carry. -/
def onesAdd (a b : Nat) : Nat := if a + b < 2 ^ 16 then a + b else a + b - (2 ^ 16 - 1)

def onesSum (ws : List Nat) : Nat := ws.foldl onesAdd 0

/-- `r` is the one's complement value of the number `s`. -/
structure Folds (s r : Nat) : Prop where
  le : r ≤ 65535
  mod : r % 65535 = s % 65535
  zero : r = 0 ↔ s = 0

theorem Folds.eq_max_iff {s r : Nat} (h : Folds s r) : r = 65535 ↔ 0 < s ∧ s % 65535 = 0 := by
  obtain ⟨le, mod, zero⟩ := h
  omega

theorem Folds.add {s r w : Nat} (h : Folds s r) (word : w ≤ 65535) :
    Folds (s + w) (onesAdd r w) := by
  obtain ⟨le, mod, zero⟩ := h
  unfold onesAdd
  split
  · constructor <;> omega
  · constructor <;> omega

theorem onesSum_spec {ws : List Nat} (bound : ∀ w ∈ ws, w ≤ 65535) :
    Folds ws.sum (onesSum ws) := by
  induction ws using List.reverseRecOn with
  | nil => constructor <;> simp [onesSum]
  | append_singleton ws w ih =>
    have before := ih fun x member => bound x (List.mem_append_left _ member)
    have next := before.add (bound w (by simp))
    simpa [onesSum] using next

/-! ## Words of bytes -/

theorem words_le (o : ByteOrder) (bs : List UInt8) : ∀ w ∈ words o bs, w ≤ 65535 := by
  fun_induction words o bs with
  | case1 a b rest ih =>
    have bound := ByteOrder.num_lt (o := o) [a, b]
    simp only [List.length_cons, List.length_nil] at bound
    exact List.forall_mem_cons.mpr ⟨by omega, ih⟩
  | case2 a =>
    have bound := ByteOrder.num_lt (o := o) [a, 0]
    simp only [List.length_cons, List.length_nil] at bound
    exact List.forall_mem_singleton.mpr (by omega)
  | case3 => nofun

theorem length_words (o : ByteOrder) (bs : List UInt8) :
    (words o bs).length = (bs.length + 1) / 2 := by
  fun_induction words o bs with
  | case1 a b rest ih =>
    rw [List.length_cons, List.length_cons, List.length_cons, ih]
    omega
  | case2 a => simp
  | case3 => rfl

theorem words_append {o : ByteOrder} {bs cs : List UInt8} (even : bs.length % 2 = 0) :
    words o (bs ++ cs) = words o bs ++ words o cs := by
  fun_induction words o bs with
  | case1 a b rest ih =>
    rw [List.length_cons, List.length_cons] at even
    rw [List.cons_append, List.cons_append, words, ih (by omega), List.cons_append]
  | case2 a => cases even
  | case3 => rfl

theorem num_two (o : ByteOrder) (a b : UInt8) :
    o.num [a, b] = match o with
      | .little => a.toNat + b.toNat * 256
      | .big => a.toNat * 256 + b.toNat := by
  cases o <;> simp [ByteOrder.num, beNat, Nat.add_comm]

/-- In the other order every word is multiplied by 256, and vanishes where it did. -/
theorem words_swap (o o' : ByteOrder) (bs : List UInt8) :
    ((words o' bs).sum % 65535 = (words o bs).sum % 65535 ∨
      (words o' bs).sum % 65535 = 256 * (words o bs).sum % 65535) ∧
    ((words o' bs).sum = 0 ↔ (words o bs).sum = 0) := by
  by_cases same : o' = o
  case pos => exact same ▸ ⟨.inl rfl, Iff.rfl⟩
  case neg =>
    have swapped : (words o' bs).sum % 65535 = 256 * (words o bs).sum % 65535 ∧
        ((words o' bs).sum = 0 ↔ (words o bs).sum = 0) := by
      fun_induction words o bs with
      | case1 a b rest ih =>
        simp only [words, List.sum_cons, num_two]
        cases o <;> cases o' <;> first | exact absurd rfl same | (dsimp only; omega)
      | case2 a =>
        simp only [words, List.sum_cons, num_two, List.sum_nil]
        cases o <;> cases o' <;> first | exact absurd rfl same | (dsimp only; simp; omega)
      | case3 => simp [words]
    exact ⟨.inr swapped.1, swapped.2⟩

/-- Whoever adds the words, in whichever order of the bytes, finds all ones or not. -/
theorem onesSum_words_eq_max_iff (o o' : ByteOrder) (bs : List UInt8) :
    onesSum (words o' bs) = 65535 ↔ onesSum (words o bs) = 65535 := by
  have there (p q : ByteOrder) (ones : onesSum (words p bs) = 65535) :
      onesSum (words q bs) = 65535 := by
    have sums := ((onesSum_spec (words_le p bs)).eq_max_iff).mp ones
    obtain ⟨mod, zero⟩ := words_swap p q bs
    apply ((onesSum_spec (words_le q bs)).eq_max_iff).mpr
    omega
  exact ⟨there o' o, there o o'⟩

end Cheops.Lib
