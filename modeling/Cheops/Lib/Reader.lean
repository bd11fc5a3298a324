import Cheops.Lib.Agree
import Cheops.Lib.Footprint

/-! # Programs that read a memory

A reader reads ranges and strings one after the other; where it reads next may depend on what it
has read.  `trace` is everything it reads.  Of memories that agree up to some size it reads the
same exactly if all of its reads lie in front of that size (`trace_eq_iff`).
-/

namespace Cheops.Lib

inductive Reader (α : Type) where
  | done (result : α)
  | bytes (off n : Nat) (next : List UInt8 → Reader α)
  | string (off : Nat) (next : List UInt8 → Reader α)

namespace Reader

variable {α : Type}

def run (m : Mem) : Reader α → α
  | done result => result
  | bytes off n next => (next (slice m off n)).run m
  | string off next => (next (cstring m off)).run m

def trace (m : Mem) : Reader α → List (List UInt8)
  | done _ => []
  | bytes off n next => slice m off n :: (next (slice m off n)).trace m
  | string off next => cstring m off :: (next (cstring m off)).trace m

/-- The bytes that are read, and the NULs of the strings, are among the first `size`. -/
def Within (m : Mem) (size : Nat) : Reader α → Prop
  | done _ => True
  | bytes off n next => (0 < n → off + n ≤ size) ∧ (next (slice m off n)).Within m size
  | string off next => 0 ∈ slice m off (size - off) ∧ (next (cstring m off)).Within m size

variable {m m' : Mem} {off n size : Nat} {p : Reader α}

/-! ## Inside -/

theorem Agree.cstring (agree : Agree size m m') (found : 0 ∈ slice m off (size - off))
    (small : size ≤ 2 ^ 64) : cstring m off = cstring m' off := by
  obtain ⟨inside, -⟩ := strlen_of_mem found (by omega)
  exact cstring_congr (agree.slice (by omega))

theorem trace_eq (agree : Agree size m m') (small : size ≤ 2 ^ 64) (within : p.Within m size) :
    p.trace m' = p.trace m := by
  induction p with
  | done result => rfl
  | bytes off n next ih =>
    obtain ⟨bound, rest⟩ := within
    have same : slice m' off n = slice m off n := by
      cases n with
      | zero => rfl
      | succ n => exact (agree.slice (by have := bound n.succ_pos; omega)).symm
    rw [trace, trace, same, ih _ rest]
  | string off next ih =>
    obtain ⟨found, rest⟩ := within
    rw [trace, trace, ← Agree.cstring agree found small, ih _ rest]

/-- The result is that of what was read. -/
theorem run_eq_of_trace (same : p.trace m' = p.trace m) : p.run m' = p.run m := by
  induction p with
  | done result => rfl
  | bytes off n next ih =>
    obtain ⟨read, rest⟩ := List.cons.inj same
    rw [run, run, read]
    rw [read] at rest
    exact ih _ rest
  | string off next ih =>
    obtain ⟨read, rest⟩ := List.cons.inj same
    rw [run, run, read]
    rw [read] at rest
    exact ih _ rest

/-! ## Outside -/

/-- A byte that is `NUL` exactly if the given one is not. -/
theorem exists_byte (c : UInt8) : ∃ b : UInt8, b = 0 ↔ c ≠ 0 := by
  by_cases zero : c = 0
  · exact ⟨1, by simp [zero]⟩
  · exact ⟨0, by simp [zero]⟩

/-- A string without a NUL in front of an offset depends on the byte there. -/
theorem exists_cstring_ne (unfound : 0 ∉ slice m off n) (small : n < 2 ^ 64) :
    ∃ b, cstring (Function.update m (off + n) b) off ≠ cstring m off := by
  have length : (slice m off n).length = n := length_slice
  have stands : StandsAt m off (slice m off n) := by rw [StandsAt, length]
  obtain ⟨b, change⟩ := exists_byte (m (off + n))
  refine ⟨b, fun same => ?_⟩
  have agree : Agree (off + n : Nat) m (Function.update m (off + n) b) := agree_update (le_refl _)
  have stands' : StandsAt (Function.update m (off + n) b) off (slice m off n) := by
    rw [StandsAt, length, agree.slice (by omega)]
  have ends := stands.cstring_iff unfound (by omega)
  have ends' := stands'.cstring_iff unfound (by omega)
  rw [length] at ends
  rw [same, ends, length, Function.update_self] at ends'
  by_cases zero : m (off + n) = 0
  · simp [zero, change] at ends'
  · simp [zero, change] at ends'

theorem within_of_trace (small : size < 2 ^ 64)
    (same : ∀ m', Agree size m m' → p.trace m' = p.trace m) : p.Within m size := by
  induction p with
  | done result => trivial
  | bytes off n next ih =>
    have bound : 0 < n → off + n ≤ size := by
      intro pos
      by_contra outside
      obtain ⟨k, rfl⟩ : ∃ k, n = k + 1 := ⟨n - 1, by omega⟩
      obtain ⟨b, other⟩ := exists_byte (m (off + k))
      have change : b ≠ m (off + k) := by
        rintro rfl
        exact iff_not_self other
      have read := same _ (agree_update (i := off + k) (b := b) (by omega))
      exact slice_update_last change (List.cons.inj read).1
    refine ⟨bound, ih _ fun m' agree => ?_⟩
    obtain ⟨read, rest⟩ := List.cons.inj (same m' agree)
    rwa [read] at rest
  | string off next ih =>
    have found : 0 ∈ slice m off (size - off) := by
      by_contra unfound
      obtain ⟨b, change⟩ := exists_cstring_ne unfound (by omega)
      have read := same _ (agree_update (i := off + (size - off)) (b := b) (by omega))
      exact change (List.cons.inj read).1
    refine ⟨found, ih _ fun m' agree => ?_⟩
    obtain ⟨read, rest⟩ := List.cons.inj (same m' agree)
    rwa [read] at rest

/-- What is read is the same for all continuations exactly if nothing is read of them. -/
theorem trace_eq_iff (small : size < 2 ^ 64) :
    (∀ m', Agree size m m' → p.trace m' = p.trace m) ↔ p.Within m size :=
  ⟨within_of_trace small, fun within _ agree => trace_eq agree (Nat.le_of_lt small) within⟩

end Reader

end Cheops.Lib
