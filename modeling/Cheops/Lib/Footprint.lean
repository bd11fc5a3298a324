import Cheops.Lib.Wire

/-! # What is read of a memory, and what is stored

A footprint is a list of ranges, each an offset and a number of bytes.  Strings that stand one
behind the other are inside of a memory of some size exactly if enough NULs are
(`inside_strings_iff`), and what is read depends on the ranges alone (`cstring_congr`).  Pieces that
are stored apart from each other all stand in the end, in whatever order (`stands_of_apart`).
-/

namespace Cheops.Lib

def Inside (size : Nat) (ranges : List (Nat × Nat)) : Prop := ∀ r ∈ ranges, r.1 + r.2 ≤ size

def SameOn (m m' : Mem) (ranges : List (Nat × Nat)) : Prop :=
  ∀ r ∈ ranges, slice m r.1 r.2 = slice m' r.1 r.2

/-- What is read of `k` strings, each of which begins behind the NUL of the last. -/
def strings (m : Mem) : Nat → Nat → List (Nat × Nat)
  | 0, _ => []
  | k + 1, off => (off, strlen m off + 1) :: strings m k (off + strlen m off + 1)

variable {m m' : Mem} {size off n k : Nat} {rs ss : List (Nat × Nat)}

/-! ## Bounds -/

theorem inside_nil : Inside size [] := fun _ member => absurd member List.not_mem_nil

theorem inside_cons : Inside size ((off, n) :: rs) ↔ off + n ≤ size ∧ Inside size rs :=
  List.forall_mem_cons

theorem inside_append : Inside size (rs ++ ss) ↔ Inside size rs ∧ Inside size ss :=
  List.forall_mem_append

/-- A string ends at the first NUL. -/
theorem strlen_of_mem (found : 0 ∈ slice m off n) (small : n ≤ 2 ^ 64) :
    strlen m off < n ∧
      (slice m off n).count 0 =
        (slice m (off + strlen m off + 1) (n - (strlen m off + 1))).count 0 + 1 := by
  obtain ⟨s, t, split, first⟩ := List.eq_append_cons_of_mem found
  have total : n = s.length + (t.length + 1) := by
    have length : (slice m off n).length = n := length_slice
    rw [← length, split, List.length_append, List.length_cons]
  have stands : StandsAt m off (s ++ [0] ++ t) := by
    rw [StandsAt, List.append_assoc, List.singleton_append, List.length_append, List.length_cons,
      ← total, split]
  obtain ⟨string, rest⟩ := standsAt_append.mp stands
  have length : strlen m off = s.length := string.strlen first (by omega)
  rw [List.length_append, List.length_singleton, ← Nat.add_assoc] at rest
  refine ⟨by omega, ?_⟩
  rw [length, show n - (s.length + 1) = t.length by omega, rest, split, List.count_append,
    List.count_eq_zero.mpr first, List.count_cons_self, Nat.zero_add]

/-- The strings and their NULs are inside exactly if there are as many NULs. -/
theorem inside_strings_iff (small : size ≤ 2 ^ 64) :
    Inside size (strings m k off) ↔ k ≤ (slice m off (size - off)).count 0 := by
  induction k generalizing off with
  | zero => exact iff_of_true inside_nil (Nat.zero_le _)
  | succ k ih =>
    rw [strings, inside_cons, ih]
    by_cases found : 0 ∈ slice m off (size - off)
    case pos =>
      obtain ⟨inside, count⟩ := strlen_of_mem found (by omega)
      rw [count, show size - off - (strlen m off + 1) = size - (off + strlen m off + 1) by omega]
      omega
    case neg =>
      rw [List.count_eq_zero.mpr found]
      refine iff_of_false (fun inside => found ?_) (Nat.not_succ_le_zero k)
      have nul : m (off + strlen m off) = 0 := strnlen_nul (by
        rw [← strlen]
        omega)
      exact List.mem_map.mpr ⟨strlen m off, List.mem_range.mpr (by omega), nul⟩

/-! ## Dependence -/

theorem sameOn_cons :
    SameOn m m' ((off, n) :: rs) ↔ slice m off n = slice m' off n ∧ SameOn m m' rs :=
  List.forall_mem_cons

theorem sameOn_append : SameOn m m' (rs ++ ss) ↔ SameOn m m' rs ∧ SameOn m m' ss :=
  List.forall_mem_append

theorem eq_of_slice_eq {i : Nat} (same : slice m off n = slice m' off n) (inside : i < n) :
    m (off + i) = m' (off + i) :=
  List.map_inj_left.mp same i (List.mem_range.mpr inside)

/-- A part of a range. -/
theorem slice_part {k j : Nat} (same : slice m off n = slice m' off n) (inside : k + j ≤ n) :
    slice m (off + k) j = slice m' (off + k) j := by
  apply List.map_congr_left
  intro i member
  have before := List.mem_range.mp member
  rw [Nat.add_assoc]
  exact eq_of_slice_eq same (by omega)

theorem strnlen_congr {fuel : Nat}
    (same : ∀ i, i < strnlen m fuel off + 1 → m (off + i) = m' (off + i)) :
    strnlen m fuel off = strnlen m' fuel off := by
  induction fuel generalizing off with
  | zero => rfl
  | succ fuel ih =>
    have first := same 0 (Nat.succ_pos _)
    rw [Nat.add_zero] at first
    unfold strnlen at same ⊢
    rw [← first]
    split
    case isTrue => rfl
    case isFalse nonzero =>
      rw [if_neg nonzero] at same
      congr 1
      apply ih
      intro i inside
      have later := same (i + 1) (Nat.succ_lt_succ inside)
      rwa [Nat.add_comm i, ← Nat.add_assoc] at later

theorem strlen_congr (same : slice m off (strlen m off + 1) = slice m' off (strlen m off + 1)) :
    strlen m off = strlen m' off :=
  strnlen_congr fun _ inside => eq_of_slice_eq same inside

theorem cstring_congr (same : slice m off (strlen m off + 1) = slice m' off (strlen m off + 1)) :
    cstring m off = cstring m' off := by
  have part := slice_part (k := 0) (j := strlen m off) same (by omega)
  rw [cstring, cstring, ← strlen_congr same]
  exact part

theorem be32_congr (same : slice m off 4 = slice m' off 4) : be32 m off = be32 m' off :=
  congrArg beNat same

/-! ## Stores -/

def stored (m : Mem) (pieces : List (Nat × List UInt8)) : Mem :=
  pieces.foldl (fun m piece => store m piece.1 piece.2) m

def Apart (a b : Nat × List UInt8) : Prop :=
  a.1 + a.2.length ≤ b.1 ∨ b.1 + b.2.length ≤ a.1

variable {a b : Nat × List UInt8} {pieces : List (Nat × List UInt8)}

theorem Apart.symm (apart : Apart a b) : Apart b a := Or.symm apart

theorem Apart.stands (apart : Apart a b) :
    StandsAt (store m a.1 a.2) b.1 b.2 ↔ StandsAt m b.1 b.2 := by
  rw [StandsAt, StandsAt, slice_store_of_disjoint (Or.symm apart)]

/-- What stands apart from all pieces is left. -/
theorem stored_stands (apart : ∀ piece ∈ pieces, Apart piece b) :
    StandsAt (stored m pieces) b.1 b.2 ↔ StandsAt m b.1 b.2 := by
  induction pieces generalizing m with
  | nil => rfl
  | cons piece rest ih =>
    obtain ⟨first, others⟩ := List.forall_mem_cons.mp apart
    exact (ih others).trans first.stands

theorem stands_of_apart (apart : pieces.Pairwise Apart) :
    ∀ piece ∈ pieces, StandsAt (stored m pieces) piece.1 piece.2 := by
  induction pieces generalizing m with
  | nil => exact fun piece none => absurd none List.not_mem_nil
  | cons first rest ih =>
    obtain ⟨away, later⟩ := List.pairwise_cons.mp apart
    refine List.forall_mem_cons.mpr ⟨?_, ih later⟩
    exact (stored_stands fun piece member => (away piece member).symm).mpr standsAt_store

end Cheops.Lib
