import Mathlib

/-! # Strings in a char array

An array of `size` bytes, and the string that a pointer into it stands for: the bytes up to the
next NUL.  An access outside the array fails.

`StringAt` names the string at a pointer.  It says how the strings behind the pointer, and those
after a write, come from it.
-/

namespace Cheops.Lib

/-! ## Searches in a string -/

/-- `strchr`, as an offset. -/
def strchr (s : List UInt8) (c : UInt8) : Option Nat := s.idxOf? c

/-- `strstr`, as an offset. -/
def strstr (s t : List UInt8) : Option Nat := s.tails.findIdx? (t <+: ·)

def toLower (c : UInt8) : UInt8 := if 65 ≤ c ∧ c ≤ 90 then c + 32 else c

/-- `strcasecmp` gives 0. -/
def SameIgnoringCase (s t : List UInt8) : Prop := s.map toLower = t.map toLower

instance (s t : List UInt8) : Decidable (SameIgnoringCase s t) :=
  inferInstanceAs (Decidable (_ = _))

variable {s t u v : List UInt8} {c x : UInt8} {i : Nat}

theorem takeWhile_ne (plain : c ∉ u) : (u ++ c :: v).takeWhile (· ≠ c) = u := by
  have other (x : UInt8) (member : x ∈ u) : decide (x ≠ c) = true :=
    decide_eq_true (ne_of_mem_of_not_mem member plain)
  rw [List.takeWhile_append_of_pos other, List.takeWhile_cons_of_neg (by simp), List.append_nil]

theorem strchr_some (found : strchr s c = some i) :
    ∃ u v, s = u ++ c :: v ∧ u.length = i ∧ c ∉ u := by
  obtain ⟨bound, here, before⟩ := List.idxOf?_eq_some_iff.mp found
  have length : (s.take i).length = i := List.length_take_of_le (Nat.le_of_lt bound)
  refine ⟨s.take i, s.drop (i + 1), ?_, length, fun member => ?_⟩
  · rw [← here, ← List.drop_eq_getElem_cons bound, List.take_append_drop]
  · obtain ⟨j, inside, same⟩ := List.mem_iff_getElem.mp member
    rw [List.getElem_take] at same
    exact before j (length ▸ inside) same

theorem strchr_none (missing : strchr s c = none) : c ∉ s := List.idxOf?_eq_none_iff.mp missing

/-- The first occurrence. -/
theorem strstr_some (found : strstr s t = some i) :
    ∃ u v, s = u ++ t ++ v ∧ u.length = i ∧
      ∀ u' v', s = u' ++ t ++ v' → u.length ≤ u'.length := by
  obtain ⟨bound, here, before⟩ := List.findIdx?_eq_some_iff_getElem.mp found
  rw [List.length_tails] at bound
  rw [List.getElem_tails] at here
  obtain ⟨v, rest⟩ := of_decide_eq_true here
  have length : (s.take i).length = i := List.length_take_of_le (Nat.le_of_lt_succ bound)
  refine ⟨s.take i, v, ?_, length, fun u' v' split => ?_⟩
  · rw [List.append_assoc, rest, List.take_append_drop]
  · rw [length]
    by_contra earlier
    have other := before u'.length (Nat.lt_of_not_le earlier)
    rw [List.getElem_tails, decide_eq_true_eq] at other
    refine other ⟨v', ?_⟩
    rw [split, List.append_assoc, List.drop_left]

theorem strstr_none (missing : strstr s t = none) : ¬ t <:+: s := by
  rintro ⟨u, v, rfl⟩
  have tail : t ++ v ∈ (u ++ t ++ v).tails :=
    (List.mem_tails _ _).mpr ⟨u, (List.append_assoc u t v).symm⟩
  have other := List.findIdx?_eq_none_iff.mp missing (t ++ v) tail
  exact of_decide_eq_false other ⟨v, rfl⟩

/-! ## The array -/

structure CharArray (size : Nat) where
  bytes : List UInt8
  length : bytes.length = size

namespace CharArray

variable {size : Nat} {buf buf' : CharArray size} {p : Nat}

/-- `read` stores bytes at the beginning. -/
def fill (buf : CharArray size) (bs : List UInt8) (fits : bs.length ≤ size) : CharArray size where
  bytes := bs ++ buf.bytes.drop bs.length
  length := by rw [List.length_append, List.length_drop, buf.length]; omega

def write (buf : CharArray size) (p : Nat) (c : UInt8) : Option (CharArray size) :=
  if p < size then some ⟨buf.bytes.set p c, by rw [List.length_set, buf.length]⟩ else none

/-- The string at a pointer.  It fails if there is no NUL up to the end of the array. -/
def string (buf : CharArray size) (p : Nat) : Option (List UInt8) :=
  let rest := buf.bytes.drop p
  if 0 ∈ rest then some (rest.takeWhile (· ≠ 0)) else none

def StringAt (buf : CharArray size) (p : Nat) (s : List UInt8) : Prop :=
  ∃ front back, buf.bytes = front ++ s ++ 0 :: back ∧ front.length = p ∧ 0 ∉ s

theorem write_of_lt (buf : CharArray size) (inside : p < size) (x : UInt8) :
    ∃ buf', buf.write p x = some buf' ∧ buf'.bytes = buf.bytes.set p x :=
  ⟨_, if_pos inside, rfl⟩

theorem StringAt.string (at_ : StringAt buf p s) : buf.string p = some s := by
  obtain ⟨front, back, bytes, rfl, plain⟩ := at_
  have rest : buf.bytes.drop front.length = s ++ 0 :: back := by
    rw [bytes, List.append_assoc, List.drop_left]
  simp only [CharArray.string, rest, takeWhile_ne plain]
  exact if_pos (by simp)

theorem StringAt.behind (at_ : StringAt buf p (u ++ v)) : StringAt buf (p + u.length) v := by
  obtain ⟨front, back, bytes, rfl, plain⟩ := at_
  refine ⟨front ++ u, back, ?_, List.length_append, fun member => plain ?_⟩
  · rw [bytes]
    simp only [List.append_assoc]
  · exact List.mem_append_right u member

/-- A write into the string; a NUL cuts it. -/
theorem StringAt.write (at_ : StringAt buf p (u ++ c :: v)) (x : UInt8) :
    ∃ buf', buf.write (p + u.length) x = some buf' ∧
      (x ≠ 0 → StringAt buf' p (u ++ x :: v)) ∧ (x = 0 → StringAt buf' p u) := by
  obtain ⟨front, back, bytes, rfl, plain⟩ := at_
  have inside : front.length + u.length < size := by
    rw [← buf.length, bytes]
    simp only [List.length_append, List.length_cons]
    omega
  have written : buf.bytes.set (front.length + u.length) x =
      front ++ u ++ x :: (v ++ 0 :: back) := by
    rw [bytes, ← List.length_append, show front ++ (u ++ c :: v) ++ 0 :: back =
      (front ++ u) ++ c :: (v ++ 0 :: back) by simp, List.set_append_right _ _ (Nat.le_refl _),
      Nat.sub_self, List.set_cons_zero]
  have plain_front : 0 ∉ u := fun member => plain (List.mem_append_left _ member)
  have plain_back : 0 ∉ v := fun member => plain (by simp [member])
  obtain ⟨buf', writes, bytes'⟩ := buf.write_of_lt inside x
  rw [written] at bytes'
  refine ⟨buf', writes, fun other => ?_, fun zero => ?_⟩
  · refine ⟨front, back, ?_, rfl, ?_⟩
    · rw [bytes']
      simp only [List.append_assoc, List.cons_append]
    · simp only [List.mem_append, List.mem_cons, not_or]
      exact ⟨plain_front, Ne.symm other, plain_back⟩
  · subst zero
    exact ⟨front, v ++ 0 :: back, bytes', rfl, plain_front⟩

/-- What has been read, with a NUL behind it. -/
theorem stringAt_fill (buf : CharArray size) {bs : List UInt8} (fits : bs.length ≤ size)
    (room : bs.length < size) :
    ∃ buf', (buf.fill bs fits).write bs.length 0 = some buf' ∧
      StringAt buf' 0 (bs.takeWhile (· ≠ 0)) := by
  have written : (buf.fill bs fits).bytes.set bs.length 0 =
      bs ++ 0 :: buf.bytes.drop (bs.length + 1) := by
    have rest := List.drop_eq_getElem_cons (room.trans_eq buf.length.symm)
    rw [fill, List.set_append_right _ _ (Nat.le_refl _), Nat.sub_self, rest, List.set_cons_zero]
  have plain : 0 ∉ bs.takeWhile (· ≠ 0) := fun member => by
    simpa using List.mem_takeWhile_imp member
  obtain ⟨buf', writes, bytes'⟩ := (buf.fill bs fits).write_of_lt room 0
  rw [written] at bytes'
  refine ⟨buf', writes, ?_⟩
  cases rest : bs.dropWhile (· ≠ 0) with
  | nil =>
    have whole : bs.takeWhile (· ≠ 0) = bs := by
      conv_rhs => rw [← List.takeWhile_append_dropWhile (p := (· ≠ 0)) (l := bs), rest]
      rw [List.append_nil]
    exact ⟨[], buf.bytes.drop (bs.length + 1), by rw [bytes', whole, List.nil_append], rfl, plain⟩
  | cons c back =>
    obtain rfl : c = 0 := by
      have stop := List.head?_dropWhile_not (· ≠ 0) bs
      rw [rest] at stop
      simpa using stop
    refine ⟨[], back ++ 0 :: buf.bytes.drop (bs.length + 1), ?_, rfl, plain⟩
    have split : bs = bs.takeWhile (· ≠ 0) ++ 0 :: back := by
      rw [← rest, List.takeWhile_append_dropWhile]
    rw [bytes', List.nil_append]
    generalize buf.bytes.drop (bs.length + 1) = behind
    conv_lhs => rw [split]
    simp only [List.append_assoc, List.cons_append]

end CharArray

end Cheops.Lib
