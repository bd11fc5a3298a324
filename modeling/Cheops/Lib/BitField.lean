import Mathlib

/-! # Fields of a word

A word is rebuilt field by field: clear the bits of a mask, then set the field's value.
-/

namespace Cheops.Lib

variable {w : Nat}

def setField (word mask value : BitVec w) : BitVec w := word &&& ~~~mask ||| value

def setFields (word : BitVec w) (fields : List (BitVec w × BitVec w)) : BitVec w :=
  fields.foldl (fun word field => setField word field.1 field.2) word

variable {word mask value other : BitVec w}

/-- `if(b) word |= mask; else word &= ~mask;` -/
theorem setField_ite (b : Prop) [Decidable b] :
    (if b then word ||| mask else word &&& ~~~mask) =
      setField word mask (if b then mask else 0) := by
  unfold setField
  split
  · ext i bound
    simp only [BitVec.getElem_or, BitVec.getElem_and, BitVec.getElem_not]
    cases word[i] <;> cases mask[i] <;> rfl
  · simp

theorem setField_and_mask (inside : value &&& mask = value) :
    setField word mask value &&& mask = value := by
  rw [← inside]
  unfold setField
  ext i bound
  simp only [BitVec.getElem_or, BitVec.getElem_and, BitVec.getElem_not]
  cases word[i] <;> cases mask[i] <;> cases value[i] <;> rfl

/-- A write leaves the fields disjoint from it alone. -/
theorem setField_and_other (inside : value &&& mask = value) (disjoint : mask &&& other = 0) :
    setField word mask value &&& other = word &&& other := by
  rw [← inside]
  unfold setField
  ext i bound
  have apart : (mask &&& other)[i] = false := by simp [disjoint]
  simp only [BitVec.getElem_or, BitVec.getElem_and, BitVec.getElem_not] at apart ⊢
  revert apart
  cases word[i] <;> cases mask[i] <;> cases value[i] <;> cases other[i] <;> decide

theorem setFields_and_other {fields : List (BitVec w × BitVec w)}
    (inside : ∀ field ∈ fields, field.2 &&& field.1 = field.2)
    (disjoint : ∀ field ∈ fields, field.1 &&& other = 0) :
    setFields word fields &&& other = word &&& other := by
  induction fields generalizing word with
  | nil => rfl
  | cons field fields ih =>
    rw [List.forall_mem_cons] at inside disjoint
    change setFields (setField word field.1 field.2) fields &&& other = _
    rw [ih inside.2 disjoint.2, setField_and_other inside.1 disjoint.1]

/-- Disjoint fields all keep what was written. -/
theorem setFields_and_mask {fields : List (BitVec w × BitVec w)}
    (inside : ∀ field ∈ fields, field.2 &&& field.1 = field.2)
    (disjoint : fields.Pairwise fun field later => later.1 &&& field.1 = 0) :
    ∀ field ∈ fields, setFields word fields &&& field.1 = field.2 := by
  induction fields generalizing word with
  | nil =>
    intro field member
    cases member
  | cons first fields ih =>
    rw [List.forall_mem_cons] at inside
    rw [List.pairwise_cons] at disjoint
    intro field member
    change setFields (setField word first.1 first.2) fields &&& field.1 = field.2
    cases member with
    | head => rw [setFields_and_other inside.2 disjoint.1, setField_and_mask inside.1]
    | tail _ member => exact ih inside.2 disjoint.2 field member

end Cheops.Lib
