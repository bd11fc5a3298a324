import Mathlib

/-! # The order of a list

`Before l x y` says that the list `l` has `x` at a place before `y`.
-/

namespace Cheops.Lib

variable {α : Type*} {l : List α} {a x y : α}

def Before (l : List α) (x y : α) : Prop := [x, y].Sublist l

instance [DecidableEq α] : Decidable (Before l x y) :=
  inferInstanceAs (Decidable (List.Sublist _ _))

theorem before_cons : Before (a :: l) x y ↔ (x = a ∧ y ∈ l) ∨ Before l x y := by
  unfold Before
  rw [List.sublist_cons_iff]
  constructor
  · rintro (here | ⟨r, same, rest⟩)
    · exact .inr here
    · cases same
      exact .inl ⟨rfl, List.singleton_sublist.mp rest⟩
  · rintro (⟨rfl, member⟩ | here)
    · exact .inr ⟨[y], rfl, List.singleton_sublist.mpr member⟩
    · exact .inl here

theorem Before.left (before : Before l x y) : x ∈ l := before.subset (.head _)

theorem Before.right (before : Before l x y) : y ∈ l := before.subset (.tail _ (.head _))

/-- Nothing stands before the head. -/
theorem not_before_head (fresh : a ∉ l) : ¬ Before (a :: l) x a := by
  rw [before_cons]
  rintro (⟨-, member⟩ | before)
  · exact fresh member
  · exact fresh before.right

theorem before_tail (other : x ≠ a) : Before (a :: l) x y ↔ Before l x y := by
  rw [before_cons]
  exact or_iff_right fun here => other here.1

theorem before_filter {f : α → Bool} :
    Before (l.filter f) x y ↔ Before l x y ∧ f x ∧ f y := by
  constructor
  · intro before
    exact ⟨before.trans List.filter_sublist, (List.mem_filter.mp before.left).2,
      (List.mem_filter.mp before.right).2⟩
  · rintro ⟨before, first, second⟩
    have kept : [x, y].filter f = [x, y] := by simp [first, second]
    unfold Before
    rw [← kept]
    exact before.filter f

end Cheops.Lib
