import Mathlib

/-! # Stable insertion

`stableInsert before x l` puts `x` in front of the first element of `l` that `x` is
strictly `before`, and so behind its equals.  `stableInsert_pairwise` is the rule for
keeping a list ordered: the order may be finer than `before`, as long as it places the
new element behind the elements it is not before.
-/

namespace Cheops.Lib

variable {α : Type*} {before : α → α → Bool} {x y : α} {l : List α}

/-- Insert `x` in front of the first element that it is strictly before. -/
def stableInsert (before : α → α → Bool) (x : α) : List α → List α
  | [] => [x]
  | y :: ys => if before x y then x :: y :: ys else y :: stableInsert before x ys

theorem stableInsert_perm (before : α → α → Bool) (x : α) :
    ∀ l : List α, (stableInsert before x l).Perm (x :: l)
  | [] => .refl _
  | y :: ys => by
    simp only [stableInsert]
    split
    · exact .refl _
    · exact ((stableInsert_perm before x ys).cons y).trans (.swap x y ys)

@[simp] theorem mem_stableInsert : y ∈ stableInsert before x l ↔ y = x ∨ y ∈ l := by
  rw [(stableInsert_perm before x l).mem_iff, List.mem_cons]

@[simp] theorem length_stableInsert : (stableInsert before x l).length = l.length + 1 :=
  (stableInsert_perm before x l).length_eq

/-- An order `R` on the list is kept when `R` agrees with `before` on the new element,
    continues through it, and puts it behind whatever it is not before. -/
theorem stableInsert_pairwise {R : α → α → Prop} (ordered : l.Pairwise R)
    (front : ∀ y ∈ l, before x y = true → R x y)
    (through : ∀ y z, before x y = true → R y z → R x z)
    (behind : ∀ y ∈ l, before x y = false → R y x) :
    (stableInsert before x l).Pairwise R := by
  induction l with
  | nil => simp [stableInsert]
  | cons y ys ih =>
    obtain ⟨hy, hys⟩ := List.pairwise_cons.mp ordered
    simp only [stableInsert]
    split
    next hlt =>
      refine List.pairwise_cons.mpr ⟨fun z hz => ?_, ordered⟩
      rcases List.mem_cons.mp hz with rfl | hz
      · exact front z (by simp) hlt
      · exact through y z hlt (hy z hz)
    next hge =>
      refine List.pairwise_cons.mpr ⟨fun z hz => ?_, ih hys ?_ ?_⟩
      · rcases mem_stableInsert.mp hz with rfl | hz
        · exact behind y (by simp) (by simpa using hge)
        · exact hy z hz
      · exact fun z hz => front z (by simp [hz])
      · exact fun z hz => behind z (by simp [hz])

end Cheops.Lib
