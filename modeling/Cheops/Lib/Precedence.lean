import Mathlib

/-! # Precedence in histories

`Preceded permit guarded admitted l` says that nothing `guarded` happens in `l` before
something that permits it, unless it was `admitted` from the start.  It is defined along
the history, so that a history is checked piece by piece (`preceded_append`);
`preceded_iff` is what it means.

`Since set clear l` says that something in `l` has set a switch and nothing behind it has cleared
it: `since_snoc` is how the switch goes from one step to the next.
-/

namespace Cheops.Lib

variable {α β : Type*} {permit guarded : α → Prop} {admitted admitted' : Prop} {l m : List α}

/-- Every guarded element of the list comes after a permitting one. -/
def Preceded (permit guarded : α → Prop) : Prop → List α → Prop
  | _, [] => True
  | admitted, x :: xs => (guarded x → admitted) ∧ Preceded permit guarded (admitted ∨ permit x) xs

theorem Preceded.imp (himp : admitted → admitted') (h : Preceded permit guarded admitted l) :
    Preceded permit guarded admitted' l := by
  induction l generalizing admitted admitted' with
  | nil => trivial
  | cons x xs ih => exact ⟨fun hx => himp (h.1 hx), ih (Or.imp_left himp) h.2⟩

theorem preceded_append :
    Preceded permit guarded admitted (l ++ m) ↔
      Preceded permit guarded admitted l ∧
        Preceded permit guarded (admitted ∨ ∃ x ∈ l, permit x) m := by
  induction l generalizing admitted with
  | nil => simp [Preceded]
  | cons x xs ih =>
    have hor : (admitted ∨ ∃ y ∈ x :: xs, permit y) ↔
        ((admitted ∨ permit x) ∨ ∃ y ∈ xs, permit y) := by
      simp only [List.exists_mem_cons_iff, or_assoc]
    rw [List.cons_append, Preceded, Preceded, ih, hor, and_assoc]

theorem preceded_iff :
    Preceded permit guarded admitted l ↔
      ∀ pre x post, l = pre ++ x :: post → guarded x → admitted ∨ ∃ y ∈ pre, permit y := by
  constructor
  · rintro h pre x post rfl
    rw [preceded_append] at h
    exact h.2.1
  · intro h
    induction l generalizing admitted with
    | nil => trivial
    | cons x xs ih =>
      refine ⟨fun hx => ?_, ih fun pre y post hxs hy => ?_⟩
      · simpa using h [] x xs rfl hx
      · have := h (x :: pre) y post (by rw [hxs, List.cons_append]) hy
        rwa [List.exists_mem_cons_iff, ← or_assoc] at this

/-- Where nothing is guarded, nothing needs a permit. -/
theorem preceded_of_forall_not (h : ∀ x ∈ l, ¬ guarded x) :
    Preceded permit guarded admitted l :=
  preceded_iff.mpr fun pre x post hl hx => absurd hx (h x (by simp [hl]))

theorem preceded_map {f : β → α} {l : List β} :
    Preceded permit guarded admitted (l.map f) ↔
      Preceded (fun x => permit (f x)) (fun x => guarded (f x)) admitted l := by
  induction l generalizing admitted with
  | nil => exact Iff.rfl
  | cons x xs ih => rw [List.map_cons, Preceded, Preceded, ih]

/-! ## Switches -/

/-- Nothing has cleared the switch since it was set. -/
def Since (set clear : α → Prop) (l : List α) : Prop :=
  ∃ pre x post, l = pre ++ x :: post ∧ set x ∧ ∀ y ∈ post, ¬ clear y

variable {set clear : α → Prop} {x : α}

theorem since_nil : ¬ Since set clear [] := by
  rintro ⟨pre, x, post, empty, -⟩
  simp at empty

theorem since_snoc : Since set clear (l ++ [x]) ↔ set x ∨ Since set clear l ∧ ¬ clear x := by
  constructor
  · rintro ⟨pre, y, post, split, sets, kept⟩
    rcases List.eq_nil_or_concat post with rfl | ⟨post, z, rfl⟩
    · obtain ⟨-, last⟩ := List.append_inj' split rfl
      obtain rfl : x = y := by simpa using last
      exact .inl sets
    · rw [List.concat_eq_append, ← List.cons_append, ← List.append_assoc] at split
      obtain ⟨rfl, last⟩ := List.append_inj' split rfl
      obtain rfl : x = z := by simpa using last
      refine .inr ⟨⟨pre, y, post, rfl, sets, fun y' member => kept y' ?_⟩, kept x ?_⟩
      · simp [member]
      · simp
  · rintro (sets | ⟨⟨pre, y, post, rfl, sets, kept⟩, keeps⟩)
    · exact ⟨l, x, [], rfl, sets, by simp⟩
    · refine ⟨pre, y, post ++ [x], by simp, sets, fun y' member => ?_⟩
      rcases List.mem_append.mp member with early | last
      · exact kept y' early
      · rw [List.mem_singleton.mp last]
        exact keeps

end Cheops.Lib
