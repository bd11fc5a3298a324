import Mathlib

/-! # Lists of records as maps

A list of records with a key each is a map from keys to records as long as no key stands in it
twice.  Every change of such a list puts in, takes out or replaces one record in the middle.
-/

namespace Cheops.Lib.Keyed

variable {α κ : Type*} {key : α → κ} {l l₁ l₂ : List α} {a b : α} {k : κ}

def Distinct (key : α → κ) (l : List α) : Prop := (l.map key).Nodup

theorem Distinct.middle : Distinct key (l₁ ++ a :: l₂) ↔
    Distinct key (l₁ ++ l₂) ∧ ∀ b ∈ l₁ ++ l₂, key b ≠ key a := by
  have moved : ((l₁ ++ a :: l₂).map key).Perm (key a :: (l₁ ++ l₂).map key) := by
    simp
  unfold Distinct
  rw [moved.nodup_iff, List.nodup_cons, and_comm]
  apply and_congr Iff.rfl
  rw [List.mem_map]
  push Not
  exact Iff.rfl

theorem Distinct.eq (distinct : Distinct key l) (left : a ∈ l) (right : b ∈ l)
    (same : key a = key b) : a = b :=
  List.inj_on_of_nodup_map distinct left right same

variable [DecidableEq κ]

instance : Decidable (Distinct key l) := inferInstanceAs (Decidable (List.Nodup _))

def lookup (key : α → κ) (l : List α) (k : κ) : Option α := l.find? (key · = k)

theorem lookup_eq_none : lookup key l k = none ↔ ∀ a ∈ l, key a ≠ k := by
  simp [lookup]

theorem key_of_lookup (found : lookup key l k = some a) : key a = k := by
  simpa using List.find?_some found

theorem mem_of_lookup (found : lookup key l k = some a) : a ∈ l :=
  List.mem_of_find?_eq_some found

theorem Distinct.lookup (distinct : Distinct key l) (member : a ∈ l) :
    Keyed.lookup key l (key a) = some a := by
  cases found : Keyed.lookup key l (key a) with
  | none => cases lookup_eq_none.mp found a member rfl
  | some b => rw [distinct.eq (mem_of_lookup found) member (key_of_lookup found)]

/-- A record in the middle is found under its key, and only there. -/
theorem lookup_middle (distinct : Distinct key (l₁ ++ a :: l₂)) :
    lookup key (l₁ ++ a :: l₂) k = if k = key a then some a else lookup key (l₁ ++ l₂) k := by
  split
  next same =>
    rw [same]
    exact distinct.lookup (by simp)
  next other =>
    unfold lookup
    rw [List.find?_append, List.find?_append, List.find?_cons_of_neg]
    simpa using Ne.symm other

theorem split_of_find? {p : α → Bool} (found : l.find? p = some a) :
    ∃ l₁ l₂, l = l₁ ++ a :: l₂ ∧ l.eraseP p = l₁ ++ l₂ := by
  obtain ⟨holds, l₁, l₂, rfl, before⟩ := List.find?_eq_some_iff_append.mp found
  have before' : ∀ b ∈ l₁, ¬ p b = true := fun b member => by simpa using before b member
  refine ⟨l₁, l₂, rfl, ?_⟩
  rw [List.eraseP_append_right _ before', List.eraseP_cons_of_pos holds]

theorem eraseP_middle (distinct : Distinct key (l₁ ++ a :: l₂)) :
    (l₁ ++ a :: l₂).eraseP (key · = key a) = l₁ ++ l₂ := by
  have others := (Distinct.middle.mp distinct).2
  rw [List.eraseP_append_right, List.eraseP_cons_of_pos (by simp)]
  intro b member
  simpa using others b (List.mem_append_left _ member)

/-- A write through the name of a record changes that record. -/
theorem map_write_middle (distinct : Distinct key (l₁ ++ a :: l₂)) (f : α → α) :
    (l₁ ++ a :: l₂).map (fun b => if key b = key a then f b else b) = l₁ ++ f a :: l₂ := by
  have others := (Distinct.middle.mp distinct).2
  have kept : ∀ l' : List α, (∀ b ∈ l', b ∈ l₁ ++ l₂) →
      l'.map (fun b => if key b = key a then f b else b) = l' := by
    intro l' inside
    conv_rhs => rw [← List.map_id l']
    apply List.map_congr_left
    intro b member
    rw [if_neg (others b (inside b member))]
    rfl
  rw [List.map_append, List.map_cons, if_pos rfl, kept l₁ fun b member => by simp [member],
    kept l₂ fun b member => by simp [member]]

end Cheops.Lib.Keyed
