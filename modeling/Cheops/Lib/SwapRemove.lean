import Mathlib

/-! # Tables in arrays

The first `n` values of an array as a list.  An entry is removed by moving the last one into its
place (`swapRemove_perm`); where entries are distinct, this takes just that entry away
(`mem_iff_of_perm_cons`).
-/

namespace Cheops.Lib

variable {α : Type*} {f g : Nat → α} {n i : Nat} {a : α}

def entries (f : Nat → α) (n : Nat) : List α := (List.range n).map f

@[simp] theorem length_entries : (entries f n).length = n := by simp [entries]

@[simp] theorem mem_entries : a ∈ entries f n ↔ ∃ i < n, f i = a := by
  simp only [entries, List.mem_map, List.mem_range]

theorem entries_succ : entries f (n + 1) = entries f n ++ [f n] := by
  simp [entries, List.range_succ]

theorem entries_congr (h : ∀ i < n, f i = g i) : entries f n = entries g n :=
  List.map_congr_left fun i hi => h i (List.mem_range.mp hi)

theorem entries_update :
    entries (Function.update f i a) n = (entries f n).set i a := by
  refine List.ext_getElem (by simp) fun j hj hj' => ?_
  rw [List.getElem_set]
  by_cases hij : i = j
  · subst hij
    simp [entries]
  · simp [entries, hij, Function.update_of_ne (Ne.symm hij)]

/-- Writing behind the entries does not change them. -/
theorem entries_update_of_le (h : n ≤ i) : entries (Function.update f i a) n = entries f n :=
  entries_congr fun j hj => Function.update_of_ne (by omega) _ _

/-- The last entry in place of entry `i`. -/
theorem swapRemove_perm (h : i < n + 1) :
    (f i :: entries (Function.update f i (f n)) n).Perm (entries f (n + 1)) := by
  rw [entries_succ]
  by_cases hin : i = n
  · subst hin
    rw [entries_update_of_le (Nat.le_refl _)]
    exact (List.perm_append_singleton _ _).symm
  · have hlt : i < (entries f n).length := by
      rw [length_entries]
      omega
    have hget : (entries f n)[i] = f i := by simp [entries]
    rw [entries_update]
    have hset := (List.set_perm_cons_eraseIdx hlt (f n)).cons (f i)
    have hall := (List.getElem_cons_eraseIdx_perm hlt).cons (f n)
    rw [hget] at hall
    exact (hset.trans (.swap _ _ _)).trans (hall.trans (List.perm_append_singleton _ _).symm)

/-- What is left when an element is taken out of a list without duplicates. -/
theorem mem_iff_of_perm_cons {l l' : List α} (h : (a :: l').Perm l) (hl : l.Nodup) {b : α} :
    b ∈ l' ↔ b ∈ l ∧ b ≠ a := by
  have hfree := (List.nodup_cons.mp (h.nodup_iff.mpr hl)).1
  rw [← h.mem_iff, List.mem_cons]
  constructor
  · exact fun hb => ⟨.inr hb, fun heq => hfree (heq ▸ hb)⟩
  · exact fun ⟨hb, hne⟩ => hb.resolve_left hne

end Cheops.Lib
