import Mathlib

/-! # Key-value stores

`written c writes` is a store after values have been set, one after the other.

A record is written field by field, and a field that has no value is left out (`record`).  Where
the records of a list are written with their numbers in the keys (`numbered`), a key of one record
is read as if no other had been written.
-/

namespace Cheops.Lib

variable {κ κ' ν α φ : Type*}

section Store

variable [DecidableEq κ] [DecidableEq κ'] {c c' : κ → Option ν} {k : κ} {v : ν}
  {ws vs : List (κ × ν)}

def written (c : κ → Option ν) (writes : List (κ × ν)) : κ → Option ν :=
  writes.foldl (fun c write => Function.update c write.1 (some write.2)) c

@[simp] theorem written_nil : written c [] = c := rfl

@[simp] theorem written_cons :
    written c ((k, v) :: ws) = written (Function.update c k (some v)) ws := rfl

theorem written_append : written c (ws ++ vs) = written (written c ws) vs := List.foldl_append

/-- A key that is not written keeps its value. -/
theorem written_of_ne (other : ∀ write ∈ ws, write.1 ≠ k) : written c ws k = c k := by
  induction ws generalizing c with
  | nil => rfl
  | cons write ws ih =>
    obtain ⟨first, rest⟩ := List.forall_mem_cons.mp other
    rw [written, List.foldl_cons, ← written, ih rest, Function.update_of_ne first.symm]

/-- What is read of a key depends on its value before and on the writes only. -/
theorem written_congr (same : c k = c' k) : written c ws k = written c' ws k := by
  induction ws generalizing c c' with
  | nil => exact same
  | cons write ws ih =>
    obtain ⟨k', v'⟩ := write
    rw [written_cons, written_cons]
    apply ih
    by_cases here : k = k'
    case pos => rw [here, Function.update_self, Function.update_self]
    case neg => rw [Function.update_of_ne here, Function.update_of_ne here, same]

/-- Where values are set for one key, the last is kept. -/
theorem written_last (f : α → ν) (xs : List α) :
    written c (xs.map fun x => (k, f x)) k = (xs.getLast?.map f).or (c k) := by
  induction xs generalizing c with
  | nil => rfl
  | cons x xs ih =>
    rw [List.map_cons, written_cons, ih, Function.update_self, List.getLast?_cons]
    cases xs.getLast? <;> rfl

/-- Keys may be named by anything that tells them apart. -/
theorem written_map {f : κ → κ'} (injective : Function.Injective f) {c : κ' → Option ν} :
    written c (ws.map (Prod.map f id)) (f k) = written (c ∘ f) ws k := by
  induction ws generalizing c with
  | nil => rfl
  | cons write ws ih =>
    obtain ⟨k', v'⟩ := write
    rw [List.map_cons, Prod.map_apply, written_cons, ih, written_cons]
    apply written_congr
    by_cases here : k = k'
    case pos => rw [here, Function.comp_apply, Function.update_self, Function.update_self, id]
    case neg =>
      have other : f k ≠ f k' := injective.ne here
      rw [Function.comp_apply, Function.update_of_ne other, Function.update_of_ne here,
        Function.comp_apply]

end Store

/-! ## Records -/

def record (key : φ → κ) (value : φ → Option ν) (fields : List φ) : List (κ × ν) :=
  fields.filterMap fun f => (value f).map (key f, ·)

/-- What is written for each record of a list, when the first has the number `n`. -/
def numbered (writes : Nat → α → List (κ × ν)) : Nat → List α → List (κ × ν)
  | _, [] => []
  | n, x :: xs => writes n x ++ numbered writes (n + 1) xs

section Record

variable {key : φ → κ} {value : φ → Option ν} {fields : List φ} {f : φ}

theorem mem_record {write : κ × ν} (member : write ∈ record key value fields) :
    ∃ f ∈ fields, write.1 = key f := by
  obtain ⟨f, listed, v, -, rfl⟩ := by simpa [record] using member
  exact ⟨f, listed, rfl⟩

variable [DecidableEq κ] {c : κ → Option ν}

/-- A field is read as it has been written, or as it was before if it has no value. -/
theorem written_record (injective : Function.Injective key) (member : f ∈ fields) :
    written c (record key value fields) (key f) = (value f).or (c (key f)) := by
  induction fields generalizing c with
  | nil => cases member
  | cons g fields ih =>
    by_cases later : f ∈ fields
    case pos =>
      cases first : value g with
      | none =>
        rw [record, List.filterMap_cons, first]
        exact ih later
      | some v =>
        rw [record, List.filterMap_cons, first]
        simp only [Option.map_some, written_cons]
        rw [← record, ih later]
        by_cases here : f = g
        case pos =>
          rw [here, first]
          rfl
        case neg => rw [Function.update_of_ne (injective.ne here)]
    case neg =>
      obtain rfl : f = g := (List.mem_cons.mp member).resolve_right later
      have apart (c : κ → Option ν) :
          written c (record key value fields) (key f) = c (key f) := by
        refine written_of_ne fun write written same => later ?_
        obtain ⟨g, listed, key_eq⟩ := mem_record written
        rwa [← injective (key_eq.symm.trans same)]
      cases first : value f with
      | none =>
        rw [record, List.filterMap_cons, first]
        exact apart c
      | some v =>
        rw [record, List.filterMap_cons, first]
        simp only [Option.map_some, written_cons]
        rw [← record, apart, Function.update_self]
        rfl

end Record

section Numbered

variable {writes : Nat → α → List (κ × ν)} {number : κ → Option Nat}

theorem mem_numbered {write : κ × ν} {n : Nat} {xs : List α}
    (member : write ∈ numbered writes n xs) : ∃ i x, write ∈ writes i x := by
  induction xs generalizing n with
  | nil => cases member
  | cons x xs ih =>
    rcases List.mem_append.mp member with here | later
    · exact ⟨n, x, here⟩
    · exact ih later

/-- The keys of a list of records have the numbers of the records. -/
theorem number_of_mem (own : ∀ n x, ∀ write ∈ writes n x, number write.1 = some n) {n : Nat}
    {xs : List α} : ∀ write ∈ numbered writes n xs, ∃ i, n ≤ i ∧ number write.1 = some i := by
  induction xs generalizing n with
  | nil =>
    intro write none
    cases none
  | cons x xs ih =>
    intro write member
    rcases List.mem_append.mp member with here | later
    · exact ⟨n, le_refl n, own n x write here⟩
    · obtain ⟨i, le, same⟩ := ih write later
      exact ⟨i, by omega, same⟩

variable [DecidableEq κ] {c : κ → Option ν} {k : κ}

/-- A key with the number of a record is read as that record has written it. -/
theorem written_numbered (own : ∀ n x, ∀ write ∈ writes n x, number write.1 = some n)
    {n i : Nat} {xs : List α} (numberOf : number k = some (n + i)) :
    written c (numbered writes n xs) k =
      match xs[i]? with
      | some x => written c (writes (n + i) x) k
      | none => c k := by
  induction xs generalizing n i c with
  | nil => rfl
  | cons x xs ih =>
    rw [numbered, written_append]
    cases i with
    | zero =>
      rw [List.getElem?_cons_zero]
      apply written_of_ne
      rintro write later rfl
      obtain ⟨j, le, same⟩ := number_of_mem own write later
      rw [numberOf, Option.some.injEq] at same
      omega
    | succ i =>
      have before : written c (writes n x) k = c k := by
        apply written_of_ne
        rintro write here rfl
        have same := own n x write here
        rw [numberOf, Option.some.injEq] at same
        omega
      have place : n + (i + 1) = n + 1 + i := by omega
      rw [place] at numberOf ⊢
      rw [ih numberOf, List.getElem?_cons_succ]
      cases xs[i]? with
      | none => exact before
      | some y => exact written_congr before

end Numbered

end Cheops.Lib
