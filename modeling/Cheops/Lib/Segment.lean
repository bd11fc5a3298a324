import Mathlib

/-! # Linked lists in a heap

`heap` gives the records that are allocated, and `next` is the field of a record that points to
the next one.  `Seg heap next p xs q` says that the pointer `p` leads through the records at `xs`
to the pointer `q`.

A segment says nothing of the record that its last pointer refers to, so that it also describes a
list whose end dangles.
-/

namespace Cheops.Lib

variable {α : Type*} {heap heap' : Nat → Option α} {next : α → Option Nat}

def Seg (heap : Nat → Option α) (next : α → Option Nat) :
    Option Nat → List Nat → Option Nat → Prop
  | p, [], q => p = q
  | p, x :: xs, q => p = some x ∧ ∃ a, heap x = some a ∧ Seg heap next (next a) xs q

theorem Seg.allocated {p q : Option Nat} {xs : List Nat} (seg : Seg heap next p xs q) :
    ∀ x ∈ xs, ∃ a, heap x = some a := by
  induction xs generalizing p with
  | nil => exact nofun
  | cons y ys ih =>
    obtain ⟨-, a, allocated, rest⟩ := seg
    intro x member
    cases member with
    | head => exact ⟨a, allocated⟩
    | tail _ member => exact ih rest x member

theorem Seg.fresh {p q : Option Nat} {xs : List Nat} (seg : Seg heap next p xs q) {x : Nat}
    (free : heap x = none) : x ∉ xs := fun member => by
  obtain ⟨a, allocated⟩ := seg.allocated x member
  rw [free] at allocated
  cases allocated

/-- A segment only depends on the pointers in its records. -/
theorem Seg.congr {p q : Option Nat} {xs : List Nat} (seg : Seg heap next p xs q)
    (same : ∀ x ∈ xs, ∀ a, heap x = some a → ∃ a', heap' x = some a' ∧ next a' = next a) :
    Seg heap' next p xs q := by
  induction xs generalizing p with
  | nil => exact seg
  | cons y ys ih =>
    obtain ⟨head, a, allocated, rest⟩ := seg
    obtain ⟨a', allocated', pointer⟩ := same y (.head _) a allocated
    refine ⟨head, a', allocated', ?_⟩
    rw [pointer]
    exact ih rest fun x member => same x (.tail _ member)

/-- A write to a record that is not in the segment. -/
theorem Seg.update {p q : Option Nat} {xs : List Nat} (seg : Seg heap next p xs q) {x : Nat}
    (apart : x ∉ xs) (a : Option α) : Seg (Function.update heap x a) next p xs q := by
  refine seg.congr fun y member b allocated => ⟨b, ?_, rfl⟩
  rw [Function.update_of_ne (ne_of_mem_of_not_mem member apart)]
  exact allocated

theorem Seg.append_iff {p q : Option Nat} {xs ys : List Nat} :
    Seg heap next p (xs ++ ys) q ↔ ∃ m, Seg heap next p xs m ∧ Seg heap next m ys q := by
  induction xs generalizing p with
  | nil => exact ⟨fun seg => ⟨p, rfl, seg⟩, fun ⟨m, here, seg⟩ => here ▸ seg⟩
  | cons x xs ih =>
    constructor
    · rintro ⟨head, a, allocated, rest⟩
      obtain ⟨m, first, second⟩ := ih.mp rest
      exact ⟨m, ⟨head, a, allocated, first⟩, second⟩
    · rintro ⟨m, ⟨head, a, allocated, first⟩, second⟩
      exact ⟨head, a, allocated, ih.mpr ⟨m, first, second⟩⟩

theorem Seg.nil_of_none {q : Option Nat} {xs : List Nat} (seg : Seg heap next none xs q) :
    xs = [] ∧ q = none := by
  cases xs with
  | nil => exact ⟨rfl, seg.symm⟩
  | cons x xs => cases seg.1

theorem Seg.eq_head? {p : Option Nat} {xs : List Nat} (seg : Seg heap next p xs none) :
    p = xs.head? := by
  cases xs with
  | nil => exact seg
  | cons x xs => exact seg.1

/-- The last pointer of a segment is set. -/
theorem Seg.redirect {p q q' : Option Nat} {pre : List Nat} {y : Nat} {b : α}
    (seg : Seg heap next p (pre ++ [y]) q) (edited : heap' y = some b) (pointer : next b = q')
    (same : ∀ z ∈ pre, ∀ c, heap z = some c → ∃ c', heap' z = some c' ∧ next c' = next c) :
    Seg heap' next p (pre ++ [y]) q' := by
  obtain ⟨m, first, head, -⟩ := append_iff.mp seg
  exact append_iff.mpr ⟨m, first.congr same, head, b, edited, pointer⟩

/-- `x` is taken out of a list by an edit of the record before it. -/
theorem Seg.unlink {p q : Option Nat} {pre post : List Nat} {x y : Nat} {a b : α}
    (seg : Seg heap next p (pre ++ y :: x :: post) q) (removed : heap x = some a)
    (edited : heap' y = some b) (pointer : next b = next a)
    (same : ∀ z ∈ pre ++ post, ∀ c, heap z = some c → ∃ c', heap' z = some c' ∧ next c' = next c) :
    Seg heap' next p (pre ++ y :: post) q := by
  obtain ⟨m, first, head, c, -, -, a', removed', rest⟩ := append_iff.mp seg
  cases removed.symm.trans removed'
  refine append_iff.mpr ⟨m, first.congr ?_, head, b, edited, ?_⟩
  · exact fun z member => same z (List.mem_append_left _ member)
  · rw [pointer]
    exact rest.congr fun z member => same z (List.mem_append_right _ member)

/-- The records that a list runs through are given by its first pointer. -/
theorem Seg.unique {p : Option Nat} {xs ys : List Nat} (seg : Seg heap next p xs none)
    (other : Seg heap next p ys none) : xs = ys := by
  induction xs generalizing p ys with
  | nil =>
    obtain rfl : p = none := seg
    exact (other.nil_of_none).1.symm
  | cons x xs ih =>
    obtain ⟨rfl, a, allocated, rest⟩ := seg
    cases ys with
    | nil => cases other
    | cons y ys =>
      obtain ⟨head, b, allocated', rest'⟩ := other
      cases head
      cases allocated.symm.trans allocated'
      rw [ih rest rest']

/-- A list that ends runs through no record twice. -/
theorem Seg.nodup {p : Option Nat} {xs : List Nat} (seg : Seg heap next p xs none) : xs.Nodup := by
  induction xs generalizing p with
  | nil => exact List.nodup_nil
  | cons x xs ih =>
    obtain ⟨head, a, allocated, rest⟩ := seg
    refine List.nodup_cons.mpr ⟨fun member => ?_, ih rest⟩
    obtain ⟨front, back, rfl⟩ := List.append_of_mem member
    obtain ⟨m, -, again⟩ := Seg.append_iff.mp rest
    have whole : Seg heap next (some x) (x :: (front ++ x :: back)) none :=
      ⟨rfl, a, allocated, rest⟩
    have length := congrArg List.length (whole.unique (again.1 ▸ again))
    simp only [List.length_cons, List.length_append] at length
    omega

end Cheops.Lib
