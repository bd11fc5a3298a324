import Mathlib

/-! # Framing of streams

A stream is cut into frames by a rule that tells the size of the first frame once enough of
it is there.  `frames` is the list of complete frames of a stream and `rest` what is left.

The point of the library is `frames_append` and `rest_append`: a stream may be taken apart
piece by piece, keeping only the rest between two pieces.  So a decoder that keeps the rest
decodes every fragmentation of a stream alike.
-/

namespace Cheops.Lib

variable {α : Type*}

/-- A framing rule: the size of the first frame of a stream, once its beginning tells. -/
structure Framing (α : Type*) where
  size : List α → Option Nat
  size_pos : ∀ {xs n}, size xs = some n → 0 < n
  size_append : ∀ {xs n} ys, size xs = some n → size (xs ++ ys) = some n

namespace Framing

variable (F : Framing α) {xs ys : List α} {n : Nat}

def frames (xs : List α) : List (List α) :=
  match _h : F.size xs with
  | none => []
  | some n => if n ≤ xs.length then xs.take n :: frames (xs.drop n) else []
termination_by xs.length
decreasing_by have := F.size_pos _h; simp; omega

def rest (xs : List α) : List α :=
  match _h : F.size xs with
  | none => xs
  | some n => if n ≤ xs.length then rest (xs.drop n) else xs
termination_by xs.length
decreasing_by have := F.size_pos _h; simp; omega

def Incomplete (xs : List α) : Prop := ∀ n, F.size xs = some n → xs.length < n

variable {F}

theorem frames_of_incomplete (h : F.Incomplete xs) : F.frames xs = [] := by
  rw [frames]
  split
  · rfl
  next n hn => rw [if_neg (Nat.not_le.mpr (h n hn))]

theorem rest_of_incomplete (h : F.Incomplete xs) : F.rest xs = xs := by
  rw [rest]
  split
  · rfl
  next n hn => rw [if_neg (Nat.not_le.mpr (h n hn))]

theorem frames_of_size (h : F.size xs = some n) (hle : n ≤ xs.length) :
    F.frames xs = xs.take n :: F.frames (xs.drop n) := by
  rw [frames]
  split
  next hn => rw [h] at hn; cases hn
  next k hk =>
    obtain rfl : k = n := by rw [h] at hk; exact (Option.some.inj hk).symm
    rw [if_pos hle]

theorem rest_of_size (h : F.size xs = some n) (hle : n ≤ xs.length) :
    F.rest xs = F.rest (xs.drop n) := by
  rw [rest]
  split
  next hn => rw [h] at hn; cases hn
  next k hk =>
    obtain rfl : k = n := by rw [h] at hk; exact (Option.some.inj hk).symm
    rw [if_pos hle]

/-- A stream is either incomplete or starts with a complete frame. -/
theorem incomplete_or (F : Framing α) (xs : List α) :
    F.Incomplete xs ∨ ∃ n, F.size xs = some n ∧ n ≤ xs.length := by
  by_cases h : F.Incomplete xs
  · exact .inl h
  · simp only [Incomplete, not_forall, Nat.not_lt] at h
    obtain ⟨n, hn, hle⟩ := h
    exact .inr ⟨n, hn, hle⟩

/-- Induction along the frames of a stream. -/
theorem induction {P : List α → Prop} (incomplete : ∀ xs, F.Incomplete xs → P xs)
    (frame : ∀ xs n, F.size xs = some n → n ≤ xs.length → P (xs.drop n) → P xs)
    (xs : List α) : P xs := by
  induction hlen : xs.length using Nat.strongRecOn generalizing xs with
  | _ len ih =>
    rcases F.incomplete_or xs with h | ⟨n, hn, hle⟩
    · exact incomplete xs h
    · have hpos := F.size_pos hn
      exact frame xs n hn hle (ih _ (by rw [List.length_drop]; omega) _ rfl)

theorem rest_incomplete (xs : List α) : F.Incomplete (F.rest xs) := by
  induction xs using F.induction with
  | incomplete xs h => rwa [rest_of_incomplete h]
  | frame xs n hn hle ih => rwa [rest_of_size hn hle]

/-- The frames and the rest are the stream. -/
theorem flatten_frames_append_rest (xs : List α) : (F.frames xs).flatten ++ F.rest xs = xs := by
  induction xs using F.induction with
  | incomplete xs h => simp [frames_of_incomplete h, rest_of_incomplete h]
  | frame xs n hn hle ih =>
    rw [frames_of_size hn hle, rest_of_size hn hle, List.flatten_cons, List.append_assoc, ih,
      List.take_append_drop]

theorem length_rest_le (F : Framing α) (xs : List α) : (F.rest xs).length ≤ xs.length := by
  have := congrArg List.length (F.flatten_frames_append_rest xs)
  rw [List.length_append] at this
  omega

/-- The rest is kept until more comes. -/
theorem rest_append (xs ys : List α) : F.rest (xs ++ ys) = F.rest (F.rest xs ++ ys) := by
  induction xs using F.induction with
  | incomplete xs h => rw [rest_of_incomplete h]
  | frame xs n hn hle ih =>
    rw [rest_of_size hn hle, ← ih,
      rest_of_size (F.size_append ys hn) (by rw [List.length_append]; omega),
      List.drop_append_of_le_length hle]

theorem frames_append (xs ys : List α) :
    F.frames (xs ++ ys) = F.frames xs ++ F.frames (F.rest xs ++ ys) := by
  induction xs using F.induction with
  | incomplete xs h => rw [rest_of_incomplete h, frames_of_incomplete h, List.nil_append]
  | frame xs n hn hle ih =>
    rw [frames_of_size hn hle, rest_of_size hn hle, List.cons_append, ← ih,
      frames_of_size (F.size_append ys hn) (by rw [List.length_append]; omega),
      List.drop_append_of_le_length hle, List.take_append_of_le_length hle]

/-- A stream made of frames is taken apart into them. -/
theorem frames_flatten {fs : List (List α)} (h : ∀ f ∈ fs, F.size f = some f.length) :
    F.frames fs.flatten = fs ∧ F.rest fs.flatten = [] := by
  induction fs with
  | nil =>
    have hnil : F.Incomplete ([] : List α) := fun n hn => F.size_pos hn
    exact ⟨frames_of_incomplete hnil, rest_of_incomplete hnil⟩
  | cons f fs ih =>
    obtain ⟨hframes, hrest⟩ := ih fun g hg => h g (List.mem_cons_of_mem _ hg)
    have hsize := F.size_append fs.flatten (h f List.mem_cons_self)
    have hle : f.length ≤ (f ++ fs.flatten).length := by simp
    rw [List.flatten_cons, frames_of_size hsize hle, rest_of_size hsize hle, List.drop_left,
      List.take_left, hframes]
    exact ⟨rfl, hrest⟩

/-- Where a stream made of frames is cut, the frames before the cut are complete, and the rest
    and what follows make up the others. -/
theorem frames_prefix {fs : List (List α)} (h : ∀ f ∈ fs, F.size f = some f.length)
    (hcut : xs ++ ys = fs.flatten) :
    ∃ gs, fs = F.frames xs ++ gs ∧ F.rest xs ++ ys = gs.flatten := by
  obtain ⟨hframes, hrest⟩ := frames_flatten h
  refine ⟨F.frames (F.rest xs ++ ys), ?_, ?_⟩
  · rw [← frames_append, hcut, hframes]
  · have := F.flatten_frames_append_rest (F.rest xs ++ ys)
    rwa [← rest_append, hcut, hrest, List.append_nil, eq_comm] at this

end Framing

end Cheops.Lib
