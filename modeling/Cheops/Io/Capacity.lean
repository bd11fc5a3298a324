import Cheops.Io.Arrays

/-! # The room in the poll table (`io.c`)

`cheops_io_add` calls `io_grow` if `fdcnt < maxfdcnt`, that is when there is room, and `maxfdcnt`
starts as the largest number.  So every registration adds 512 entries to both arrays (`Sized`), and
none are ever given back.

`io_capacity_iff` says that the arrays are as large as they should be only up to the second
registration.
-/

namespace Cheops.Io.Arrays

open Cheops.Lib

variable {κ : Type}

/-! ## Calls whose allocations succeed -/

def Op.isAdd : Op κ → Bool
  | .add .. => true
  | _ => false

/-- `realloc` and `malloc` find memory, and ids are those of registrations. -/
def Granted (a : Arrays κ) : Op κ → Prop
  | .add _ _ _ _ iorGrows fdsGrows block =>
    iorGrows = true ∧ fdsGrows = true ∧ ∃ p, block = some p ∧ a.cell p = none
  | .change id .. => a.cell id ≠ none
  | .remove id => a.cell id ≠ none

def GrantedStep (a : Arrays κ) (op : Op κ) (a' : Arrays κ) : Prop := Granted a op ∧ a' = exec a op

def after (s₀ : Arrays κ) (ops : List (Op κ)) : Arrays κ := ops.foldl exec s₀

def used (a : Arrays κ) : Op κ → List Nat
  | .add .. => [a.fdcnt]
  | .change id .. => (a.cell id).toList
  | .remove id => (a.cell id).toList ++ [a.fdcnt - 1]

/-- A call that comes after `ms` uses only entries that are allocated, reallocates the arrays only
    if no entry is free, and leaves no more room than for the registrations that there have been at
    some time, and 512 more. -/
structure Frugal (s₀ : Arrays κ) (ms : List (Op κ)) (op : Op κ) : Prop where
  inside : ∀ i ∈ used (after s₀ ms) op,
    i < (after s₀ (ms ++ [op])).iorRoom ∧ i < (after s₀ (ms ++ [op])).fdsRoom
  full : op.isAdd → (after s₀ ms).fdcnt < (after s₀ ms).maxfdcnt →
    (after s₀ ms).iorRoom ≤ (after s₀ ms).fdcnt ∨ (after s₀ ms).fdsRoom ≤ (after s₀ ms).fdcnt
  capacity : ∃ ks, ks <+: ms ++ [op] ∧
    (after s₀ (ms ++ [op])).iorRoom ≤ (after s₀ ks).fdcnt + GROW_SHRINK_SIZE ∧
    (after s₀ (ms ++ [op])).fdsRoom ≤ (after s₀ ks).fdcnt + GROW_SHRINK_SIZE

/-! ## Every registration adds entries -/

/-- The arrays after `n` registrations, as long as `maxfdcnt` has not come back to its first
    value. -/
structure Sized (n : Nat) (a : Arrays κ) : Prop where
  wf : a.poll.WellFormed
  idle : a.currentIoc = -1
  few : a.fdcnt ≤ n
  maxfdcnt : a.maxfdcnt = (GROW_SHRINK_SIZE * n + (2 ^ 32 - 1)) % 2 ^ 32
  iorRoom : a.iorRoom = GROW_SHRINK_SIZE * n
  fdsRoom : a.fdsRoom = GROW_SHRINK_SIZE * n

variable {a a' s₀ : Arrays κ} {n : Nat} {op : Op κ} {ops ms ls : List (Op κ)}

theorem start_sized (fds : Nat → PollFd) (ior : Nat → IoRec κ) : Sized 0 (start fds ior) where
  wf := .start (zip fds ior)
  idle := rfl
  few := Nat.le_refl 0
  maxfdcnt := rfl
  iorRoom := rfl
  fdsRoom := rfl

/-- The test is always passed, whether or not there is room. -/
theorem Sized.test (sized : Sized n a) (small : n < 2 ^ 23) : a.fdcnt < a.maxfdcnt := by
  -- `maxfdcnt` is one less than the number of entries, or the largest number
  have few := sized.few
  rw [sized.maxfdcnt, GROW_SHRINK_SIZE]
  omega

theorem Sized.ioGrow (sized : Sized n a) (small : n + 1 < 2 ^ 23) :
    a.ioGrow true true = (true, { a with
      maxfdcnt := GROW_SHRINK_SIZE * (n + 1) - 1
      iorRoom := GROW_SHRINK_SIZE * (n + 1), fdsRoom := GROW_SHRINK_SIZE * (n + 1) }) := by
  have next : (a.maxfdcnt + GROW_SHRINK_SIZE) % 2 ^ 32 = GROW_SHRINK_SIZE * (n + 1) - 1 := by
    rw [sized.maxfdcnt, GROW_SHRINK_SIZE]
    omega
  have room : (GROW_SHRINK_SIZE * (n + 1) - 1 + 1) % 2 ^ 32 = GROW_SHRINK_SIZE * (n + 1) := by
    rw [GROW_SHRINK_SIZE]
    omega
  have nonempty : GROW_SHRINK_SIZE * (n + 1) ≠ 0 := by
    rw [GROW_SHRINK_SIZE]
    omega
  simp only [Arrays.ioGrow, next, room]
  rw [if_neg nonempty]
  rfl

theorem Sized.add (sized : Sized n a) (small : n + 1 < 2 ^ 23) (fd : Int) (callback : κ)
    (events data p : Nat) (fresh : a.cell p = none) :
    Sized (n + 1) (exec a (.add fd callback events data true true (some p))) := by
  have grown := sized.ioGrow small
  have callable : Callable a (held a.poll) (.add fd callback events data true true (some p)) :=
    ⟨fun _ => by rw [grown], p, rfl, fresh⟩
  have inv := (Inv.add (m := held a.poll) ⟨sized.wf, sized.idle, rfl⟩ callable).1
  have result : exec a (.add fd callback events data true true (some p)) =
      ((a.ioGrow true true).2.append fd callback events data (some p)).2 := by
    simp only [exec, cheopsIoAdd, grown]
    rw [if_pos (sized.test (by omega))]
    rfl
  refine ⟨inv.wf, inv.idle, ?_, ?_, ?_, ?_⟩
  · rw [result, grown]
    exact Nat.succ_le_succ sized.few
  · rw [result, grown]
    change GROW_SHRINK_SIZE * (n + 1) - 1 = _
    rw [GROW_SHRINK_SIZE]
    omega
  · rw [result, grown]
    rfl
  · rw [result, grown]
    rfl

structure SameRoom (a a' : Arrays κ) : Prop where
  fdcnt : a'.fdcnt ≤ a.fdcnt
  maxfdcnt : a'.maxfdcnt = a.maxfdcnt
  iorRoom : a'.iorRoom = a.iorRoom
  fdsRoom : a'.fdsRoom = a.fdsRoom

theorem ioShrink_room (which : Nat) (a : Arrays κ) : SameRoom a (a.ioShrink which) := by
  unfold ioShrink
  dsimp only
  split
  · exact ⟨Nat.sub_le _ _, rfl, rfl, rfl⟩
  · exact ⟨Nat.sub_le _ _, rfl, rfl, rfl⟩

theorem exec_room (isAdd : op.isAdd = false) : SameRoom a (exec a op) := by
  cases op with
  | add => cases isAdd
  | change id fd callback events data =>
    change SameRoom a (a.cheopsIoChange id fd callback events data).2
    unfold cheopsIoChange
    split
    · exact ⟨Nat.le_refl _, rfl, rfl, rfl⟩
    · split
      · exact ⟨Nat.le_refl _, rfl, rfl, rfl⟩
      · exact ⟨Nat.le_refl _, rfl, rfl, rfl⟩
  | remove id =>
    change SameRoom a (a.cheopsIoRemove id).2
    unfold cheopsIoRemove
    split
    · exact ⟨Nat.le_refl _, rfl, rfl, rfl⟩
    · split
      · exact ⟨Nat.le_refl _, rfl, rfl, rfl⟩
      · split
        · exact ioShrink_room _ a
        · exact ⟨Nat.le_refl _, rfl, rfl, rfl⟩

theorem held_ne_none {id : Nat} (allocated : a.cell id ≠ none) :
    held a.poll id ≠ none := by
  rw [held, Ne, Option.map_eq_none_iff]
  exact allocated

theorem Sized.other (sized : Sized n a) (granted : Granted a op) (isAdd : op.isAdd = false) :
    Sized n (exec a op) := by
  obtain ⟨fdcnt, maxfdcnt, iorRoom, fdsRoom⟩ : SameRoom a (exec a op) := exec_room isAdd
  have inv : Inv a (held a.poll) := ⟨sized.wf, sized.idle, rfl⟩
  have callable : Callable a (held a.poll) op := by
    cases op with
    | add => cases isAdd
    | change => exact held_ne_none granted
    | remove => exact held_ne_none granted
  have inv' := (inv.step callable).1
  exact ⟨inv'.wf, inv'.idle, fdcnt.trans sized.few, maxfdcnt.trans sized.maxfdcnt,
    iorRoom.trans sized.iorRoom, fdsRoom.trans sized.fdsRoom⟩

/-! ## Runs -/

theorem after_snoc (s₀ : Arrays κ) (ops : List (Op κ)) (op : Op κ) :
    after s₀ (ops ++ [op]) = exec (after s₀ ops) op := by
  rw [after, after, List.foldl_append]
  rfl

theorem run_after (run : Run GrantedStep s₀ ops a) : a = after s₀ ops := by
  refine run.invariant (I := fun ops a => a = after s₀ ops) rfl ?_
  intro ops a op a' _ same step
  rw [after_snoc, ← same]
  exact step.2

/-- What there is in front of a call is a run that grants it. -/
theorem granted_of_run (run : Run GrantedStep s₀ ops a) (split : ops = ms ++ op :: ls) :
    Run GrantedStep s₀ ms (after s₀ ms) ∧ Granted (after s₀ ms) op := by
  rw [split] at run
  obtain ⟨b, b', before, step⟩ := run.split
  rw [← run_after before]
  exact ⟨before, step.1⟩

theorem countP_snoc (ops : List (Op κ)) (op : Op κ) :
    (ops ++ [op]).countP Op.isAdd = ops.countP Op.isAdd + if op.isAdd then 1 else 0 := by
  rw [List.countP_append, List.countP_singleton]

/-- With every registration the arrays get 512 entries more. -/
theorem run_sized {fds : Nat → PollFd} {ior : Nat → IoRec κ}
    (run : Run GrantedStep (start fds ior) ops a) (small : ops.countP Op.isAdd < 2 ^ 23) :
    Sized (ops.countP Op.isAdd) a := by
  induction run with
  | refl => exact start_sized fds ior
  | @snoc ops a a' op run step ih =>
    obtain ⟨granted, rfl⟩ := step
    rw [countP_snoc] at small ⊢
    cases isAdd : op.isAdd with
    | false =>
      rw [isAdd] at small
      exact (ih small).other granted isAdd
    | true =>
      rw [isAdd] at small
      cases op with
      | add fd callback events data iorGrows fdsGrows block =>
        obtain ⟨rfl, rfl, p, rfl, fresh⟩ := granted
        exact (ih (Nat.lt_of_succ_lt small)).add small fd callback events data p fresh
      | change => cases isAdd
      | remove => cases isAdd

/-- The entries that the calls on registrations use are allocated. -/
theorem Sized.used (sized : Sized n a) (granted : Granted a op) (isAdd : op.isAdd = false) :
    ∀ i ∈ Arrays.used a op, i < n := by
  have few := sized.few
  have below {id : Nat} (allocated : a.cell id ≠ none) :
      ∃ i, a.cell id = some i ∧ i < a.fdcnt := by
    obtain ⟨i, cell⟩ := Option.ne_none_iff_exists'.mp allocated
    exact ⟨i, cell, (below_of_cell sized.wf cell).1⟩
  cases op with
  | add => cases isAdd
  | change id =>
    obtain ⟨i, cell, inside⟩ := below granted
    intro j member
    rw [Arrays.used, cell, Option.toList_some, List.mem_singleton] at member
    omega
  | remove id =>
    obtain ⟨i, cell, inside⟩ := below granted
    intro j member
    rw [Arrays.used, cell, Option.toList_some, List.singleton_append, List.mem_cons,
      List.mem_singleton] at member
    omega

theorem exists_second_add (several : 1 < ops.countP Op.isAdd) :
    ∃ ms op ls, ops = ms ++ op :: ls ∧ op.isAdd = true ∧ ms.countP Op.isAdd = 1 := by
  induction ops using List.reverseRecOn with
  | nil => cases several
  | append_singleton ops op ih =>
    -- induction from the end: the second registration is in front, or the last call
    by_cases earlier : 1 < ops.countP Op.isAdd
    case pos =>
      obtain ⟨ms, second, ls, split, isAdd, one⟩ := ih earlier
      exact ⟨ms, second, ls ++ [op], by simp [split], isAdd, one⟩
    case neg =>
      rw [countP_snoc] at several
      have isAdd : op.isAdd = true := by
        by_contra other
        rw [if_neg other] at several
        exact earlier several
      rw [if_pos isAdd] at several
      exact ⟨ops, op, [], rfl, isAdd, by omega⟩

/-- In every sequence of calls whose allocations succeed, all calls are frugal if and only if there
    is at most one registration among them. -/
theorem io_capacity_iff {fds : Nat → PollFd} {ior : Nat → IoRec κ}
    (run : Run GrantedStep (start fds ior) ops a) :
    (∀ ms op ls, ops = ms ++ op :: ls → Frugal (start fds ior) ms op) ↔
      ops.countP Op.isAdd ≤ 1 := by
  constructor
  · intro frugal
    by_contra several
    obtain ⟨ms, op, ls, split, isAdd, one⟩ := exists_second_add (Nat.lt_of_not_le several)
    have sized := run_sized (granted_of_run run split).1 (by omega)
    rw [one] at sized
    -- the second registration reallocates, although at most one of 512 entries is in use
    have full := (frugal ms op ls split).full isAdd (sized.test (by decide))
    rw [sized.iorRoom, sized.fdsRoom, GROW_SHRINK_SIZE] at full
    have few := sized.few
    omega
  · intro once ms op ls split
    obtain ⟨before, granted⟩ := granted_of_run run split
    have counted : ops.countP Op.isAdd = (ms ++ [op]).countP Op.isAdd + ls.countP Op.isAdd := by
      rw [split, ← List.countP_append]
      simp
    rw [countP_snoc] at counted
    have sized := run_sized before (by omega)
    have sized' := run_sized (before.snoc ⟨granted, rfl⟩) (by rw [countP_snoc]; omega)
    rw [← after_snoc, countP_snoc] at sized'
    refine ⟨fun i member => ?_, fun isAdd _ => ?_, ms ++ [op], List.prefix_refl _, ?_, ?_⟩
    · rw [sized'.iorRoom, sized'.fdsRoom, GROW_SHRINK_SIZE]
      cases isAdd : op.isAdd with
      | false =>
        have below := sized.used granted isAdd i member
        omega
      | true =>
        cases op with
        | add =>
          have few := sized.few
          rw [Arrays.used, List.mem_singleton] at member
          simp only [isAdd, if_true] at counted ⊢
          omega
        | change => cases isAdd
        | remove => cases isAdd
    · rw [isAdd, if_pos rfl] at counted
      have none_before : ms.countP Op.isAdd = 0 := by omega
      rw [sized.iorRoom, none_before]
      exact .inl (Nat.zero_le _)
    · rw [sized'.iorRoom, GROW_SHRINK_SIZE]
      omega
    · rw [sized'.fdsRoom, GROW_SHRINK_SIZE]
      omega

def oneWatch : List (Op Unit) := [.add 5 () 1 50 true true (some 100), .remove 100]

theorem io_capacity_iff_one :
    ∃ a, Run GrantedStep (start (fun _ => ⟨0, 0, 0⟩) (fun _ => ⟨(), 0, 0, 0⟩)) oneWatch a ∧
      ∀ ms op ls, oneWatch = ms ++ op :: ls →
        Frugal (start (fun _ => ⟨0, 0, 0⟩) (fun _ => ⟨(), 0, 0, 0⟩)) ms op := by
  have run : Run GrantedStep (start (fun _ => ⟨0, 0, 0⟩) (fun _ => ⟨(), 0, 0, 0⟩)) oneWatch _ :=
    (Run.single ⟨⟨rfl, rfl, 100, rfl, rfl⟩, rfl⟩).snoc (l := Op.remove 100)
      ⟨show _ ≠ _ by decide, rfl⟩
  exact ⟨_, run, (io_capacity_iff run).mpr (by decide)⟩

/-- With the second registration there are 1024 entries for two. -/
theorem io_capacity_two :
    let s₀ : Arrays Unit := start (fun _ => ⟨0, 0, 0⟩) (fun _ => ⟨(), 0, 0, 0⟩)
    let ops : List (Op Unit) :=
      [.add 5 () 1 50 true true (some 100), .add 6 () 1 60 true true (some 101)]
    Run GrantedStep s₀ ops (after s₀ ops) ∧ (after s₀ ops).fdcnt = 2 ∧
      (after s₀ ops).iorRoom = 1024 ∧ (after s₀ ops).fdsRoom = 1024 ∧
      ¬ ∀ ms op ls, ops = ms ++ op :: ls → Frugal s₀ ms op := by
  refine ⟨?_, by decide, by decide, by decide, fun frugal => ?_⟩
  · apply Run.cons ⟨⟨rfl, rfl, 100, rfl, by decide⟩, rfl⟩
    exact Run.single ⟨⟨rfl, rfl, 101, rfl, by decide⟩, rfl⟩
  · have full := (frugal [.add 5 () 1 50 true true (some 100)] _ [] rfl).full rfl (by decide)
    exact absurd full (by decide)

end Cheops.Io.Arrays
