import Cheops.Scheduler.Basic

/-! # What the timer queue is waiting for

The callbacks the queue holds, with their data and ids, up to order: what each operation of
`sched.c` adds to them or takes away.  This is all that the users of the scheduler need to
know about it.
-/

namespace Cheops.Scheduler

open Cheops.Lib

variable {κ : Type}

def Sched.call (e : Sched κ) : κ × Nat := (e.callback, e.data)

def calls (st : SchedState κ) : List (κ × Nat) := st.schedq.map Sched.call

def Sched.timer (e : Sched κ) : Int × κ × Nat := (e.id, e.call)

def timers (st : SchedState κ) : List (Int × κ × Nat) := st.schedq.map Sched.timer

theorem calls_eq (st : SchedState κ) : calls st = (timers st).map Prod.snd := by
  simp [calls, timers, Sched.timer]

theorem ids_eq (st : SchedState κ) : st.schedq.map (·.id) = (timers st).map Prod.fst := by
  simp [timers, Sched.timer]

theorem schedAlloc_schedq (block : Option Nat) (st : SchedState κ) :
    (schedAlloc block st).2.schedq = st.schedq := by
  unfold schedAlloc
  split
  · rfl
  · split <;> rfl

theorem schedAlloc_eventcnt (block : Option Nat) (st : SchedState κ) :
    (schedAlloc block st).2.eventcnt = st.eventcnt := by
  unfold schedAlloc
  split
  · rfl
  · split <;> rfl

theorem schedRelease_schedq (tmp : Nat) (st : SchedState κ) :
    (schedRelease tmp st).schedq = st.schedq := by
  unfold schedRelease
  split <;> rfl

theorem schedRelease_timers (tmp : Nat) (st : SchedState κ) :
    timers (schedRelease tmp st) = timers st :=
  congrArg (List.map Sched.timer) (schedRelease_schedq tmp st)

theorem schedule_timers (s : Sched κ) (st : SchedState κ) :
    (timers (schedule s st)).Perm (s.timer :: timers st) :=
  (stableInsert_perm _ _ _).map Sched.timer

/-- `cheops_sched_add` adds a timer under the id it returns, unless it fails; then it adds
    nothing. -/
theorem cheopsSchedAdd_timers (when : Int) (callback : κ) (data : Nat) (block : Option Nat)
    (now : Option Timeval) (st : SchedState κ) :
    let r := cheopsSchedAdd when callback data block now st
    (timers r.2).Perm ((r.1, callback, data) :: timers st) ∨
      (r.1 = -1 ∧ timers r.2 = timers st) := by
  unfold cheopsSchedAdd
  split
  next => exact .inr ⟨rfl, rfl⟩
  have hq := schedAlloc_schedq block st
  split
  next st' heq =>
    rw [heq] at hq
    exact .inr ⟨rfl, congrArg (List.map Sched.timer) hq⟩
  next tmp st' heq =>
    rw [heq] at hq
    cases schedSettime now when with
    | none =>
      exact .inr ⟨rfl, congrArg (List.map Sched.timer) ((schedRelease_schedq tmp _).trans hq)⟩
    | some time =>
      refine .inl ((schedule_timers _ _).trans ?_)
      rw [timers, timers, ← hq]
      exact .refl _

theorem cheopsSchedAdd_calls (when : Int) (callback : κ) (data : Nat) (block : Option Nat)
    (now : Option Timeval) (st : SchedState κ) :
    (calls (cheopsSchedAdd when callback data block now st).2).Perm ((callback, data) :: calls st) ∨
      calls (cheopsSchedAdd when callback data block now st).2 = calls st := by
  rw [calls_eq, calls_eq]
  rcases cheopsSchedAdd_timers when callback data block now st with h | ⟨-, h⟩
  · exact .inl (h.map Prod.snd)
  · exact .inr (congrArg _ h)

/-- It does not fail for a non-zero delay when there is a struct and the clock can be read. -/
theorem cheopsSchedAdd_of_alloc {when : Int} {callback : κ} {data tmp : Nat} {block : Option Nat}
    {now : Timeval} {st : SchedState κ} (hwhen : when ≠ 0)
    (alloc : (schedAlloc block st).1 = some tmp) :
    (cheopsSchedAdd when callback data block (some now) st).1 = st.eventcnt ∧
      (calls (cheopsSchedAdd when callback data block (some now) st).2).Perm
        ((callback, data) :: calls st) := by
  unfold cheopsSchedAdd
  rw [if_neg hwhen, calls_eq, calls_eq]
  have hq := schedAlloc_schedq block st
  have hcnt := schedAlloc_eventcnt block st
  split
  next st' heq =>
    rw [heq] at alloc
    cases alloc
  next tmp' st' heq =>
    rw [heq] at hq hcnt
    refine ⟨hcnt, ((schedule_timers _ _).map Prod.snd).trans ?_⟩
    rw [timers, timers, ← hq]
    exact .refl _

theorem cheopsSchedAdd_calls_of_pos {when : Int} (callback : κ) (data block : Nat)
    (now : Timeval) (st : SchedState κ) (hwhen : when ≠ 0) :
    (calls (cheopsSchedAdd when callback data (some block) (some now) st).2).Perm
      ((callback, data) :: calls st) := by
  obtain ⟨tmp, alloc⟩ : ∃ tmp, (schedAlloc (some block) st).1 = some tmp := by
    unfold schedAlloc
    split
    · exact ⟨_, rfl⟩
    · exact ⟨_, rfl⟩
  exact (cheopsSchedAdd_of_alloc hwhen alloc).2

theorem cheopsSchedAdd_zero (callback : κ) (data : Nat) (block : Option Nat)
    (now : Option Timeval) (st : SchedState κ) :
    (cheopsSchedAdd 0 callback data block now st).2 = st := rfl

/-- `cheops_sched_del` takes one event with the given id away, if there is one. -/
theorem cheopsSchedDel_timers (id : Int) (st : SchedState κ) :
    (∃ e ∈ st.schedq, e.id = id ∧ (timers st).Perm (e.timer :: timers (cheopsSchedDel id st).2)) ∨
      ((∀ e ∈ st.schedq, e.id ≠ id) ∧ (cheopsSchedDel id st).2 = st) := by
  unfold cheopsSchedDel
  split
  next hany =>
    obtain ⟨e, he, hid⟩ := List.any_eq_true.mp hany
    obtain ⟨x, pre, post, -, hx, hq, herase⟩ := List.exists_of_eraseP (p := (·.id == id)) he hid
    refine .inl ⟨x, by simp [hq], by simpa using hx, ?_⟩
    simp only [timers, herase]
    rw [hq]
    exact (List.perm_middle).map Sched.timer
  next hany => exact .inr ⟨by simpa using hany, rfl⟩

theorem cheopsSchedDel_calls (id : Int) (st : SchedState κ) :
    (∃ e ∈ st.schedq, e.id = id ∧ (calls st).Perm (e.call :: calls (cheopsSchedDel id st).2)) ∨
      calls (cheopsSchedDel id st).2 = calls st := by
  rw [calls_eq, calls_eq]
  rcases cheopsSchedDel_timers id st with ⟨e, he, hid, h⟩ | ⟨-, h⟩
  · exact .inl ⟨e, he, hid, h.map Prod.snd⟩
  · exact .inr (by rw [h])

theorem runqTake_timers {now : Option Timeval} {st st' : SchedState κ} {current : Sched κ}
    (due : runqTake now st = some (current, st')) : timers st = current.timer :: timers st' := by
  unfold runqTake at due
  split at due
  next head rest tv hq =>
    split at due
    next =>
      simp only [Option.some.injEq, Prod.mk.injEq] at due
      obtain ⟨rfl, rfl⟩ := due
      simp [timers, hq]
    next => simp at due
  next => simp at due

theorem runqTake_calls {now : Option Timeval} {st st' : SchedState κ} {current : Sched κ}
    (due : runqTake now st = some (current, st')) : calls st = current.call :: calls st' := by
  rw [calls_eq, calls_eq, runqTake_timers due]
  rfl

/-- An event whose callback returns 0 is done with. -/
theorem runqReturned_timers_false (current : Sched κ) (later : Option Timeval)
    (st : SchedState κ) : timers (runqReturned current false later st) = timers st :=
  schedRelease_timers _ _

theorem runqReturned_calls_false (current : Sched κ) (later : Option Timeval)
    (st : SchedState κ) : calls (runqReturned current false later st) = calls st := by
  rw [calls_eq, calls_eq, runqReturned_timers_false]

/-- An event whose callback returns non-zero is in the queue again. -/
theorem runqReturned_calls_true (current : Sched κ) (later : Timeval) (st : SchedState κ) :
    (calls (runqReturned current true (some later) st)).Perm (current.call :: calls st) := by
  rw [calls_eq, calls_eq]
  exact (schedule_timers _ _).map Prod.snd

/-- It is not, if the clock cannot be read. -/
theorem runqReturned_timers (current : Sched κ) (nonzero : Bool) (later : Option Timeval)
    (st : SchedState κ) :
    (timers (runqReturned current nonzero later st)).Perm (current.timer :: timers st) ∨
      timers (runqReturned current nonzero later st) = timers st := by
  cases nonzero with
  | false => exact .inr (runqReturned_timers_false _ _ _)
  | true =>
    cases later with
    | none => exact .inr (schedRelease_timers _ _)
    | some later => exact .inl (schedule_timers _ _)

theorem runqReturned_calls (current : Sched κ) (nonzero : Bool) (later : Option Timeval)
    (st : SchedState κ) :
    (calls (runqReturned current nonzero later st)).Perm (current.call :: calls st) ∨
      calls (runqReturned current nonzero later st) = calls st := by
  rw [calls_eq, calls_eq]
  rcases runqReturned_timers current nonzero later st with h | h
  · exact .inl (h.map Prod.snd)
  · exact .inr (congrArg _ h)

end Cheops.Scheduler
