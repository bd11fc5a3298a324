import Cheops.Scheduler.Call
import Cheops.Scheduler.Ownership

/-! # The times of events

`sched_settime` carries into the seconds only if there is more than a whole second of microseconds,
so that it can store 1000000 of them.  Such a time is `SOONER` than the same time with a second
more and no microseconds.

`settime_exact_iff` says that the stored times are right otherwise, and that `SOONER` then orders
the queue by time.
-/

namespace Cheops.Scheduler

open Cheops.Lib

variable {κ : Type}

/-! ## One call of `sched_settime` -/

/-- The microseconds of the reading and of the delay do not make up a whole second. -/
def OffBoundary (tv : Timeval) (when : Int) : Prop :=
  tv.tvUsec + when.tmod 1000 * 1000 ≠ 1000000

instance (tv : Timeval) (when : Int) : Decidable (OffBoundary tv when) :=
  inferInstanceAs (Decidable (_ ≠ _))

/-- `t` is the time of the reading and the delay, with less than a second of microseconds. -/
structure Stores (tv : Timeval) (when : Int) (t : Timeval) : Prop where
  normal : t.Normal
  sum : t.micros = tv.micros + 1000 * when

theorem schedSettime_stores_iff {tv t : Timeval} {when : Int} (normal : tv.Normal)
    (positive : 0 < when) (time : schedSettime (some tv) when = some t) :
    Stores tv when t ↔ OffBoundary tv when := by
  obtain ⟨sum, -⟩ := schedSettime_micros time normal
  obtain ⟨low, high⟩ := normal
  have rest : 0 ≤ when.tmod 1000 := Int.tmod_nonneg 1000 (by omega)
  have rest' := Int.tmod_lt_of_pos when (b := 1000) (by omega)
  have bounds : t.Normal ↔ OffBoundary tv when := by
    simp only [schedSettime, Option.map_some, Option.some.injEq] at time
    unfold Timeval.Normal OffBoundary
    split at time
    next carry =>
      obtain rfl := time
      dsimp only at carry ⊢
      omega
    next noCarry =>
      obtain rfl := time
      dsimp only at noCarry ⊢
      omega
  exact ⟨fun stores => bounds.mp stores.normal, fun off => ⟨bounds.mpr off, sum⟩⟩

/-- Of times with less than a second of microseconds `SOONER` finds the earlier one. -/
theorem sooner_iff_micros {a b : Timeval} (normal : a.Normal) (normal' : b.Normal) :
    sooner a b = true ↔ a.micros < b.micros := by
  obtain ⟨low, high⟩ := normal
  obtain ⟨low', high'⟩ := normal'
  rw [sooner_iff]
  unfold Timeval.micros
  omega

/-! ## Runs -/

/-- What `sched_settime` is called with in a step: the reading, and the delay. -/
def settimes (c : Owners κ) : Action κ → List (Timeval × Int)
  | .add when _ _ block now =>
    if when ≠ 0 ∧ (schedAlloc block c.st).1.isSome then now.toList.map (·, when) else []
  | .returned nonzero later =>
    if nonzero then
      match c.running with
      | current :: _ => later.toList.map (·, current.resched)
      | [] => []
    else []
  | .del _ | .take _ => []

structure TimedStep (c : Owners κ) (a : Action κ) (c' : Owners κ) : Prop where
  step : OwnStep c a c'
  delayed : a.Delayed
  reading : ∀ tv, a.reading = some tv → tv.Normal

def AllOffBoundary (c : Owners κ) (a : Action κ) : Prop :=
  ∀ p ∈ settimes c a, OffBoundary p.1 p.2

instance (c : Owners κ) (a : Action κ) : Decidable (AllOffBoundary c a) :=
  inferInstanceAs (Decidable (∀ p ∈ settimes c a, OffBoundary p.1 p.2))

/-- Delays are positive, and the times of the queue have less than a second of microseconds. -/
structure Timed (c : Owners κ) : Prop where
  delays : ∀ e ∈ c.running ++ c.st.schedq, 0 < e.resched
  times : ∀ e ∈ c.st.schedq, e.when.Normal

section Timed

variable {c c' : Owners κ} {a : Action κ} {e : Sched κ} {st st' : SchedState κ}

theorem schedule_mem {s : Sched κ} (member : e ∈ (schedule s st).schedq) :
    (e.resched = s.resched ∧ e.when = s.when) ∨ e ∈ st.schedq := by
  rcases mem_stableInsert.mp member with rfl | old
  · exact .inl ⟨rfl, rfl⟩
  · exact .inr old

theorem start_timed : Timed (Owners.start : Owners κ) :=
  ⟨(fun e none => by cases none), fun e none => by cases none⟩

/-- An event that is added has the delay of the call, and the time that `sched_settime` stores. -/
theorem cheopsSchedAdd_mem {when : Int} {callback : κ} {data : Nat} {block : Option Nat}
    {now : Option Timeval}
    (member : e ∈ (cheopsSchedAdd when callback data block now st).2.schedq) :
    e ∈ st.schedq ∨ (e.resched = when ∧ when ≠ 0 ∧ (schedAlloc block st).1.isSome ∧
      schedSettime now when = some e.when) := by
  unfold cheopsSchedAdd at member
  by_cases zero : when = 0
  case pos =>
    rw [if_pos zero] at member
    exact .inl member
  case neg =>
    rw [if_neg zero] at member
    rcases allocs : schedAlloc block st with ⟨_ | tmp, st₁⟩
    · rw [allocs] at member
      obtain rfl := schedAlloc_none allocs
      exact .inl member
    · rw [allocs] at member
      have queue := schedAlloc_schedq block st
      rw [allocs] at queue
      dsimp only at member
      cases time : schedSettime now when with
      | none =>
        rw [time] at member
        dsimp only at member
        rw [schedRelease_schedq] at member
        exact .inl (queue ▸ member)
      | some t =>
        rw [time] at member
        rcases schedule_mem member with ⟨resched, stored⟩ | old
        · exact .inr ⟨resched, zero, rfl, by rw [stored]⟩
        · exact .inl (queue ▸ old)

/-- An event that is put back has its delay, and the time that `sched_settime` stores. -/
theorem runqReturned_mem {current : Sched κ} {nonzero : Bool} {later : Option Timeval}
    (member : e ∈ (runqReturned current nonzero later st).schedq) :
    e ∈ st.schedq ∨ (nonzero = true ∧ e.resched = current.resched ∧
      schedSettime later current.resched = some e.when) := by
  unfold runqReturned at member
  cases nonzero with
  | false =>
    rw [if_neg Bool.false_ne_true, schedRelease_schedq] at member
    exact .inl member
  | true =>
    rw [if_pos rfl] at member
    cases time : schedSettime later current.resched with
    | none =>
      rw [time] at member
      dsimp only at member
      rw [schedRelease_schedq] at member
      exact .inl member
    | some t =>
      rw [time] at member
      rcases schedule_mem member with ⟨resched, stored⟩ | old
      · exact .inr ⟨rfl, resched, by rw [stored]⟩
      · exact .inl old

/-- A reading that `sched_settime` has got. -/
theorem schedSettime_reading {now : Option Timeval} {when : Int} {t : Timeval}
    (time : schedSettime now when = some t) : ∃ tv, now = some tv := by
  cases now with
  | none => cases time
  | some tv => exact ⟨tv, rfl⟩

theorem Timed.step (timed : Timed c) (off : AllOffBoundary c a) (step : TimedStep c a c') :
    Timed c' := by
  obtain ⟨step, delayed, reading⟩ := step
  obtain ⟨delays, times⟩ := timed
  have queued (e : Sched κ) (member : e ∈ c.st.schedq) : 0 < e.resched :=
    delays e (List.mem_append_right _ member)
  cases step with
  | @add when callback data block now fresh =>
    have stored (e : Sched κ)
        (member : e ∈ (cheopsSchedAdd when callback data block now c.st).2.schedq) :
        0 < e.resched ∧ e.when.Normal := by
      rcases cheopsSchedAdd_mem member with old | ⟨rfl, nonzero, allocated, time⟩
      · exact ⟨queued e old, times e old⟩
      · obtain ⟨tv, rfl⟩ := schedSettime_reading time
        have here : (tv, e.resched) ∈
            settimes c (.add e.resched callback data block (some tv)) := by
          rw [settimes, if_pos ⟨nonzero, allocated⟩]
          exact List.mem_singleton_self _
        have stores := schedSettime_stores_iff (reading tv rfl) delayed time
        exact ⟨delayed, (stores.mpr (off _ here)).normal⟩
    refine ⟨fun e member => ?_, fun e member => (stored e member).2⟩
    rcases List.mem_append.mp member with running | inQueue
    · exact delays e (List.mem_append_left _ running)
    · exact (stored e inQueue).1
  | @del id =>
    have sub : (cheopsSchedDel id c.st).2.schedq ⊆ c.st.schedq := by
      unfold cheopsSchedDel
      split
      · exact List.eraseP_subset
      · exact List.Subset.refl _
    refine ⟨fun e member => ?_, fun e member => times e (sub member)⟩
    rcases List.mem_append.mp member with running | inQueue
    · exact delays e (List.mem_append_left _ running)
    · exact queued e (sub inQueue)
  | @take st' current now due =>
    unfold runqTake at due
    split at due
    next head rest tv queue =>
      split at due
      next =>
        cases due
        refine ⟨fun e member => delays e ?_, fun e member => times e ?_⟩
        · rw [queue]
          simpa [or_assoc, or_left_comm] using member
        · rw [queue]
          exact List.mem_cons_of_mem _ member
      next => cases due
    next => cases due
  | @returned current running nonzero later innermost =>
    have positive : 0 < current.resched := delays current (by simp [innermost])
    have stored (e : Sched κ)
        (member : e ∈ (runqReturned current nonzero later c.st).schedq) :
        0 < e.resched ∧ e.when.Normal := by
      rcases runqReturned_mem member with old | ⟨rfl, resched, time⟩
      · exact ⟨queued e old, times e old⟩
      · obtain ⟨tv, rfl⟩ := schedSettime_reading time
        have here : (tv, current.resched) ∈ settimes c (.returned true (some tv)) := by
          rw [settimes, if_pos rfl, innermost]
          exact List.mem_singleton_self _
        have stores := schedSettime_stores_iff (reading tv rfl) positive time
        exact ⟨resched ▸ positive, (stores.mpr (off _ here)).normal⟩
    refine ⟨fun e member => ?_, fun e member => (stored e member).2⟩
    rcases List.mem_append.mp member with running | inQueue
    · exact delays e (by simp [innermost, running])
    · exact (stored e inQueue).1

end Timed

/-- What `sched_settime` stores is right if and only if it comes to no whole second; and as long as
    that is so in all calls, `SOONER` orders the events of the queue by time. -/
theorem settime_exact_iff {history : List (Action κ)} {c : Owners κ}
    (run : Run (Guarded AllOffBoundary TimedStep) Owners.start history c) :
    (∀ a ∈ c.st.schedq, ∀ b ∈ c.st.schedq,
      (sooner a.when b.when = true ↔ a.when.micros < b.when.micros)) ∧
    ∀ tv when, tv.Normal → 0 < when →
      ∃ t, schedSettime (some tv) when = some t ∧ (Stores tv when t ↔ OffBoundary tv when) := by
  have timed : Timed c := by
    refine run.state_invariant start_timed ?_
    intro c a c' timed step
    exact timed.step step.1 step.2
  constructor
  · intro a member b member'
    exact sooner_iff_micros (timed.times a member) (timed.times b member')
  · intro tv when normal positive
    exact ⟨_, rfl, schedSettime_stores_iff normal positive rfl⟩

theorem add_timed {c c' : Owners Unit} {when usec : Int} {block : Option Nat}
    (step : OwnStep c (.add when () 0 block (some ⟨5, usec⟩)) c') (positive : 0 < when)
    (low : 0 ≤ usec) (high : usec < 1000000) :
    TimedStep c (.add when () 0 block (some ⟨5, usec⟩)) c' where
  step := step
  delayed := positive
  reading tv same := by
    cases same
    exact ⟨low, high⟩

/-- Two events, both with a carry. -/
theorem settime_exact_iff_two :
    ∃ c : Owners Unit, Run (Guarded AllOffBoundary TimedStep) Owners.start
        [.add 1 () 0 (some 7) (some ⟨5, 999500⟩), .add 5 () 0 (some 8) (some ⟨5, 999500⟩)] c ∧
      c.st.schedq.map (·.when) = [⟨6, 500⟩, ⟨6, 4500⟩] ∧
      ∀ a ∈ c.st.schedq, ∀ b ∈ c.st.schedq,
        (sooner a.when b.when = true ↔ a.when.micros < b.when.micros) := by
  have first : Run (Guarded AllOffBoundary TimedStep) (Owners.start : Owners Unit)
      [.add 1 () 0 (some 7) (some ⟨5, 999500⟩)] _ :=
    .single ⟨by decide, add_timed (.add (by decide)) (by decide) (by decide) (by decide)⟩
  have second := first.snoc (l := Action.add 5 () 0 (some 8) (some ⟨5, 999500⟩))
    ⟨by decide, add_timed (.add (by decide)) (by decide) (by decide) (by decide)⟩
  exact ⟨_, second, by decide, (settime_exact_iff second).1⟩

/-- A delay that ends on a whole second.  The event is `SOONER` than one for the same time that
    has been added before. -/
theorem settime_boundary :
    ∃ c : Owners Unit, Run TimedStep Owners.start
        [.add 1000 () 0 (some 7) (some ⟨5, 0⟩), .add 1 () 0 (some 8) (some ⟨5, 999000⟩)] c ∧
      c.st.schedq.map (·.when) = [⟨5, 1000000⟩, ⟨6, 0⟩] ∧
      ¬ Stores ⟨5, 999000⟩ 1 ⟨5, 1000000⟩ ∧
      ¬ ∀ a ∈ c.st.schedq, ∀ b ∈ c.st.schedq,
        (sooner a.when b.when = true ↔ a.when.micros < b.when.micros) := by
  have first : Run TimedStep (Owners.start : Owners Unit)
      [.add 1000 () 0 (some 7) (some ⟨5, 0⟩)] _ :=
    .single (add_timed (.add (by decide)) (by decide) (by decide) (by decide))
  have second := first.snoc (l := Action.add 1 () 0 (some 8) (some ⟨5, 999000⟩))
    (add_timed (.add (by decide)) (by decide) (by decide) (by decide))
  refine ⟨_, second, by decide, fun stores => ?_, by decide⟩
  exact absurd stores.normal.2 (by decide)

end Cheops.Scheduler
