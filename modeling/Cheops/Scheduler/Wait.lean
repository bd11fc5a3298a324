import Cheops.Scheduler.Invariant

/-! # How long to wait for the next event

The main loop sleeps for as long as `cheops_sched_wait` says and then runs the events that are
due.  The one computes the distance to the head of the queue in an `int`, the other compares the
two times; `cheopsSchedWait_correct_iff` says when they agree.
-/

namespace Cheops.Scheduler

open Cheops.Lib

variable {κ : Type}

def cheopsSchedWait (now : Option Timeval) (st : SchedState κ) : Int :=
  match st.schedq with
  | [] => -1
  | head :: _ =>
    match now with
    | none => 0
    | some tv =>
      let ms := int32 ((head.when.tvSec - tv.tvSec) * 1000)
      let ms := int32 (ms + (head.when.tvUsec - tv.tvUsec).tdiv 1000)
      if ms < 0 then 0 else ms

/-! ## What the main loop relies on -/

def Timeval.micros (tv : Timeval) : Int := tv.tvSec * 1000000 + tv.tvUsec

/-- `cheops_sched_runq`, reading the clock at `now`, runs an event. -/
def Runs (st : SchedState κ) (now : Timeval) : Prop := (runqTake (some now) st).isSome

instance (st : SchedState κ) (now : Timeval) : Decidable (Runs st now) :=
  inferInstanceAs (Decidable (_ = true))

/-- The answer is -1 for an empty queue, 0 if there is something to run, and else the time until
    the head is due, to the millisecond. -/
structure WaitCorrect (st : SchedState κ) (now : Timeval) : Prop where
  empty_iff : cheopsSchedWait (some now) st = -1 ↔ st.schedq = []
  runs_iff : cheopsSchedWait (some now) st = 0 ↔ Runs st now
  distance : cheopsSchedWait (some now) st ≠ -1 → cheopsSchedWait (some now) st ≠ 0 →
    0 < cheopsSchedWait (some now) st ∧ ∀ head ∈ st.schedq.head?,
      |1000 * cheopsSchedWait (some now) st - (head.when.micros - now.micros)| < 1000

def millis (when now : Timeval) : Int :=
  (when.tvSec - now.tvSec) * 1000 + (when.tvUsec - now.tvUsec).tdiv 1000

/-- The head, if there is one, is due and not overdue by more milliseconds than an `int` can tell
    from a time to come, or it is not due and a positive number of milliseconds away that an
    `int` can hold. -/
def InRange (st : SchedState κ) (now : Timeval) : Prop :=
  ∀ head ∈ st.schedq.head?,
    if sooner head.when { now with tvUsec := now.tvUsec + 1000 } then
      millis head.when now % 2 ^ 32 = 0 ∨ 2 ^ 31 ≤ millis head.when now % 2 ^ 32
    else 0 < millis head.when now ∧ millis head.when now < 2 ^ 31

/-! ## When it is correct -/

theorem int32_int32_add (m n : Int) : int32 (int32 m + n) = int32 (m + n) := by
  unfold int32
  omega

theorem cheopsSchedWait_cons {head : Sched κ} {rest : List (Sched κ)} {st : SchedState κ}
    (now : Timeval) (queue : st.schedq = head :: rest) :
    cheopsSchedWait (some now) st = max 0 (int32 (millis head.when now)) := by
  unfold cheopsSchedWait
  rw [queue]
  dsimp only
  rw [int32_int32_add, ← millis]
  split
  · omega
  · omega

theorem runs_cons {head : Sched κ} {rest : List (Sched κ)} {st : SchedState κ}
    {now : Timeval} (queue : st.schedq = head :: rest) :
    Runs st now ↔ sooner head.when { now with tvUsec := now.tvUsec + 1000 } = true := by
  unfold Runs runqTake
  rw [queue]
  dsimp only
  split
  next due => simpa using due
  next notDue => simpa using notDue

theorem millis_micros (when now : Timeval) :
    |1000 * millis when now - (when.micros - now.micros)| < 1000 := by
  have quotient := Int.mul_tdiv_add_tmod (when.tvUsec - now.tvUsec) 1000
  have low := Int.lt_tmod_of_pos (when.tvUsec - now.tvUsec) (b := 1000) (by omega)
  have high := Int.tmod_lt_of_pos (when.tvUsec - now.tvUsec) (b := 1000) (by omega)
  rw [abs_lt]
  unfold millis Timeval.micros
  omega

/-- The answer is right exactly if the head is in range. -/
theorem cheopsSchedWait_correct_iff (st : SchedState κ) (now : Timeval) :
    WaitCorrect st now ↔ InRange st now := by
  cases queue : st.schedq with
  | nil =>
    have answer : cheopsSchedWait (some now) st = -1 := by
      unfold cheopsSchedWait
      rw [queue]
    apply iff_of_true
    · refine ⟨by simp [answer, queue], ?_, fun other => (other answer).elim⟩
      rw [answer]
      simp [Runs, runqTake, queue]
    · intro head member
      simp [queue] at member
  | cons head rest =>
    have answer := cheopsSchedWait_cons now queue
    have runs : Runs st now ↔ _ := runs_cons queue
    have close := millis_micros head.when now
    have first : ∀ head' ∈ st.schedq.head?, head' = head := by
      intro head' member
      rw [queue] at member
      exact (Option.some.inj member).symm
    have inRange : InRange st now ↔
        if sooner head.when { now with tvUsec := now.tvUsec + 1000 } then
          millis head.when now % 2 ^ 32 = 0 ∨ 2 ^ 31 ≤ millis head.when now % 2 ^ 32
        else 0 < millis head.when now ∧ millis head.when now < 2 ^ 31 := by
      constructor
      · intro inRange
        exact inRange head (by rw [queue]; rfl)
      · intro inRange head' member
        rw [first head' member]
        exact inRange
    rw [inRange]
    generalize millis head.when now = ms at *
    split
    next due =>
      have nonpositive : int32 ms ≤ 0 ↔ ms % 2 ^ 32 = 0 ∨ 2 ^ 31 ≤ ms % 2 ^ 32 := by
        unfold int32
        omega
      rw [← nonpositive]
      constructor
      · intro correct
        have zero := correct.runs_iff.mpr (runs.mpr due)
        omega
      · intro nonpositive
        have zero : cheopsSchedWait (some now) st = 0 := by omega
        refine ⟨?_, ⟨fun _ => runs.mpr due, fun _ => zero⟩, fun _ nonzero => (nonzero zero).elim⟩
        simp [zero, queue]
    next notDue =>
      constructor
      · intro correct
        have nonzero : cheopsSchedWait (some now) st ≠ 0 := by
          intro zero
          exact notDue (runs.mp (correct.runs_iff.mp zero))
        obtain ⟨positive, near⟩ := correct.distance (by omega) nonzero
        replace near := near head (by rw [queue]; rfl)
        rw [abs_lt] at near close
        -- An `int` that is off is off by a multiple of 2^32.
        have off : ∃ k, ms = int32 ms + 2 ^ 32 * k :=
          ⟨(ms + 2 ^ 31) / 2 ^ 32, by unfold int32; omega⟩
        obtain ⟨k, off⟩ := off
        have bound : int32 ms < 2 ^ 31 := by unfold int32; omega
        omega
      · rintro ⟨positive, small⟩
        rw [int32_of_range (by omega) small] at answer
        have exact' : cheopsSchedWait (some now) st = ms := by omega
        refine ⟨?_, ?_, ?_⟩
        · rw [queue]
          constructor
          · intro negative
            omega
          · intro empty
            cases empty
        · constructor
          · intro zero
            omega
          · intro run
            cases notDue (runs.mp run)
        · intro _ _
          refine ⟨by omega, ?_⟩
          intro head' member
          rw [first head' member, exact']
          exact close

/-- After the clock was put forward by more than 2^31 milliseconds the wait is not over, but a
    fortnight long. -/
theorem wait_overflows :
    ∃ c : Config Unit, Run Step ⟨none, initial⟩ [.add 1000 () 0 (some 1) (some ⟨0, 0⟩)] c ∧
      Runs c.st ⟨3000000, 0⟩ ∧ cheopsSchedWait (some ⟨3000000, 0⟩) c.st = 1294968296 ∧
      ¬ WaitCorrect c.st ⟨3000000, 0⟩ := by
  refine ⟨⟨none, (cheopsSchedAdd 1000 () 0 (some 1) (some ⟨0, 0⟩) initial).2⟩,
    .single (.add ?_), by decide, by decide, ?_⟩
  · decide
  · intro correct
    have zero := correct.runs_iff.mpr (by decide)
    revert zero
    decide

end Cheops.Scheduler
