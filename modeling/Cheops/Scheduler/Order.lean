import Cheops.Scheduler.Invariant

/-! # What holds of the timer queue in every run

`schedq_wellFormed` is the property of every reachable state, inside the callbacks too.
`cheopsSchedRunq_run` shows that one call of `cheops_sched_runq` is a run of steps,
whatever its callbacks are, as long as they change the queue through
`cheops_sched_add` and `cheops_sched_del` only.
-/

namespace Cheops.Scheduler

open Cheops.Lib

variable {κ : Type}

/-- The queue is sorted by time and, for one time, by insertion; ids are distinct; the two
    counters are the lengths they stand for; no struct is queued twice, or queued and on
    the free list. -/
structure WellFormed (st : SchedState κ) : Prop where
  sorted : st.schedq.Pairwise fun a b =>
    a.when.tvSec < b.when.tvSec ∨ (a.when.tvSec = b.when.tvSec ∧ a.when.tvUsec ≤ b.when.tvUsec)
  stable : st.schedq.Pairwise fun a b => a.when = b.when → a.inserted < b.inserted
  ids : (st.schedq.map (·.id)).Nodup
  schedcnt : st.schedcnt = st.schedq.length
  schedccnt : st.schedccnt = st.schedc.length
  cache : st.schedccnt ≤ SCHED_MAX_CACHE
  unshared : (st.schedq.map (·.addr) ++ st.schedc).Nodup

theorem Inv.wellFormed {issued : Nat} {current : Option (Sched κ)} {st : SchedState κ}
    (inv : Inv issued current st) : WellFormed st := by
  obtain ⟨q, b⟩ := inv
  have hids := q.ids
  rw [List.map_append, List.nodup_append] at hids
  have hqueued : (st.schedq.map (·.addr)).Sublist (held current st) :=
    (List.sublist_append_right _ _).map _
  refine ⟨q.ahead.imp fun h => ?_, q.ahead.imp Ahead.inserted_lt, hids.2.1, q.schedcnt,
    b.schedccnt, b.bound, b.nodup.sublist (hqueued.append_right _)⟩
  have := h.not_sooner
  rw [← Bool.not_eq_true, sooner_iff] at this
  omega

/-- In every run with fewer than `2 ^ 31` additions, between any two steps. -/
theorem schedq_wellFormed {history : List (Action κ)} {c : Config κ}
    (run : Run Step ⟨none, initial⟩ history c) (bound : adds history < 2 ^ 31) :
    WellFormed c.st := by
  obtain ⟨_, -, inv⟩ := run_inv run bound
  exact inv.wellFormed

/-- A run in which an event's callback adds an event for the same time, deletes another,
    and asks to be run again. -/
theorem schedq_wellFormed_callback :
    ∃ c : Config Unit, c.st.schedq.map (·.id) = [3, 1] ∧ WellFormed c.st := by
  refine ⟨_, ?_, @schedq_wellFormed _ [.add 10 () 0 (some 1) (some ⟨5, 0⟩),
    .add 20 () 0 (some 2) (some ⟨5, 0⟩), .take (some ⟨5, 10000⟩),
    .add 10 () 0 (some 3) (some ⟨5, 10000⟩), .del 2, .returned true (some ⟨5, 10000⟩)] _
    (.snoc (.snoc (.snoc (.snoc (.snoc (.snoc .refl (.add ?_)) (.add ?_)) (.take rfl)) (.add ?_))
      .del) .returned) (by decide)⟩
  all_goals decide

/-! ## One call of `cheops_sched_runq` -/

def isCall : Action κ → Bool
  | .add .. | .del _ => true
  | _ => false

/-- `invoke` changes the scheduler through its interface only. -/
def CallsOnly {σ ε : Type} (invoke : κ → Nat → ε → σ × SchedState κ → Bool × σ × SchedState κ) :
    Prop :=
  ∀ callback data world rest st current, ∃ calls,
    calls.all isCall = true ∧
    Run Step ⟨some current, st⟩ calls
      ⟨some current, (invoke callback data world (rest, st)).2.2⟩

theorem cheopsSchedRunq_run {σ ε : Type}
    {invoke : κ → Nat → ε → σ × SchedState κ → Bool × σ × SchedState κ}
    (calls : CallsOnly invoke) (turns : List (Turn ε)) (x : Int) (rest : σ) (st : SchedState κ) :
    ∃ history,
      Run Step ⟨none, st⟩ history ⟨none, (cheopsSchedRunq invoke turns x (rest, st)).2.2⟩ := by
  induction turns generalizing x rest st with
  | nil => exact ⟨[], .refl⟩
  | cons turn turns ih =>
    simp only [cheopsSchedRunq]
    cases htake : runqTake turn.now st with
    | none => exact ⟨[], .refl⟩
    | some taken =>
      obtain ⟨current, st'⟩ := taken
      obtain ⟨body, -, hbody⟩ :=
        calls current.callback current.data turn.world rest st' current
      obtain ⟨later, hlater⟩ := ih (x + 1)
        (invoke current.callback current.data turn.world (rest, st')).2.1
        (runqReturned current (invoke current.callback current.data turn.world (rest, st')).1
          turn.later (invoke current.callback current.data turn.world (rest, st')).2.2)
      exact ⟨_, .cons (.take htake) (hbody.trans (.cons .returned hlater))⟩

end Cheops.Scheduler
