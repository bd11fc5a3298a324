import Cheops.Scheduler.Order
import Cheops.Scheduler.Wait

/-! # One call of `cheops_sched_runq`

The loop looks at the head of the queue again after it has put the event it just ran back in,
and it runs whatever is due within the next millisecond.  `cheopsSchedRunq_once` says that it
runs no event twice, and that it ends, as long as the clock does not come within that
millisecond of the shortest period while it is at work.

An entry is an event as it was put in the queue: putting the event back makes a new entry, with
a new time and a larger `inserted`.
-/

namespace Cheops.Scheduler

open Cheops.Lib

variable {κ : Type}

/-! ## The steps of a call -/

def isTake : Action κ → Bool
  | .take _ => true
  | _ => false

/-- What `gettimeofday` answers during an action; an event that is done with needs no time. -/
def Action.reading : Action κ → Option Timeval
  | .add _ _ _ _ now => now
  | .del _ => none
  | .take now => now
  | .returned nonzero later => if nonzero then later else none

/-- Additions have a positive delay. -/
def Action.Delayed : Action κ → Prop
  | .add when _ _ _ _ => 0 < when
  | _ => True

def Timeval.Normal (tv : Timeval) : Prop := 0 ≤ tv.tvUsec ∧ tv.tvUsec < 1000000

/-- A call under way: the program, the last reading of the clock, and the events the loop has
    run, as it took them off the queue. -/
structure Call (κ : Type) where
  config : Config κ
  clock : Timeval
  invoked : List (Sched κ)

def taken (action : Action κ) (c : Config κ) : List (Sched κ) :=
  if isTake action then c.current.toList else []

/-- One step of a call.  Events are added and deleted by the callback that is running; the
    clock does not go back. -/
structure CallStep (s : Call κ) (action : Action κ) (s' : Call κ) : Prop where
  step : Step s.config action s'.config
  inside : isCall action = true → s.config.current.isSome = true
  delayed : action.Delayed
  reading : ∀ tv, action.reading = some tv → tv.Normal ∧ s.clock.micros ≤ tv.micros
  clock : s'.clock = action.reading.getD s.clock
  invoked : s'.invoked = s.invoked ++ taken action s'.config

/-- The loop at its start, when the clock reads `first`. -/
def Call.start (st : SchedState κ) (first : Timeval) : Call κ := ⟨⟨none, st⟩, first, []⟩

/-! ## The loop makes a call -/

/-- A callback that has changed the queue from `st` to `st'` while the clock went from `t` to
    `t'`. -/
def Between (current : Sched κ) (st : SchedState κ) (t : Timeval) (st' : SchedState κ)
    (t' : Timeval) : Prop :=
  ∃ body, ∀ invoked,
    Run CallStep ⟨⟨some current, st⟩, t, invoked⟩ body ⟨⟨some current, st'⟩, t', invoked⟩

/-- The turns of a loop that reads the clock in order, starting at `t`, with its callbacks. -/
inductive Ordered {σ ε : Type}
    (invoke : κ → Nat → ε → σ × SchedState κ → Bool × σ × SchedState κ) :
    List (Turn ε) → σ × SchedState κ → Timeval → Prop
  | running {state : σ × SchedState κ} {t : Timeval} : Ordered invoke [] state t
  | ended {turn : Turn ε} {turns : List (Turn ε)} {rest : σ} {st : SchedState κ} {t : Timeval}
      (answer : turn.now.isSome = true) (nothing : runqTake turn.now st = none) :
      Ordered invoke (turn :: turns) (rest, st) t
  | turn {now later t t' : Timeval} {world : ε} {turns : List (Turn ε)} {rest rest' : σ}
      {st body st' : SchedState κ} {current : Sched κ} {nonzero : Bool}
      (due : runqTake (some now) st = some (current, body))
      (result : invoke current.callback current.data world (rest, body) = (nonzero, rest', st'))
      (normal : now.Normal ∧ later.Normal) (before : t.micros ≤ now.micros)
      (between : Between current body now st' t') (after : t'.micros ≤ later.micros)
      (next : Ordered invoke turns (rest', runqReturned current nonzero (some later) st')
        (if nonzero then later else t')) :
      Ordered invoke (⟨some now, world, some later⟩ :: turns) (rest, st) t

/-- What `cheops_sched_runq` does is a call, and it returns the number of events it ran. -/
theorem cheopsSchedRunq_call {σ ε : Type}
    {invoke : κ → Nat → ε → σ × SchedState κ → Bool × σ × SchedState κ} {turns : List (Turn ε)}
    {state : σ × SchedState κ} {t : Timeval} (ordered : Ordered invoke turns state t)
    (x : Int) (invoked : List (Sched κ)) :
    ∃ call s, Run CallStep ⟨⟨none, state.2⟩, t, invoked⟩ call s ∧
      s.config = ⟨none, (cheopsSchedRunq invoke turns x state).2.2⟩ ∧
      (cheopsSchedRunq invoke turns x state).1 + invoked.length = x + s.invoked.length := by
  induction ordered generalizing x invoked with
  | running => exact ⟨[], _, .refl, rfl, rfl⟩
  | ended answer nothing =>
    simp only [cheopsSchedRunq, nothing]
    rw [if_neg fun h => by simp [h.2] at answer]
    exact ⟨[], _, .refl, rfl, rfl⟩
  | @turn now later t t' _ _ _ _ st body st' current nonzero due result normal before between after
      next ih =>
    obtain ⟨steps, hbody⟩ := between
    obtain ⟨call, s, hrun, config, count⟩ := ih (x + 1) (invoked ++ [current])
    simp only [cheopsSchedRunq, due, result]
    have taking : CallStep ⟨⟨none, st⟩, t, invoked⟩ (.take (some now))
        ⟨⟨some current, body⟩, now, invoked ++ [current]⟩ := by
      refine ⟨.take due, (fun h => by cases h), trivial, fun tv h => ?_, rfl, rfl⟩
      obtain rfl := Option.some.inj h
      exact ⟨normal.1, before⟩
    have returning : CallStep ⟨⟨some current, st'⟩, t', invoked ++ [current]⟩
        (.returned nonzero (some later))
        ⟨⟨none, runqReturned current nonzero (some later) st'⟩,
          if nonzero then later else t', invoked ++ [current]⟩ := by
      refine ⟨.returned, (fun h => by cases h), trivial, fun tv h => ?_, ?_,
        by simp [taken, isTake]⟩
      · simp only [Action.reading, Option.ite_none_right_eq_some, Option.some.injEq] at h
        obtain ⟨-, rfl⟩ := h
        exact ⟨normal.2, after⟩
      · cases nonzero <;> rfl
    refine ⟨_, s, .cons taking ((hbody _).trans (.cons returning hrun)), config, ?_⟩
    rw [List.length_append, List.length_singleton] at count
    push_cast at count
    omega

/-! ## Calls that can be computed -/

instance (tv : Timeval) : Decidable tv.Normal := inferInstanceAs (Decidable (_ ∧ _))

instance : (action : Action κ) → Decidable action.Delayed
  | .add when _ _ _ _ => inferInstanceAs (Decidable (0 < when))
  | .del _ => .isTrue trivial
  | .take _ => .isTrue trivial
  | .returned _ _ => .isTrue trivial

def Config.exec (c : Config κ) : Action κ → Option (Config κ)
  | .add when callback data block now =>
    if block.all (fun p => !c.st.allocated.contains p) then
      some { c with st := (cheopsSchedAdd when callback data block now c.st).2 }
    else none
  | .del id => some { c with st := (cheopsSchedDel id c.st).2 }
  | .take now =>
    match c.current with
    | some _ => none
    | none => (runqTake now c.st).map fun (current, st) => ⟨some current, st⟩
  | .returned nonzero later =>
    c.current.map fun current => ⟨none, runqReturned current nonzero later c.st⟩

theorem Config.exec_sound {c c' : Config κ} {action : Action κ} (h : c.exec action = some c') :
    Step c action c' := by
  obtain ⟨current, st⟩ := c
  cases action with
  | add when callback data block now =>
    simp only [Config.exec, Option.ite_none_right_eq_some, Option.some.injEq] at h
    obtain ⟨fresh, rfl⟩ := h
    refine .add fun p hp => ?_
    simpa [hp] using fresh
  | del id =>
    obtain rfl := Option.some.inj h
    exact .del
  | take now =>
    cases current with
    | some e => cases h
    | none =>
      obtain ⟨⟨e, st'⟩, due, rfl⟩ := Option.map_eq_some_iff.mp h
      exact .take due
  | returned nonzero later =>
    obtain ⟨e, running, rfl⟩ := Option.map_eq_some_iff.mp h
    obtain rfl : current = some e := running
    exact .returned

def Call.Admits (s : Call κ) (action : Action κ) : Prop :=
  (isCall action = true → s.config.current.isSome = true) ∧ action.Delayed ∧
    ∀ tv ∈ action.reading, tv.Normal ∧ s.clock.micros ≤ tv.micros

instance (s : Call κ) (action : Action κ) : Decidable (s.Admits action) :=
  inferInstanceAs (Decidable (_ ∧ _ ∧ _))

def Call.exec (s : Call κ) (action : Action κ) : Option (Call κ) :=
  if s.Admits action then
    (s.config.exec action).map fun c =>
      ⟨c, action.reading.getD s.clock, s.invoked ++ taken action c⟩
  else none

theorem Call.exec_sound {s s' : Call κ} {action : Action κ} (h : s.exec action = some s') :
    CallStep s action s' := by
  simp only [Call.exec, Option.ite_none_right_eq_some] at h
  obtain ⟨⟨inside, delayed, reading⟩, h⟩ := h
  obtain ⟨c, hstep, rfl⟩ := Option.map_eq_some_iff.mp h
  exact ⟨Config.exec_sound hstep, inside, delayed, reading, rfl, rfl⟩

/-! ## What a step does to the queue -/

inductive Source (c : Config κ) (action : Action κ) (x : Sched κ) : Prop
  | added (block : Option Nat) (now : Option Timeval)
      (action_eq : action = .add x.resched x.callback x.data block now)
      (id : x.id = c.st.eventcnt)
  | again (e : Sched κ) (current : c.current = some e)
      (same : x = { e with when := x.when, inserted := x.inserted })

/-- A step takes the head off the queue, or puts one entry in, or does neither. -/
inductive Effect (c : Config κ) (action : Action κ) (c' : Config κ) : Prop
  | took (e : Sched κ) (now : Timeval) (action_eq : action = .take (some now))
      (current : c'.current = some e) (queue : c.st.schedq = e :: c'.st.schedq)
      (due : sooner e.when { now with tvUsec := now.tvUsec + 1000 } = true)
      (insertions : c'.st.insertions = c.st.insertions)
  | kept (other : isTake action = false) (current : ∀ e, c'.current = some e → c.current = some e)
      (queue : c'.st.schedq.Sublist c.st.schedq) (insertions : c'.st.insertions = c.st.insertions)
  | put (x : Sched κ) (tv : Timeval) (other : isTake action = false)
      (current : ∀ e, c'.current = some e → c.current = some e)
      (queue : c'.st.schedq.Perm (x :: c.st.schedq)) (reading : action.reading = some tv)
      (time : schedSettime (some tv) x.resched = some x.when)
      (inserted : x.inserted = c.st.insertions)
      (insertions : c'.st.insertions = c.st.insertions + 1) (source : Source c action x)

theorem schedAlloc_unchanged (block : Option Nat) (st : SchedState κ) :
    (schedAlloc block st).2.schedq = st.schedq ∧
      (schedAlloc block st).2.insertions = st.insertions ∧
      (schedAlloc block st).2.eventcnt = st.eventcnt := by
  unfold schedAlloc
  split
  · exact ⟨rfl, rfl, rfl⟩
  · split <;> exact ⟨rfl, rfl, rfl⟩

theorem schedRelease_unchanged (tmp : Nat) (st : SchedState κ) :
    (schedRelease tmp st).schedq = st.schedq ∧
      (schedRelease tmp st).insertions = st.insertions ∧
      (schedRelease tmp st).eventcnt = st.eventcnt := by
  unfold schedRelease
  split <;> exact ⟨rfl, rfl, rfl⟩

/-- `schedule` makes one entry. -/
theorem schedule_perm (s : Sched κ) (st : SchedState κ) :
    (schedule s st).schedq.Perm ({ s with inserted := st.insertions } :: st.schedq) :=
  stableInsert_perm _ _ _

theorem Step.effect {c c' : Config κ} {action : Action κ} (h : Step c action c') :
    Effect c action c' := by
  cases h with
  | @add _ when callback data block now fresh =>
    have noEntry : ∀ st : SchedState κ, st.schedq = c.st.schedq → st.insertions = c.st.insertions →
        Effect c (.add when callback data block now) { c with st } := fun st queue insertions =>
      .kept rfl (fun e current => current) (queue ▸ .refl _) insertions
    unfold cheopsSchedAdd
    split
    next => exact noEntry _ rfl rfl
    obtain ⟨queue, insertions, eventcnt⟩ := schedAlloc_unchanged block c.st
    split
    next st' alloc =>
      rw [alloc] at queue insertions
      exact noEntry _ queue insertions
    next tmp st' alloc =>
      rw [alloc] at queue insertions eventcnt
      cases time : schedSettime now when with
      | none =>
        obtain ⟨queue', insertions', -⟩ :=
          schedRelease_unchanged tmp { st' with eventcnt := int32 (st'.eventcnt + 1) }
        exact noEntry _ (queue'.trans queue) (insertions'.trans insertions)
      | some t =>
        obtain ⟨tv, rfl⟩ : ∃ tv, now = some tv := by
          cases now with
          | none => cases time
          | some tv => exact ⟨tv, rfl⟩
        let x : Sched κ := {
          addr := tmp, id := st'.eventcnt, when := t, resched := when, data, callback,
          inserted := st'.insertions }
        have queued : (x :: st'.schedq).Perm (x :: c.st.schedq) := queue ▸ .refl _
        exact .put x tv rfl (fun e current => current) ((schedule_perm _ _).trans queued) rfl time
          insertions (congrArg (· + 1) insertions) (.added block _ rfl eventcnt)
  | del =>
    refine .kept rfl (fun e current => current) ?_ ?_
    · unfold cheopsSchedDel
      split
      · exact List.eraseP_sublist
      · exact .refl _
    · unfold cheopsSchedDel
      split <;> rfl
  | @take st st' current now due =>
    unfold runqTake at due
    split at due
    next head rest tv queue =>
      split at due
      next isDue =>
        simp only [Option.some.injEq, Prod.mk.injEq] at due
        obtain ⟨rfl, rfl⟩ := due
        exact .took head tv rfl rfl queue isDue rfl
      next => cases due
    next => cases due
  | @returned st current nonzero later =>
    have noEntry : Effect ⟨some current, st⟩ (.returned nonzero later)
        ⟨none, schedRelease current.addr st⟩ := by
      obtain ⟨queue, insertions, -⟩ := schedRelease_unchanged current.addr st
      exact .kept rfl (fun e held => by cases held) (queue ▸ .refl _) insertions
    unfold runqReturned
    cases nonzero with
    | false => exact noEntry
    | true =>
      cases later with
      | none => exact noEntry
      | some tv =>
        exact .put _ tv rfl (fun e held => by cases held) (schedule_perm _ _) rfl rfl rfl rfl
          (.again current rfl rfl)

/-! ## When an entry is due again -/

/-- `sched_settime` keeps the distance; only its microseconds may come to a whole second. -/
theorem schedSettime_micros {tv t : Timeval} {when : Int}
    (time : schedSettime (some tv) when = some t) (normal : tv.Normal) :
    t.micros = tv.micros + 1000 * when ∧ t.tvUsec ≤ 1000000 := by
  obtain ⟨low, high⟩ := normal
  have whole := Int.mul_tdiv_add_tmod when 1000
  have rest := Int.tmod_lt_of_pos when (b := 1000) (by omega)
  simp only [schedSettime, Option.map_some, Option.some.injEq] at time
  split at time
  next carry =>
    obtain rfl := time
    simp only [Timeval.micros]
    omega
  next noCarry =>
    obtain rfl := time
    simp only [Timeval.micros] at noCarry ⊢
    omega

/-- The loop looks no further ahead than a millisecond. -/
theorem micros_of_due {t now : Timeval} (usec : t.tvUsec ≤ 1000000) (normal : now.Normal)
    (due : sooner t { now with tvUsec := now.tvUsec + 1000 } = true) :
    t.micros < now.micros + 1000 := by
  obtain ⟨low, high⟩ := normal
  rw [sooner_iff] at due
  simp only [Timeval.micros] at due ⊢
  omega

/-- What was put in the queue at `tv` is due only when all of its delay but a millisecond has
    gone by. -/
theorem elapsed_of_due {tv t now : Timeval} {when : Int}
    (time : schedSettime (some tv) when = some t) (normal : tv.Normal) (normal' : now.Normal)
    (due : sooner t { now with tvUsec := now.tvUsec + 1000 } = true) :
    tv.micros + 1000 * when < now.micros + 1000 := by
  obtain ⟨micros, usec⟩ := schedSettime_micros time normal
  have := micros_of_due usec normal' due
  omega

/-! ## No entry is run twice -/

structure Distinct (log : List (Sched κ)) (st : SchedState κ) : Prop where
  nodup : ((log ++ st.schedq).map (·.inserted)).Nodup
  below : ∀ x ∈ log ++ st.schedq, x.inserted < st.insertions

theorem Distinct.effect {log : List (Sched κ)} {c c' : Config κ} {action : Action κ}
    (distinct : Distinct log c.st) (effect : Effect c action c') :
    Distinct (log ++ taken action c') c'.st := by
  obtain ⟨nodup, below⟩ := distinct
  cases effect with
  | took e now action_eq current queue due insertions =>
    have moved : log ++ taken action c' ++ c'.st.schedq = log ++ c.st.schedq := by
      simp [taken, isTake, action_eq, current, queue]
    exact ⟨moved ▸ nodup, fun x hx => insertions ▸ below x (moved ▸ hx)⟩
  | kept other current queue insertions =>
    have sub : (log ++ taken action c' ++ c'.st.schedq).Sublist (log ++ c.st.schedq) := by
      simpa [taken, other] using queue
    exact ⟨nodup.sublist (sub.map _), fun x hx => insertions ▸ below x (sub.subset hx)⟩
  | put x tv other current queue reading time inserted insertions source =>
    have perm : (log ++ taken action c' ++ c'.st.schedq).Perm (x :: (log ++ c.st.schedq)) := by
      simpa [taken, other] using (queue.append_left log).trans List.perm_middle
    constructor
    case nodup =>
      rw [(perm.map _).nodup_iff, List.map_cons, List.nodup_cons]
      refine ⟨fun hmem => ?_, nodup⟩
      obtain ⟨y, hy, heq⟩ := List.mem_map.mp hmem
      have := below y hy
      omega
    case below =>
      intro y hy
      rcases List.mem_cons.mp (perm.mem_iff.mp hy) with rfl | hy
      · omega
      · have := below y hy
        omega

/-- Entries are distinct in every reachable queue. -/
theorem reachable_distinct {past : List (Action κ)} {c : Config κ}
    (reach : Run Step ⟨none, initial⟩ past c) : Distinct [] c.st := by
  refine reach.state_invariant (I := fun c => Distinct [] c.st) ?_ ?_
  · constructor <;> simp [initial]
  · intro c action c' distinct hstep
    obtain ⟨nodup, below⟩ := distinct.effect hstep.effect
    exact ⟨nodup.sublist ((List.sublist_append_right _ _).map _),
      fun x hx => below x (List.mem_append_right _ hx)⟩

theorem call_distinct {st : SchedState κ} {first : Timeval} {call : List (Action κ)} {s : Call κ}
    (distinct : Distinct [] st) (run : Run CallStep (.start st first) call s) :
    Distinct s.invoked s.config.st := by
  refine run.state_invariant (I := fun s => Distinct s.invoked s.config.st) distinct ?_
  intro s action s' distinct hstep
  rw [hstep.invoked]
  exact distinct.effect hstep.step.effect

/-! ## What may be run -/

/-- The program's part of a call is a run. -/
theorem call_config {s₀ s : Call κ} {call : List (Action κ)} (run : Run CallStep s₀ call s) :
    Run Step s₀.config call s.config :=
  run.map (f := Call.config) fun _ _ _ hstep => hstep.step

theorem CallStep.clock_le {s s' : Call κ} {action : Action κ} (h : CallStep s action s') :
    s.clock.micros ≤ s'.clock.micros := by
  rw [h.clock]
  cases hreading : action.reading with
  | none => exact le_refl _
  | some tv => exact (h.reading tv hreading).2

theorem CallStep.clock_of_reading {s s' : Call κ} {action : Action κ} {tv : Timeval}
    (h : CallStep s action s') (reading : action.reading = some tv) : s'.clock = tv := by
  rw [h.clock, reading, Option.getD_some]

structure AddedIn (past : List (Action κ)) (st : SchedState κ) (call : List (Action κ))
    (x : Sched κ) : Prop where
  added : ∃ block now, Action.add x.resched x.callback x.data block now ∈ call
  id : adds (past ++ call) < 2 ^ 31 → ∀ e ∈ st.schedq, e.id < x.id

theorem AddedIn.snoc {past call : List (Action κ)} {st : SchedState κ} {x : Sched κ}
    (h : AddedIn past st call x) (action : Action κ) : AddedIn past st (call ++ [action]) x where
  added := by
    obtain ⟨block, now, hmem⟩ := h.added
    exact ⟨block, now, List.mem_append_left _ hmem⟩
  id bound := by
    rw [← List.append_assoc, adds_snoc] at bound
    exact h.id (by omega)

/-- The id that the next addition gets is larger than those the call started with. -/
theorem id_lt_eventcnt {past call : List (Action κ)} {st : SchedState κ} {c : Config κ}
    (reach : Run Step ⟨none, initial⟩ past ⟨none, st⟩) (run : Run Step ⟨none, st⟩ call c)
    (bound : adds (past ++ call) + 1 < 2 ^ 31) : ∀ e ∈ st.schedq, e.id < c.st.eventcnt := by
  intro e he
  rw [adds, List.countP_append, ← adds, ← adds] at bound
  obtain ⟨issued, hissued, inv⟩ := run_inv reach (by omega)
  obtain ⟨issued', hge, hle, inv'⟩ := inv.run run (by omega)
  have range := (inv.queued.range e (by simpa using he)).2
  have counter := inv'.queued.eventcnt
  rw [int32_of_range (by omega) (by omega)] at counter
  omega

/-- The period of the event is longer than the call, by the millisecond the loop looks ahead. -/
def Long (first : Timeval) (limit : Int) (x : Sched κ) : Prop :=
  limit - first.micros + 1000 ≤ 1000 * x.resched

/-- The entry was put in the queue when the clock did not read less than `first`. -/
def SetSince (first : Timeval) (x : Sched κ) : Prop :=
  ∃ tv : Timeval, tv.Normal ∧ first.micros ≤ tv.micros ∧
    schedSettime (some tv) x.resched = some x.when

/-- A call that started with the queue of `st` and will read no more than `limit`. -/
structure Underway (past : List (Action κ)) (st : SchedState κ) (first : Timeval) (limit : Int)
    (call : List (Action κ)) (s : Call κ) : Prop where
  clock : first.micros ≤ s.clock.micros
  queue : ∀ x ∈ s.config.st.schedq, x ∈ st.schedq ∨
    (SetSince first x ∧ (Long first limit x ∨ AddedIn past st call x))
  invoked : ∀ x ∈ s.invoked, x ∈ st.schedq ∨ (¬ Long first limit x ∧ AddedIn past st call x)
  current : ∀ e, s.config.current = some e → e ∈ s.invoked

/-- An entry made since the call started is due only if its period is short. -/
theorem SetSince.not_long {first now : Timeval} {limit : Int} {x : Sched κ}
    (h : SetSince first x) (normal : now.Normal) (within : now.micros ≤ limit)
    (due : sooner x.when { now with tvUsec := now.tvUsec + 1000 } = true) :
    ¬ Long first limit x := by
  obtain ⟨tv, normal', since, time⟩ := h
  have := elapsed_of_due time normal' normal due
  unfold Long
  omega

section

variable {past call : List (Action κ)} {st : SchedState κ} {first : Timeval} {limit : Int}
  {s s' : Call κ} {action : Action κ}

theorem Underway.step (reach : Run Step ⟨none, initial⟩ past ⟨none, st⟩)
    (periods : ∀ e ∈ st.schedq, Long first limit e)
    (run : Run CallStep (.start st first) call s) (inv : Underway past st first limit call s)
    (h : CallStep s action s') (within : s'.clock.micros ≤ limit) :
    Underway past st first limit (call ++ [action]) s' := by
  obtain ⟨clock, queue, invoked, current⟩ := inv
  have clock' : first.micros ≤ s'.clock.micros := by
    have := h.clock_le
    omega
  have queue' : ∀ x ∈ s.config.st.schedq, x ∈ st.schedq ∨
      (SetSince first x ∧ (Long first limit x ∨ AddedIn past st (call ++ [action]) x)) :=
    fun x hx => (queue x hx).imp_right fun ⟨since, source⟩ =>
      ⟨since, source.imp_right fun added => added.snoc action⟩
  have invoked' : ∀ x ∈ s.invoked, x ∈ st.schedq ∨
      (¬ Long first limit x ∧ AddedIn past st (call ++ [action]) x) :=
    fun x hx => (invoked x hx).imp_right fun ⟨short, added⟩ => ⟨short, added.snoc action⟩
  cases h.step.effect with
  | took e now action_eq holds split due insertions =>
    have hinvoked : s'.invoked = s.invoked ++ [e] := by
      simp [h.invoked, taken, isTake, action_eq, holds]
    have reading : action.reading = some now := by
      rw [action_eq]
      rfl
    constructor
    case clock => exact clock'
    case queue => exact fun x hx => queue' x (split ▸ List.mem_cons_of_mem _ hx)
    case invoked =>
      intro x hx
      rw [hinvoked, List.mem_append, List.mem_singleton] at hx
      rcases hx with hx | rfl
      · exact invoked' x hx
      · refine (queue' x (by simp [split])).imp_right fun ⟨since, source⟩ => ?_
        -- it is due before `limit`, so it cannot be one of those that were put back
        rw [h.clock_of_reading reading] at within
        have short := since.not_long (h.reading now reading).1 within due
        exact ⟨short, source.resolve_left short⟩
    case current =>
      intro x hx
      obtain rfl := Option.some.inj (holds.symm.trans hx)
      simp [hinvoked]
  | kept other held sub insertions =>
    have hinvoked : s'.invoked = s.invoked := by simp [h.invoked, taken, other]
    exact ⟨clock', fun x hx => queue' x (sub.subset hx), hinvoked ▸ invoked',
      fun e he => hinvoked ▸ current e (held e he)⟩
  | put x tv other held perm reading time inserted insertions source =>
    have hinvoked : s'.invoked = s.invoked := by simp [h.invoked, taken, other]
    obtain ⟨normal, later⟩ := h.reading tv reading
    refine ⟨clock', fun y hy => ?_, hinvoked ▸ invoked',
      fun e he => hinvoked ▸ current e (held e he)⟩
    rcases List.mem_cons.mp (perm.mem_iff.mp hy) with rfl | hy
    · refine .inr ⟨⟨tv, normal, by omega, time⟩, ?_⟩
      cases source with
      | added block now action_eq id =>
        refine .inr ⟨⟨block, now, by simp [action_eq]⟩, fun bound => ?_⟩
        rw [← List.append_assoc, adds_snoc, action_eq] at bound
        rw [id]
        exact id_lt_eventcnt reach (call_config run) bound
      | again e running same =>
        rw [same]
        rcases invoked' e (current e running) with start | ⟨-, added, id⟩
        · exact .inl (periods e start)
        · exact .inr ⟨added, id⟩
    · exact queue' y hy

theorem call_underway (reach : Run Step ⟨none, initial⟩ past ⟨none, st⟩)
    (periods : ∀ e ∈ st.schedq, Long first limit e)
    (run : Run CallStep (.start st first) call s) (within : s.clock.micros ≤ limit) :
    Underway past st first limit call s := by
  revert within
  refine run.invariant
    (I := fun call s => s.clock.micros ≤ limit → Underway past st first limit call s) ?_ ?_
  · intro _
    exact ⟨le_refl _, fun x hx => .inl hx, by simp [Call.start], by simp [Call.start]⟩
  · intro call s action s' run ih h within
    exact (ih (h.clock_le.trans within)).step reach periods run h within

end

/-! ## Why it ends -/

/-- What the loop would run if the clock read `clock`. -/
def dueAt (clock : Timeval) (e : Sched κ) : Bool :=
  sooner e.when { clock with tvUsec := clock.tvUsec + 1000 }

/-- The time that is left until `limit`, and then the number of entries that are due now.  What
    is put in the queue now is not due now, so that only the clock can make it so. -/
def Call.measure (limit : Int) (s : Call κ) : ℕ ×ₗ ℕ :=
  toLex ((limit - s.clock.micros).toNat, s.config.st.schedq.countP (dueAt s.clock))

/-- Every event that is queued or has been run has a positive period. -/
structure Periodic (s : Call κ) : Prop where
  clock : s.clock.Normal
  queue : ∀ x ∈ s.config.st.schedq, 0 < x.resched
  current : ∀ e, s.config.current = some e → 0 < e.resched

theorem Timeval.eq_of_micros {a b : Timeval} (ha : a.Normal) (hb : b.Normal)
    (h : a.micros = b.micros) : a = b := by
  obtain ⟨s, u⟩ := a
  obtain ⟨s', u'⟩ := b
  simp only [Timeval.Normal, Timeval.micros] at ha hb h
  have : s = s' ∧ u = u' := by omega
  rw [this.1, this.2]

theorem Source.periodic {c : Config κ} {action : Action κ} {x : Sched κ}
    (source : Source c action x) (delayed : action.Delayed)
    (current : ∀ e, c.current = some e → 0 < e.resched) : 0 < x.resched := by
  cases source with
  | added block now action_eq id =>
    rw [action_eq] at delayed
    exact delayed
  | again e running same =>
    rw [same]
    exact current e running

theorem Periodic.step {s s' : Call κ} {action : Action κ} (periodic : Periodic s)
    (h : CallStep s action s') : Periodic s' := by
  obtain ⟨clock, queue, current⟩ := periodic
  have clock' : s'.clock.Normal := by
    rw [h.clock]
    cases hreading : action.reading with
    | none => exact clock
    | some tv => exact (h.reading tv hreading).1
  cases h.step.effect with
  | took e now action_eq holds split due insertions =>
    refine ⟨clock', fun x hx => queue x (split ▸ List.mem_cons_of_mem _ hx), fun x hx => ?_⟩
    obtain rfl := Option.some.inj (holds.symm.trans hx)
    exact queue e (by simp [split])
  | kept other held sub insertions =>
    exact ⟨clock', fun x hx => queue x (sub.subset hx), fun e he => current e (held e he)⟩
  | put x tv other held perm reading time inserted insertions source =>
    refine ⟨clock', fun y hy => ?_, fun e he => current e (held e he)⟩
    rcases List.mem_cons.mp (perm.mem_iff.mp hy) with rfl | hy
    · exact source.periodic h.delayed current
    · exact queue y hy

/-- While the clock stands still, no step makes more entries due, and taking one leaves fewer. -/
theorem CallStep.countP_dueAt {s s' : Call κ} {action : Action κ} (h : CallStep s action s')
    (periodic : Periodic s) (still : s'.clock = s.clock) :
    s'.config.st.schedq.countP (dueAt s.clock) + (if isTake action then 1 else 0) ≤
      s.config.st.schedq.countP (dueAt s.clock) := by
  cases h.step.effect with
  | took e now action_eq holds split due insertions =>
    have reading : action.reading = some now := by
      rw [action_eq]
      rfl
    rw [← h.clock_of_reading reading, still] at due
    rw [split, List.countP_cons_of_pos (by exact due)]
    simp [isTake, action_eq]
  | kept other held sub insertions =>
    simpa [other] using sub.countP_le
  | put x tv other held perm reading time inserted insertions source =>
    have notDue : dueAt s.clock x = false := by
      rw [← Bool.not_eq_true]
      intro due
      have period := source.periodic h.delayed periodic.current
      have normal := (h.reading tv reading).1
      have now : s.clock = tv := still.symm.trans (h.clock_of_reading reading)
      have := elapsed_of_due time normal periodic.clock due
      rw [now] at this
      omega
    rw [perm.countP_eq, List.countP_cons_of_neg (by simp [notDue])]
    simp [other]

/-- No step makes the measure larger, and taking an event makes it smaller. -/
theorem CallStep.measure_le {s s' : Call κ} {action : Action κ} {limit : Int}
    (h : CallStep s action s') (periodic : Periodic s) (within : s'.clock.micros ≤ limit) :
    s'.measure limit ≤ s.measure limit ∧
      (isTake action = true → s'.measure limit < s.measure limit) := by
  have later := h.clock_le
  rw [Call.measure, Call.measure, Prod.Lex.toLex_le_toLex, Prod.Lex.toLex_lt_toLex]
  by_cases still : s'.clock.micros = s.clock.micros
  case neg =>
    have less : (limit - s'.clock.micros).toNat < (limit - s.clock.micros).toNat := by omega
    exact ⟨.inl less, fun _ => .inl less⟩
  case pos =>
    have same := Timeval.eq_of_micros (periodic.step h).clock periodic.clock still
    have count := h.countP_dueAt periodic same
    rw [same]
    refine ⟨.inr ⟨rfl, by omega⟩, fun taking => .inr ⟨rfl, ?_⟩⟩
    simp only [taking, if_true] at count
    omega

/-- If the clock stays below a limit, the loop takes finitely many events. -/
theorem call_ends {s₀ : Call κ} {states : ℕ → Call κ} {actions : ℕ → Action κ} {limit : Int}
    (periodic : Periodic s₀) (execution : Execution CallStep s₀ states actions)
    (within : ∀ n, (states n).clock.micros ≤ limit) :
    ∃ n, ∀ m, n ≤ m → isTake (actions m) = false := by
  have periodic' : ∀ n, Periodic (states n) := fun n =>
    (execution.run n).state_invariant periodic fun _ _ _ periodic h => periodic.step h
  obtain ⟨n, ends⟩ := execution.finitely_many (M := Call.measure limit)
    (P := fun action => isTake action = true)
    (fun n h => (h.measure_le (periodic' n) (within (n + 1))).1)
    (fun n taking h => (h.measure_le (periodic' n) (within (n + 1))).2 taking)
  exact ⟨n, fun m hm => by simpa using ends m hm⟩

/-! ## What one call does -/

/-- What `cheops_sched_runq` has run of the queue of `st`: an entry that stood there, or one
    that its callbacks added with a delay shorter than the call and the look-ahead; none of
    them twice, and so, as long as ids are not used up, no event of `st` twice. -/
structure OnceEach (past : List (Action κ)) (st : SchedState κ) (first : Timeval)
    (call : List (Action κ)) (s : Call κ) : Prop where
  present : ∀ x ∈ s.invoked, x ∈ st.schedq ∨
    (1000 * x.resched < s.clock.micros - first.micros + 1000 ∧ AddedIn past st call x)
  once : s.invoked.Nodup
  ids : adds (past ++ call) < 2 ^ 31 → ∀ e ∈ st.schedq, (s.invoked.map (·.id)).count e.id ≤ 1

theorem call_onceEach {past call : List (Action κ)} {st : SchedState κ} {first : Timeval}
    {s : Call κ} (reach : Run Step ⟨none, initial⟩ past ⟨none, st⟩)
    (periods : ∀ e ∈ st.schedq, Long first s.clock.micros e)
    (run : Run CallStep (.start st first) call s) : OnceEach past st first call s := by
  have underway := call_underway reach periods run (le_refl _)
  have distinct := call_distinct (reachable_distinct reach) run
  have once : s.invoked.Nodup :=
    (distinct.nodup.sublist ((List.sublist_append_left _ _).map _)).of_map _
  constructor
  case present =>
    intro x hx
    refine (underway.invoked x hx).imp_right fun ⟨short, added⟩ => ⟨?_, added⟩
    unfold Long at short
    omega
  case once => exact once
  case ids =>
    intro bound e he
    have few : adds past < 2 ^ 31 := by
      rw [adds, List.countP_append, ← adds] at bound
      omega
    obtain ⟨issued, -, inv⟩ := run_inv reach few
    have ids := inv.wellFormed.ids
    -- the only entry with this id that can have been run is `e` itself
    have only : ∀ x ∈ s.invoked, x.id = e.id → x = e := by
      intro x hx hid
      rcases underway.invoked x hx with start | ⟨-, added⟩
      · exact List.inj_on_of_nodup_map ids start he hid
      · have := added.id bound e he
        omega
    classical
    calc (s.invoked.map (·.id)).count e.id
        = s.invoked.countP (fun x => x.id == e.id) := by
          rw [List.count, List.countP_map]
          rfl
      _ ≤ s.invoked.countP (fun x => x == e) :=
          List.countP_mono_left fun x hx hid => by simpa using only x hx (by simpa using hid)
      _ ≤ 1 := List.nodup_iff_count_le_one.mp once e

/-- As long as the clock stays a millisecond short of the shortest period, a call runs each
    event once at most, and it runs finitely many. -/
theorem cheopsSchedRunq_once {past : List (Action κ)} {st : SchedState κ} {first : Timeval}
    {advance : Int} (reach : Run Step ⟨none, initial⟩ past ⟨none, st⟩) (normal : first.Normal)
    (periods : ∀ e ∈ st.schedq, advance + 1000 ≤ 1000 * e.resched) :
    (∀ call s, Run CallStep (.start st first) call s →
      s.clock.micros ≤ first.micros + advance → OnceEach past st first call s) ∧
    (∀ states actions, Execution CallStep (.start st first) states actions →
      (∀ n, (states n).clock.micros ≤ first.micros + advance) →
      ∃ n, ∀ m, n ≤ m → isTake (actions m) = false) := by
  constructor
  · intro call s run within
    refine call_onceEach reach (fun e he => ?_) run
    have := periods e he
    unfold Long
    omega
  · intro states actions execution within
    have start := within 0
    rw [execution.start] at start
    have periodic : Periodic (.start st first) := by
      refine ⟨normal, fun x hx => ?_, fun e he => by cases he⟩
      have := periods x hx
      simp only [Call.start] at start
      omega
    exact call_ends periodic execution within

/-- Events of periods 10 and 12 are run once each within the 9 milliseconds in which it is safe, and
    so is the one that the first callback adds. -/
theorem cheopsSchedRunq_once_adding :
    ∃ (past call : List (Action Unit)) (st : SchedState Unit) (first : Timeval) (s : Call Unit),
      st.schedq.map (·.id) = [1, 2] ∧ s.invoked.map (·.id) = [1, 2, 3] ∧
      OnceEach past st first call s ∧
      ∀ states actions, Execution CallStep (.start st first) states actions →
        (∀ n, (states n).clock.micros ≤ first.micros + 9000) →
        ∃ n, ∀ m, n ≤ m → isTake (actions m) = false := by
  let past : List (Action Unit) :=
    [.add 10 () 0 (some 1) (some ⟨5, 0⟩), .add 12 () 0 (some 2) (some ⟨5, 0⟩)]
  let call : List (Action Unit) :=
    [.take (some ⟨5, 11500⟩), .add 2 () 0 (some 3) (some ⟨5, 12000⟩),
      .returned true (some ⟨5, 12000⟩), .take (some ⟨5, 12500⟩), .returned false none,
      .take (some ⟨5, 14500⟩)]
  let one : SchedState Unit := (cheopsSchedAdd 10 () 0 (some 1) (some ⟨5, 0⟩) initial).2
  let st : SchedState Unit := (cheopsSchedAdd 12 () 0 (some 2) (some ⟨5, 0⟩) one).2
  have hexec : (call.foldlM Call.exec (Call.start st ⟨5, 11500⟩)).any (fun s =>
      s.invoked.map (·.id) == [1, 2, 3] && s.clock == ⟨5, 14500⟩) = true := by
    decide +kernel
  obtain ⟨s, hrun, hs⟩ := (Option.any_eq_true _ _).mp hexec
  simp only [Bool.and_eq_true, beq_iff_eq] at hs
  have added : Run Step ⟨none, initial⟩ past ⟨none, st⟩ :=
    (Run.single (.add (by decide))).snoc (.add (by decide))
  have once := @cheopsSchedRunq_once Unit past st ⟨5, 11500⟩ 9000 added (by decide) (by decide)
  refine ⟨past, call, st, ⟨5, 11500⟩, s, by decide, hs.1,
    once.1 call s (Run.of_exec Call.exec_sound hrun) ?_, once.2⟩
  rw [hs.2]
  decide

/-- An event of period 1 is run a second time within the same millisecond: put back in when the
    clock reads 1 µs, it is due when the clock reads 2 µs. -/
theorem cheopsSchedRunq_twice :
    ∃ (past call : List (Action Unit)) (st : SchedState Unit) (first : Timeval) (s : Call Unit),
      Run Step ⟨none, initial⟩ past ⟨none, st⟩ ∧ Run CallStep (.start st first) call s ∧
      (∀ e ∈ st.schedq, s.clock.micros - first.micros < 1000 * e.resched) ∧
      st.schedq.map (·.id) = [1] ∧ s.invoked.map (·.id) = [1, 1] := by
  let call : List (Action Unit) :=
    [.take (some ⟨5, 1⟩), .returned true (some ⟨5, 1⟩), .take (some ⟨5, 2⟩)]
  let st : SchedState Unit := (cheopsSchedAdd 1 () 0 (some 1) (some ⟨5, 0⟩) initial).2
  have hexec : (call.foldlM Call.exec (Call.start st ⟨5, 1⟩)).any (fun s =>
      s.invoked.map (·.id) == [1, 1] && s.clock == ⟨5, 2⟩) = true := by
    decide +kernel
  obtain ⟨s, hrun, hs⟩ := (Option.any_eq_true _ _).mp hexec
  simp only [Bool.and_eq_true, beq_iff_eq] at hs
  refine ⟨[.add 1 () 0 (some 1) (some ⟨5, 0⟩)], call, st, ⟨5, 1⟩, s, .single (.add (by decide)),
    Run.of_exec Call.exec_sound hrun, ?_, by decide, hs.1⟩
  rw [hs.2]
  decide

end Cheops.Scheduler
