import Cheops.Scheduler.Ownership

/-! # Which events run again

An event leaves the queue in two ways: it is deleted, or its callback has returned.  A deletion is
final, and so is a callback that returns 0, since no id is given out twice (`deletions`).  A
callback that returns non-zero is queued again if the clock can be read then; otherwise
`cheops_sched_runq` releases the event.

The runs are those of `OwnStep`: a callback may call `cheops_sched_runq` too.
-/

namespace Cheops.Scheduler

open Cheops.Lib

variable {κ : Type}

/-! ## Ids in use -/

def Owners.ids (c : Owners κ) : List Int := (c.running ++ c.st.schedq).map (·.id)

theorem Owners.ids_eq (c : Owners κ) :
    c.ids = c.running.map (·.id) ++ (timers c.st).map Prod.fst := by
  rw [ids, List.map_append, Scheduler.ids_eq]

theorem Owners.running_mem_ids {c : Owners κ} {e : Sched κ} (running : e ∈ c.running) :
    e.id ∈ c.ids :=
  List.mem_map_of_mem (List.mem_append_left _ running)

theorem Owners.queued_mem_ids {c : Owners κ} {e : Sched κ} (queued : e ∈ c.st.schedq) :
    e.id ∈ c.ids :=
  List.mem_map_of_mem (List.mem_append_right _ queued)

theorem schedRelease_eventcnt (tmp : Nat) (st : SchedState κ) :
    (schedRelease tmp st).eventcnt = st.eventcnt := by
  unfold schedRelease
  split <;> rfl

/-- The only new id is the one that the counter stands at, and the counter moves on then. -/
theorem cheopsSchedAdd_ids (when : Int) (callback : κ) (data : Nat) (block : Option Nat)
    (now : Option Timeval) (st : SchedState κ) :
    let st' := (cheopsSchedAdd when callback data block now st).2
    (st'.eventcnt = int32 (st.eventcnt + 1) ∧
      ((timers st').map Prod.fst).Subperm (st.eventcnt :: (timers st).map Prod.fst)) ∨
    (st'.eventcnt = st.eventcnt ∧ timers st' = timers st) := by
  unfold cheopsSchedAdd
  split
  next => exact .inr ⟨rfl, rfl⟩
  have count := schedAlloc_eventcnt block st
  have queue := congrArg (List.map Sched.timer) (schedAlloc_schedq block st)
  split
  next st' allocates =>
    rw [allocates] at count queue
    exact .inr ⟨count, queue⟩
  next tmp st' allocates =>
    rw [allocates] at count queue
    change timers st' = timers st at queue
    left
    rw [← count, ← queue]
    cases schedSettime now when with
    | none =>
      refine ⟨schedRelease_eventcnt _ _, ?_⟩
      rw [schedRelease_timers]
      exact (List.sublist_cons_self _ _).subperm
    | some time => exact ⟨rfl, ((schedule_timers _ _).map Prod.fst).subperm⟩

theorem cheopsSchedDel_eventcnt (id : Int) (st : SchedState κ) :
    (cheopsSchedDel id st).2.eventcnt = st.eventcnt := by
  unfold cheopsSchedDel
  split <;> rfl

theorem runqTake_eventcnt {now : Option Timeval} {st st' : SchedState κ} {current : Sched κ}
    (due : runqTake now st = some (current, st')) : st'.eventcnt = st.eventcnt := by
  unfold runqTake at due
  split at due
  next =>
    split at due
    next => cases due; rfl
    next => cases due
  next => cases due

theorem runqReturned_eventcnt (current : Sched κ) (nonzero : Bool) (later : Option Timeval)
    (st : SchedState κ) : (runqReturned current nonzero later st).eventcnt = st.eventcnt := by
  unfold runqReturned
  cases nonzero with
  | false => exact schedRelease_eventcnt _ _
  | true =>
    rw [if_pos rfl]
    cases schedSettime later current.resched with
    | none => exact schedRelease_eventcnt _ _
    | some time => rfl

/-- The only id that a step brings into use is the one that the counter gives out. -/
theorem OwnStep.ids {c c' : Owners κ} {action : Action κ} (step : OwnStep c action c') :
    (isAdd action = true ∧ c'.st.eventcnt = int32 (c.st.eventcnt + 1) ∧
      c'.ids.Subperm (c.st.eventcnt :: c.ids)) ∨
    (c'.st.eventcnt = c.st.eventcnt ∧ c'.ids.Subperm c.ids) := by
  rw [Owners.ids_eq, Owners.ids_eq]
  cases step with
  | @add when callback data block now fresh =>
    rcases cheopsSchedAdd_ids when callback data block now c.st with ⟨moved, given⟩ | ⟨kept, same⟩
    · refine .inl ⟨rfl, moved, ?_⟩
      refine List.Subperm.trans ?_ List.perm_middle.subperm
      exact List.Subperm.append (.refl _) given
    · refine .inr ⟨kept, ?_⟩
      dsimp only
      rw [same]
  | @del id =>
    refine .inr ⟨cheopsSchedDel_eventcnt id c.st, ?_⟩
    rcases cheopsSchedDel_timers id c.st with ⟨e, -, -, left⟩ | ⟨-, same⟩
    · refine List.Subperm.append (.refl _) ?_
      exact (List.sublist_cons_self _ _).subperm.trans (left.map Prod.fst).symm.subperm
    · rw [same]
  | @take st' current now due =>
    refine .inr ⟨runqTake_eventcnt due, ?_⟩
    rw [runqTake_timers due]
    exact List.perm_middle.symm.subperm
  | @returned current running nonzero later innermost =>
    refine .inr ⟨runqReturned_eventcnt _ _ _ _, ?_⟩
    rw [innermost]
    rcases runqReturned_timers current nonzero later c.st with back | same
    · refine List.Subperm.trans ?_ List.perm_middle.subperm
      exact ((back.map Prod.fst).append_left _).subperm
    · dsimp only
      rw [same]
      exact (List.sublist_cons_self _ _).subperm

/-! ## Ids are given out once -/

/-- `issued` ids have been given out, and those in use are among them. -/
structure Issued (issued : Nat) (c : Owners κ) : Prop where
  distinct : c.ids.Nodup
  range : ∀ id ∈ c.ids, 1 ≤ id ∧ id ≤ issued
  eventcnt : c.st.eventcnt = int32 (1 + issued)

/-- `id` was given out and is not in use any more. -/
structure Retired (id : Int) (issued : Nat) (c : Owners κ) : Prop where
  old : id ≤ issued
  unused : id ∉ c.ids

section Issued

variable {id : Int} {issued : Nat} {c c' : Owners κ} {action : Action κ}

theorem start_issued : Issued 0 (Owners.start : Owners κ) where
  distinct := List.nodup_nil
  range := fun _ member => absurd member List.not_mem_nil
  eventcnt := rfl

theorem Issued.subperm (inv : Issued issued c) (count : c'.st.eventcnt = c.st.eventcnt)
    (sub : c'.ids.Subperm c.ids) : Issued issued c' := by
  have subset := sub.subset
  obtain ⟨kept, perm, sublist⟩ := sub
  refine ⟨?_, fun id member => inv.range id (subset member), count.trans inv.eventcnt⟩
  exact perm.nodup_iff.mp (inv.distinct.sublist sublist)

/-- What a step brings into use has not been in use before. -/
theorem Issued.step (inv : Issued issued c)
    (bound : issued + (if isAdd action then 1 else 0) < 2 ^ 31) (step : OwnStep c action c') :
    ∃ issued', issued ≤ issued' ∧ issued' ≤ issued + (if isAdd action then 1 else 0) ∧
      Issued issued' c' ∧ ∀ id, Retired id issued c → Retired id issued' c' := by
  rcases step.ids with ⟨adds, moved, sub⟩ | ⟨count, sub⟩
  · rw [if_pos adds] at bound ⊢
    have next : c.st.eventcnt = issued + 1 := by
      rw [inv.eventcnt, int32_of_range (by omega) (by omega)]
      omega
    rw [next] at moved sub
    have larger : (issued + 1 : Int) ∉ c.ids := by
      intro member
      have := inv.range _ member
      omega
    have subset := sub.subset
    obtain ⟨kept, perm, sublist⟩ := sub
    refine ⟨issued + 1, by omega, Nat.le_refl _, ⟨?_, ?_, ?_⟩, ?_⟩
    · exact perm.nodup_iff.mp ((List.nodup_cons.mpr ⟨larger, inv.distinct⟩).sublist sublist)
    · intro id member
      rcases List.mem_cons.mp (subset member) with rfl | member
      · omega
      · have := inv.range id member
        omega
    · rw [moved]
      push_cast
      congr 1
      omega
    · intro id retired
      refine ⟨by have := retired.old; omega, fun member => ?_⟩
      rcases List.mem_cons.mp (subset member) with same | member
      · have := retired.old
        omega
      · exact retired.unused member
  · exact ⟨issued, Nat.le_refl _, by omega, inv.subperm count sub,
      fun id retired => ⟨retired.old, fun member => retired.unused (sub.subset member)⟩⟩

/-- Only `cheops_sched_add` gives out ids. -/
theorem Issued.other (inv : Issued issued c) (other : isAdd action = false)
    (step : OwnStep c action c') : Issued issued c' := by
  rcases step.ids with ⟨adds, -⟩ | ⟨count, sub⟩
  · rw [other] at adds
    cases adds
  · exact inv.subperm count sub

theorem Issued.run {later : List (Action κ)} (inv : Issued issued c)
    (run : Run OwnStep c later c') (bound : issued + adds later < 2 ^ 31) :
    ∃ issued', issued' ≤ issued + adds later ∧ Issued issued' c' ∧
      ∀ id, Retired id issued c → Retired id issued' c' := by
  revert bound
  refine run.invariant (I := fun later c' => issued + adds later < 2 ^ 31 →
    ∃ issued', issued' ≤ issued + adds later ∧ Issued issued' c' ∧
      ∀ id, Retired id issued c → Retired id issued' c')
    (fun _ => ⟨issued, Nat.le_refl _, inv, fun _ retired => retired⟩) ?_
  intro later c' action c'' _ ih step bound
  rw [adds_snoc] at bound ⊢
  obtain ⟨issued', le, inv', kept⟩ := ih (by omega)
  obtain ⟨issued'', -, le', inv'', kept'⟩ := inv'.step (by omega) step
  exact ⟨issued'', by omega, inv'', fun id retired => kept' id (kept id retired)⟩

/-- A retired id never runs again. -/
theorem Retired.never_runs {later : List (Action κ)} (retired : Retired id issued c)
    (inv : Issued issued c) (run : Run OwnStep c later c') (bound : issued + adds later < 2 ^ 31)
    (e : Sched κ) (running : e ∈ c'.running) : e.id ≠ id := by
  obtain ⟨_, -, -, kept⟩ := inv.run run bound
  intro same
  exact (kept id retired).unused (same ▸ Owners.running_mem_ids running)

/-! ## How an id is retired -/

theorem cheopsSchedDel_eq_zero {st : SchedState κ} :
    (cheopsSchedDel id st).1 = 0 ↔ ∃ e ∈ st.schedq, e.id = id := by
  unfold cheopsSchedDel
  split
  next present => simpa using List.any_eq_true.mp present
  next absent => simpa using absent

/-- Ids are distinct, so a deletion takes the only event with its id. -/
theorem retired_of_deleted (inv : Issued issued c) (deleted : (cheopsSchedDel id c.st).1 = 0) :
    Retired id issued { c with st := (cheopsSchedDel id c.st).2 } := by
  obtain ⟨x, listed, found⟩ := cheopsSchedDel_eq_zero.mp deleted
  refine ⟨found ▸ (inv.range _ (Owners.queued_mem_ids listed)).2, ?_⟩
  rcases cheopsSchedDel_timers id c.st with ⟨e, -, same, left⟩ | ⟨absent, -⟩
  · have distinct := inv.distinct
    rw [Owners.ids_eq] at distinct
    have moved : (c.running.map (·.id) ++ (timers c.st).map Prod.fst).Perm
        (e.id :: (c.running.map (·.id) ++ (timers (cheopsSchedDel id c.st).2).map Prod.fst)) :=
      ((left.map Prod.fst).append_left _).trans List.perm_middle
    rw [moved.nodup_iff, List.nodup_cons, same] at distinct
    rw [Owners.ids_eq]
    exact distinct.1
  · cases absent x listed found

/-- A running event is not in the queue. -/
theorem Issued.not_queued (inv : Issued issued c) {e : Sched κ} (running : e ∈ c.running) :
    ∀ x ∈ c.st.schedq, x.id ≠ e.id := by
  have distinct := inv.distinct
  rw [Owners.ids, List.map_append, List.nodup_append] at distinct
  intro x queued same
  exact distinct.2.2 e.id (List.mem_map_of_mem running) x.id (List.mem_map_of_mem queued) same.symm

theorem runqReturned_released {e : Sched κ} {nonzero : Bool} {now : Option Timeval}
    {st : SchedState κ} (final : nonzero = false ∨ now = none) :
    runqReturned e nonzero now st = schedRelease e.addr st := by
  unfold runqReturned
  rcases final with rfl | rfl
  · rfl
  · cases nonzero with
    | false => rfl
    | true => rfl

/-- An event is in the queue again exactly if its callback returns non-zero and the clock can be
    read. -/
theorem queued_again_iff (inv : Issued issued c) {e : Sched κ} (running : e ∈ c.running)
    (nonzero : Bool) (now : Option Timeval) :
    (∃ x ∈ (runqReturned e nonzero now c.st).schedq, x.id = e.id) ↔
      nonzero = true ∧ now.isSome = true := by
  have absent := inv.not_queued running
  by_cases final : nonzero = false ∨ now = none
  case pos =>
    rw [runqReturned_released final, schedRelease_schedq]
    apply iff_of_false
    · rintro ⟨x, queued, same⟩
      exact absent x queued same
    · rintro ⟨rfl, read⟩
      rcases final with final | rfl
      · cases final
      · cases read
  case neg =>
    rw [not_or] at final
    obtain ⟨now, rfl⟩ := Option.ne_none_iff_exists'.mp final.2
    obtain rfl := Bool.eq_true_of_not_eq_false final.1
    exact iff_of_true ⟨_, mem_stableInsert.mpr (.inl rfl), rfl⟩ ⟨rfl, rfl⟩

theorem retired_of_finished (inv : Issued issued c) {e : Sched κ} {running : List (Sched κ)}
    (innermost : c.running = e :: running) {nonzero : Bool} {now : Option Timeval}
    (final : nonzero = false ∨ now = none) (freed : List Nat) :
    Retired e.id issued ⟨running, runqReturned e nonzero now c.st, c.got, freed⟩ := by
  have distinct := inv.distinct
  have range := inv.range e.id (Owners.running_mem_ids (innermost ▸ .head _))
  rw [Owners.ids, innermost, List.cons_append, List.map_cons, List.nodup_cons] at distinct
  refine ⟨range.2, ?_⟩
  rw [Owners.ids, runqReturned_released final, schedRelease_schedq]
  exact distinct.1

end Issued

/-! ## Deletions -/

/-- What the program may rely on when it deletes events, `added` calls of `cheops_sched_add`
    after the start.  `alone` and `itself` are about all running events, not only the innermost. -/
structure Deletions (added : Nat) (c : Owners κ) : Prop where
  succeeds_iff : ∀ id, (cheopsSchedDel id c.st).1 = 0 ↔ ∃ e ∈ c.st.schedq, e.id = id
  deleted : ∀ id, (cheopsSchedDel id c.st).1 = 0 → ∀ later c',
    Run OwnStep { c with st := (cheopsSchedDel id c.st).2 } later c' →
      added + adds later < 2 ^ 31 → ∀ e ∈ c'.running, e.id ≠ id
  alone : (c.running.map (·.id)).Nodup
  itself : ∀ e ∈ c.running, cheopsSchedDel e.id c.st = (-1, c.st)
  repeated_iff : ∀ e outer, c.running = e :: outer → ∀ nonzero now,
    (∃ x ∈ (runqReturned e nonzero now c.st).schedq, x.id = e.id) ↔
      nonzero = true ∧ now.isSome = true
  finished : ∀ e outer, c.running = e :: outer → ∀ nonzero now,
    (nonzero = false ∨ now = none) → ∀ step later c',
      OwnStep c (.returned nonzero now) step → Run OwnStep step later c' →
        added + adds later < 2 ^ 31 → ∀ e' ∈ c'.running, e'.id ≠ e.id

/-- It holds between any two steps of a run: outside `cheops_sched_runq` and in every callback,
    also in one that a callback runs. -/
theorem deletions {history : List (Action κ)} {c : Owners κ}
    (run : Run OwnStep Owners.start history c) (bound : adds history < 2 ^ 31) :
    Deletions (adds history) c := by
  obtain ⟨issued, le, inv, -⟩ := start_issued.run run (by omega)
  rw [Nat.zero_add] at le
  constructor
  case succeeds_iff => exact fun id => cheopsSchedDel_eq_zero
  case deleted =>
    intro id deleted later c' run' bound' e running
    have retired := retired_of_deleted inv deleted
    exact retired.never_runs (inv.other rfl .del) run' (by omega) e running
  case alone =>
    have distinct := inv.distinct
    rw [Owners.ids, List.map_append, List.nodup_append] at distinct
    exact distinct.1
  case itself =>
    intro e running
    unfold cheopsSchedDel
    rw [if_neg]
    simpa using inv.not_queued running
  case repeated_iff =>
    intro e outer innermost nonzero now
    exact queued_again_iff inv (innermost ▸ .head _) nonzero now
  case finished =>
    intro e outer innermost nonzero now final step later c' returns run' bound' e' running'
    have inv' := inv.other rfl returns
    cases returns with
    | returned innermost' =>
      cases innermost.symm.trans innermost'
      have retired := retired_of_finished inv innermost final
        (runqReturnedFrees e nonzero now c.st ++ c.freed)
      exact retired.never_runs inv' run' (by omega) e' running'

/-- The callback of the first of three events runs `cheops_sched_runq`, and so the second.  It
    may delete the third, but neither itself nor the first. -/
theorem deletions_callback :
    ∃ c : Owners Unit, c.running.map (·.id) = [2, 1] ∧ c.st.schedq.map (·.id) = [3] ∧
      Deletions 3 c := by
  refine ⟨_, ?_, ?_, @deletions _ [.add 10 () 0 (some 1) (some ⟨5, 0⟩),
    .add 20 () 0 (some 2) (some ⟨5, 0⟩), .add 30 () 0 (some 3) (some ⟨5, 0⟩),
    .take (some ⟨5, 10000⟩), .take (some ⟨5, 20000⟩)] _
    (.snoc (.snoc (.snoc (.snoc (.snoc .refl (.add ?_)) (.add ?_)) (.add ?_)) (.take rfl))
      (.take rfl)) (by decide)⟩
  all_goals decide

/-- Two callbacks return the same value, and one of them is not repeated. -/
theorem repetition_needs_clock :
    ∃ c : Owners Unit, ∃ e, Run OwnStep Owners.start
        [.add 10 () 0 (some 1) (some ⟨5, 0⟩), .take (some ⟨5, 10000⟩)] c ∧ c.running = [e] ∧
      (∃ x ∈ (runqReturned e true (some ⟨5, 10000⟩) c.st).schedq, x.id = e.id) ∧
      ¬ ∃ x ∈ (runqReturned e true none c.st).schedq, x.id = e.id := by
  refine ⟨_, _, .snoc (.snoc .refl (.add ?_)) (.take rfl), rfl, ?_, ?_⟩
  all_goals decide

end Cheops.Scheduler
