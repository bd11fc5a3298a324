import Cheops.Lib.Run
import Cheops.Scheduler.Basic

/-! # The timer queue over whole runs

A run interleaves `cheops_sched_add`, `cheops_sched_del` and the turns of
`cheops_sched_runq` in any order; while an event is held by `cheops_sched_runq`, the
additions and deletions are those of its callback.

The invariant has two halves.  `Queued` is about the order, the ids and the counter of
the queue; `Blocks` is about who holds which struct.  Each operation has one lemma for
each half, and `run_keeps` puts them together.
-/

namespace Cheops.Scheduler

open Cheops.Lib

variable {κ : Type}

/-! ## Runs -/

/-- The program between two steps: the event whose callback is running, if any, and the
    static variables. -/
structure Config (κ : Type) where
  current : Option (Sched κ)
  st : SchedState κ

inductive Action (κ : Type) where
  | add (when : Int) (callback : κ) (data : Nat) (block : Option Nat) (now : Option Timeval)
  | del (id : Int)
  | take (now : Option Timeval)
  | returned (nonzero : Bool) (later : Option Timeval)

/-- One step.  `malloc` returns no block that is still allocated. -/
inductive Step : Config κ → Action κ → Config κ → Prop
  | add {c : Config κ} {when : Int} {callback : κ} {data : Nat} {block : Option Nat}
      {now : Option Timeval} (fresh : ∀ p, block = some p → p ∉ c.st.allocated) :
      Step c (.add when callback data block now)
        { c with st := (cheopsSchedAdd when callback data block now c.st).2 }
  | del {c : Config κ} {id : Int} :
      Step c (.del id) { c with st := (cheopsSchedDel id c.st).2 }
  | take {st st' : SchedState κ} {current : Sched κ} {now : Option Timeval}
      (due : runqTake now st = some (current, st')) :
      Step ⟨none, st⟩ (.take now) ⟨some current, st'⟩
  | returned {st : SchedState κ} {current : Sched κ} {nonzero : Bool} {later : Option Timeval} :
      Step ⟨some current, st⟩ (.returned nonzero later)
        ⟨none, runqReturned current nonzero later st⟩

def isAdd : Action κ → Bool
  | .add .. => true
  | _ => false

def adds (history : List (Action κ)) : Nat := history.countP isAdd

theorem adds_snoc (history : List (Action κ)) (action : Action κ) :
    adds (history ++ [action]) = adds history + if isAdd action then 1 else 0 := by
  simp [adds, List.countP_append, List.countP_singleton]

/-! ## The order of the queue -/

theorem sooner_iff {a b : Timeval} :
    sooner a b = true ↔ a.tvSec < b.tvSec ∨ (a.tvSec = b.tvSec ∧ a.tvUsec < b.tvUsec) := by
  simp only [sooner, gt_iff_lt, Bool.or_eq_true, Bool.and_eq_true, decide_eq_true_eq,
    eq_comm (a := b.tvSec)]

theorem sooner_trans {a b c : Timeval} (hab : sooner a b = true) (hbc : sooner b c = true) :
    sooner a c = true := by
  rw [sooner_iff] at *; omega

theorem sooner_asymm {a b : Timeval} (h : sooner a b = true) : sooner b a = false := by
  rw [← Bool.not_eq_true, sooner_iff]; rw [sooner_iff] at h; omega

theorem eq_of_not_sooner {a b : Timeval} (hab : sooner a b = false) (hba : sooner b a = false) :
    a = b := by
  rw [← Bool.not_eq_true, sooner_iff] at hab hba
  obtain ⟨s, u⟩ := a; obtain ⟨s', u'⟩ := b
  simp only at hab hba
  have : s = s' ∧ u = u' := by omega
  rw [this.1, this.2]

/-- `a` is ahead of `b` in the queue: sooner, or inserted earlier for the same time. -/
def Ahead (a b : Sched κ) : Prop :=
  sooner a.when b.when = true ∨ (a.when = b.when ∧ a.inserted < b.inserted)

theorem Ahead.of_sooner_left {a b c : Sched κ} (hab : sooner a.when b.when = true)
    (hbc : Ahead b c) : Ahead a c := by
  rcases hbc with h | ⟨h, -⟩
  · exact .inl (sooner_trans hab h)
  · exact .inl (h ▸ hab)

/-- A struct that `b` is not sooner than, and that was inserted before it, is ahead. -/
theorem Ahead.of_not_sooner {a b : Sched κ} (h : sooner b.when a.when = false)
    (hins : a.inserted < b.inserted) : Ahead a b := by
  cases hab : sooner a.when b.when with
  | true => exact .inl hab
  | false => exact .inr ⟨eq_of_not_sooner hab h, hins⟩

theorem Ahead.not_sooner {a b : Sched κ} (h : Ahead a b) : sooner b.when a.when = false := by
  rcases h with h | ⟨h, -⟩
  · exact sooner_asymm h
  · rw [h, ← Bool.not_eq_true, sooner_iff]; omega

theorem Ahead.inserted_lt {a b : Sched κ} (h : Ahead a b) (heq : a.when = b.when) :
    a.inserted < b.inserted := by
  rcases h with h | ⟨-, h⟩
  · rw [heq, sooner_iff] at h; omega
  · exact h

/-! ## The two halves of the invariant -/

/-- The queue: its order, its counter, and the ids of the events in it and of the event
    `current` taken off it, which are among the `issued` ids given out so far. -/
structure Queued (issued : Nat) (current : Option (Sched κ)) (st : SchedState κ) : Prop where
  ahead : st.schedq.Pairwise Ahead
  inserted : ∀ e ∈ st.schedq, e.inserted < st.insertions
  ids : ((current.toList ++ st.schedq).map (·.id)).Nodup
  range : ∀ e ∈ current.toList ++ st.schedq, 1 ≤ e.id ∧ e.id ≤ issued
  eventcnt : st.eventcnt = int32 (1 + issued)
  schedcnt : st.schedcnt = st.schedq.length

/-- The structs: those in `held`, which are in use, and those on the free list are
    distinct blocks that are allocated, and the free list has its counted length. -/
structure Blocks (held : List Nat) (st : SchedState κ) : Prop where
  nodup : (held ++ st.schedc).Nodup
  live : ∀ p ∈ held ++ st.schedc, p ∈ st.allocated
  schedccnt : st.schedccnt = st.schedc.length
  bound : st.schedccnt ≤ SCHED_MAX_CACHE

theorem Blocks.perm {held held' : List Nat} {st : SchedState κ} (b : Blocks held st)
    (h : held.Perm held') : Blocks held' st where
  nodup := (h.append_right _).nodup_iff.mp b.nodup
  live p hp := b.live p ((h.append_right _).mem_iff.mpr hp)
  schedccnt := b.schedccnt
  bound := b.bound

/-- A struct may go out of use without being released: that is what deletion does. -/
theorem Blocks.sublist {held held' : List Nat} {st : SchedState κ} (b : Blocks held st)
    (h : held'.Sublist held) : Blocks held' st where
  nodup := b.nodup.sublist (h.append_right _)
  live p hp := b.live p ((h.append_right _).subset hp)
  schedccnt := b.schedccnt
  bound := b.bound

/-! ## One lemma for each operation -/

theorem int32_of_range {n : Int} (low : -2 ^ 31 ≤ n) (high : n < 2 ^ 31) : int32 n = n := by
  unfold int32; omega

/-- `sched_alloc` hands out a struct nobody holds, from the free list or from `malloc`,
    and leaves the rest of the state as it was. -/
theorem schedAlloc_cases {block : Option Nat} {st st' : SchedState κ} {tmp : Nat}
    (h : schedAlloc block st = (some tmp, st')) :
    (st.schedc = tmp :: st'.schedc ∧
      st' = { st with schedc := st'.schedc, schedccnt := st.schedccnt - 1 }) ∨
    (st.schedc = [] ∧ block = some tmp ∧
      st' = { st with allocated := tmp :: st.allocated }) := by
  unfold schedAlloc at h
  split at h
  next p rest hc =>
    simp only [Prod.mk.injEq, Option.some.injEq] at h
    obtain ⟨rfl, rfl⟩ := h
    exact .inl ⟨hc, rfl⟩
  next hc =>
    split at h
    next p =>
      simp only [Prod.mk.injEq, Option.some.injEq] at h
      obtain ⟨rfl, rfl⟩ := h
      exact .inr ⟨hc, rfl, rfl⟩
    next => simp at h

theorem schedAlloc_none {block : Option Nat} {st st' : SchedState κ}
    (h : schedAlloc block st = (none, st')) : st' = st := by
  unfold schedAlloc at h
  split at h
  · simp at h
  · split at h
    · simp at h
    · simpa using h.symm

theorem schedAlloc_blocks {held : List Nat} {block : Option Nat} {st st' : SchedState κ}
    {tmp : Nat} (b : Blocks held st) (fresh : ∀ p, block = some p → p ∉ st.allocated)
    (h : schedAlloc block st = (some tmp, st')) : Blocks (tmp :: held) st' := by
  rcases schedAlloc_cases h with ⟨hc, hst⟩ | ⟨hc, hblock, rfl⟩
  · have hperm : (tmp :: held ++ st'.schedc).Perm (held ++ st.schedc) := by
      rw [hc]; exact List.perm_middle.symm
    have hcnt := b.schedccnt
    have hbound := b.bound
    rw [hc, List.length_cons] at hcnt
    refine ⟨hperm.nodup_iff.mpr b.nodup, fun p hp => ?_, ?_, ?_⟩
    · rw [hst]; exact b.live p (hperm.mem_iff.mp hp)
    · rw [hst]; simp only; omega
    · rw [hst]; simp only; omega
  · have hnew : tmp ∉ held ++ st.schedc := fun hp => fresh tmp hblock (b.live tmp hp)
    refine ⟨List.nodup_cons.mpr ⟨hnew, b.nodup⟩, fun p hp => ?_, b.schedccnt, b.bound⟩
    rcases List.mem_cons.mp hp with rfl | hp
    · simp
    · exact List.mem_cons_of_mem _ (b.live p hp)

theorem schedAlloc_queued {issued : Nat} {current : Option (Sched κ)} {block : Option Nat}
    {st st' : SchedState κ} {tmp : Nat} (q : Queued issued current st)
    (h : schedAlloc block st = (some tmp, st')) : Queued issued current st' := by
  rcases schedAlloc_cases h with ⟨-, hst⟩ | ⟨-, -, rfl⟩
  · rw [hst]; exact { q with }
  · exact { q with }

theorem schedRelease_blocks {held : List Nat} {tmp : Nat} {st : SchedState κ}
    (b : Blocks (tmp :: held) st) : Blocks held (schedRelease tmp st) := by
  unfold schedRelease
  split
  next hroom =>
    have hperm : (held ++ tmp :: st.schedc).Perm (tmp :: held ++ st.schedc) := List.perm_middle
    have hcnt := b.schedccnt
    refine ⟨hperm.nodup_iff.mpr b.nodup, fun p hp => b.live p (hperm.mem_iff.mp hp), ?_, ?_⟩
    · simp only [List.length_cons]; push_cast; omega
    · simp only; omega
  next =>
    obtain ⟨hnew, hnodup⟩ := List.nodup_cons.mp b.nodup
    refine ⟨hnodup, fun p hp => ?_, b.schedccnt, b.bound⟩
    have hne : p ≠ tmp := fun heq => hnew (heq ▸ hp)
    exact (List.mem_erase_of_ne hne).mpr (b.live p (List.mem_cons_of_mem _ hp))

theorem schedRelease_queued {issued : Nat} {current : Option (Sched κ)} {tmp : Nat}
    {st : SchedState κ} (q : Queued issued current st) :
    Queued issued current (schedRelease tmp st) := by
  unfold schedRelease
  split <;> exact { q with }

/-- The event held by `cheops_sched_runq` stops counting when its struct is released. -/
theorem Queued.dropCurrent {issued : Nat} {current : Option (Sched κ)} {st : SchedState κ}
    (q : Queued issued current st) : Queued issued none st :=
  { q with
    ids := by
      have h := q.ids
      rw [List.map_append, List.nodup_append] at h
      simpa using h.2.1
    range := fun e he => q.range e (by simp at he; simp [he]) }

/-- `schedule` puts a struct with an id of its own behind the structs of the same time. -/
theorem schedule_queued {issued : Nat} {current : Option (Sched κ)} {s : Sched κ}
    {st : SchedState κ} (q : Queued issued current st)
    (new : s.id ∉ (current.toList ++ st.schedq).map (·.id)) (range : 1 ≤ s.id ∧ s.id ≤ issued) :
    Queued issued current (schedule s st) := by
  have hperm := stableInsert_perm (fun s current : Sched κ => sooner s.when current.when)
    { s with inserted := st.insertions } st.schedq
  have hall : (current.toList ++ (schedule s st).schedq).Perm
      ({ s with inserted := st.insertions } :: (current.toList ++ st.schedq)) :=
    (hperm.append_left _).trans List.perm_middle
  constructor
  case ahead =>
    refine stableInsert_pairwise q.ahead (fun y _ h => .inl h)
      (fun y z h => Ahead.of_sooner_left h) (fun y hy h => ?_)
    exact .of_not_sooner h (q.inserted y hy)
  case inserted =>
    intro e he
    rcases mem_stableInsert.mp he with rfl | he
    · exact Nat.lt_succ_self _
    · exact Nat.lt_succ_of_lt (q.inserted e he)
  case ids =>
    rw [(hall.map _).nodup_iff, List.map_cons, List.nodup_cons]
    exact ⟨new, q.ids⟩
  case range =>
    intro e he
    rcases List.mem_cons.mp (hall.mem_iff.mp he) with rfl | he
    · exact range
    · exact q.range e he
  case eventcnt => exact q.eventcnt
  case schedcnt =>
    have := q.schedcnt
    simp only [schedule, length_stableInsert]; push_cast; omega

theorem schedule_blocks {held : List Nat} {s : Sched κ} {st : SchedState κ}
    (b : Blocks held st) : Blocks held (schedule s st) := { b with }

/-! ## The steps of a run -/

def held (current : Option (Sched κ)) (st : SchedState κ) : List Nat :=
  (current.toList ++ st.schedq).map (·.addr)

/-- The invariant of a run in which `issued` ids have been given out. -/
structure Inv (issued : Nat) (current : Option (Sched κ)) (st : SchedState κ) : Prop where
  queued : Queued issued current st
  blocks : Blocks (held current st) st

theorem held_schedAlloc {current : Option (Sched κ)} {block : Option Nat}
    {st st' : SchedState κ} {tmp : Nat} (h : schedAlloc block st = (some tmp, st')) :
    held current st' = held current st := by
  rcases schedAlloc_cases h with ⟨-, hst⟩ | ⟨-, -, rfl⟩
  · rw [hst]; rfl
  · rfl

/-- Queueing a struct that nobody else holds. -/
theorem Inv.schedule {issued : Nat} {current : Option (Sched κ)} {s : Sched κ}
    {st : SchedState κ} (q : Queued issued current st)
    (b : Blocks (s.addr :: held current st) st)
    (new : s.id ∉ (current.toList ++ st.schedq).map (·.id)) (range : 1 ≤ s.id ∧ s.id ≤ issued) :
    Inv issued current (schedule s st) := by
  have hperm := stableInsert_perm (fun s current : Sched κ => sooner s.when current.when)
    { s with inserted := st.insertions } st.schedq
  have hheld : (s.addr :: held current st).Perm (held current (Scheduler.schedule s st)) := by
    simpa [held, Scheduler.schedule] using
      (((hperm.map (·.addr)).append_left _).trans List.perm_middle).symm
  exact ⟨schedule_queued q new range, (schedule_blocks b).perm hheld⟩

/-- Releasing a struct that nobody else holds. -/
theorem Inv.release {issued : Nat} {current : Option (Sched κ)} {tmp : Nat}
    {st : SchedState κ} (q : Queued issued current st)
    (b : Blocks (tmp :: held current st) st) : Inv issued current (schedRelease tmp st) := by
  have hheld : held current (schedRelease tmp st) = held current st := by
    unfold schedRelease; split <;> rfl
  exact ⟨schedRelease_queued q, by rw [hheld]; exact schedRelease_blocks b⟩

/-- Giving out the next id. -/
theorem Queued.issue {issued : Nat} {current : Option (Sched κ)} {st : SchedState κ}
    (q : Queued issued current st) (bound : issued + 1 < 2 ^ 31) :
    Queued (issued + 1) current { st with eventcnt := int32 (st.eventcnt + 1) } :=
  { q with
    range := fun e he => ⟨(q.range e he).1, by have := (q.range e he).2; push_cast; omega⟩
    eventcnt := by
      rw [q.eventcnt, int32_of_range (n := 1 + issued) (by omega) (by omega)]
      push_cast; congr 1 }

theorem cheopsSchedAdd_inv {issued : Nat} {current : Option (Sched κ)} {st : SchedState κ}
    (when : Int) (callback : κ) (data : Nat) {block : Option Nat} (now : Option Timeval)
    (inv : Inv issued current st) (fresh : ∀ p, block = some p → p ∉ st.allocated)
    (bound : issued + 1 < 2 ^ 31) :
    ∃ issued', issued ≤ issued' ∧ issued' ≤ issued + 1 ∧
      Inv issued' current (cheopsSchedAdd when callback data block now st).2 := by
  unfold cheopsSchedAdd
  by_cases hwhen : when = 0
  · exact ⟨issued, Nat.le_refl _, by omega, by simpa [hwhen] using inv⟩
  rw [if_neg hwhen]
  rcases halloc : schedAlloc block st with ⟨_ | tmp, st'⟩
  · obtain rfl := schedAlloc_none halloc
    exact ⟨issued, Nat.le_refl _, by omega, inv⟩
  refine ⟨issued + 1, by omega, Nat.le_refl _, ?_⟩
  have q := schedAlloc_queued inv.queued halloc
  have b := schedAlloc_blocks inv.blocks fresh halloc
  rw [← held_schedAlloc halloc] at b
  have hid : st'.eventcnt = issued + 1 := by
    rw [q.eventcnt, int32_of_range (by omega) (by omega)]; omega
  have b' : Blocks (tmp :: held current st')
      { st' with eventcnt := int32 (st'.eventcnt + 1) } := { b with }
  cases htime : schedSettime now when with
  | none => exact .release (q.issue bound) b'
  | some time =>
    refine .schedule (q.issue bound) b' ?_ ⟨by simp only [hid]; omega, by simp [hid]⟩
    -- the new id is larger than every id in use
    intro hmem
    obtain ⟨e, he, heq⟩ := List.mem_map.mp hmem
    have := (q.range e he).2
    simp only [hid] at heq
    omega

theorem cheopsSchedDel_inv {issued : Nat} {current : Option (Sched κ)} {st : SchedState κ}
    {id : Int} (inv : Inv issued current st) : Inv issued current (cheopsSchedDel id st).2 := by
  unfold cheopsSchedDel
  split
  next hany =>
    have hsub : (st.schedq.eraseP (·.id == id)).Sublist st.schedq := List.eraseP_sublist
    have hall := hsub.append_left current.toList
    obtain ⟨q, b⟩ := inv
    refine ⟨⟨q.ahead.sublist hsub, fun e he => q.inserted e (hsub.subset he),
      q.ids.sublist (hall.map _), fun e he => q.range e (hall.subset he), q.eventcnt, ?_⟩,
      { b.sublist (hall.map (·.addr)) with }⟩
    obtain ⟨e, he, hid⟩ := List.any_eq_true.mp hany
    have hlen : (st.schedq.eraseP (·.id == id)).length = st.schedq.length - 1 :=
      List.length_eraseP_of_mem he hid
    have hpos := List.length_pos_of_mem he
    have := q.schedcnt
    simp only [hlen]; omega
  next => exact inv

theorem runqTake_inv {issued : Nat} {st st' : SchedState κ} {current : Sched κ}
    {now : Option Timeval} (inv : Inv issued none st)
    (due : runqTake now st = some (current, st')) : Inv issued (some current) st' := by
  unfold runqTake at due
  split at due
  next head rest tv hq =>
    split at due
    next =>
      simp only [Option.some.injEq, Prod.mk.injEq] at due
      obtain ⟨rfl, rfl⟩ := due
      obtain ⟨⟨ahead, inserted, ids, range, eventcnt, schedcnt⟩, b⟩ := inv
      simp only [held, hq, List.length_cons] at *
      refine ⟨⟨ahead.of_cons, fun e he => inserted e (List.mem_cons_of_mem _ he), ids, range,
        eventcnt, ?_⟩, { b with }⟩
      simp only; omega
    next => simp at due
  next => simp at due

theorem runqReturned_inv {issued : Nat} {st : SchedState κ} {current : Sched κ} {nonzero : Bool}
    {later : Option Timeval} (inv : Inv issued (some current) st) :
    Inv issued none (runqReturned current nonzero later st) := by
  obtain ⟨q, b⟩ := inv
  have hids := q.ids
  simp only [Option.toList_some, List.singleton_append, List.map_cons, List.nodup_cons] at hids
  unfold runqReturned
  split
  · cases schedSettime later current.resched with
    | none => exact .release q.dropCurrent b
    | some time => exact .schedule q.dropCurrent b hids.1 (q.range current (by simp))
  · exact .release q.dropCurrent b

theorem initial_inv : Inv 0 none (initial : SchedState κ) := by
  constructor <;> constructor <;> simp [initial, held, SCHED_MAX_CACHE, int32]

/-- The invariant is kept by every run with few enough additions. -/
theorem Inv.run {issued : Nat} {history : List (Action κ)} {c₀ c : Config κ}
    (inv : Inv issued c₀.current c₀.st) (run : Run Step c₀ history c)
    (bound : issued + adds history < 2 ^ 31) :
    ∃ issued', issued ≤ issued' ∧ issued' ≤ issued + adds history ∧ Inv issued' c.current c.st := by
  revert bound
  refine run.invariant (I := fun history c => issued + adds history < 2 ^ 31 →
    ∃ issued', issued ≤ issued' ∧ issued' ≤ issued + adds history ∧ Inv issued' c.current c.st)
    (fun _ => ⟨issued, Nat.le_refl _, by omega, inv⟩) ?_
  intro history c action c' _ ih hstep bound
  rw [adds_snoc] at bound ⊢
  obtain ⟨issued', hge, hle, inv⟩ := ih (by omega)
  cases hstep with
  | add fresh =>
    simp only [isAdd, ite_true] at bound ⊢
    obtain ⟨issued'', hge', hle', inv'⟩ := cheopsSchedAdd_inv _ _ _ _ inv fresh (by omega)
    exact ⟨issued'', by omega, by omega, inv'⟩
  | del => exact ⟨issued', hge, by omega, cheopsSchedDel_inv inv⟩
  | take due => exact ⟨issued', hge, by omega, runqTake_inv inv due⟩
  | returned => exact ⟨issued', hge, by omega, runqReturned_inv inv⟩

/-- The invariant holds all along every run with fewer than `2 ^ 31` additions. -/
theorem run_inv {history : List (Action κ)} {c : Config κ}
    (run : Run Step ⟨none, initial⟩ history c) (bound : adds history < 2 ^ 31) :
    ∃ issued, issued ≤ adds history ∧ Inv issued c.current c.st := by
  obtain ⟨issued, -, hle, inv⟩ := initial_inv.run run (by omega)
  exact ⟨issued, by omega, inv⟩

end Cheops.Scheduler
