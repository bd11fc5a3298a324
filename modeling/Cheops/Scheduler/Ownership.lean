import Cheops.Scheduler.Events
import Cheops.Scheduler.Invariant

/-! # Who owns a `struct sched`

A struct that `sched_alloc` has got from `malloc` is on the timer queue, on the free list, or with
a `cheops_sched_runq` that runs its callback; or it has been freed.  A callback may call all of the
functions, `cheops_sched_runq` too, so that several events may be running, one inside the other.

`cheops_sched_del` unlinks a struct and does not release it.  `structs_owned_iff` says that this is
the only way in which a struct is lost.
-/

namespace Cheops.Scheduler

open Cheops.Lib

variable {κ : Type}

/-! ## Runs -/

/-- The events whose callbacks are running, the innermost first, and the static variables.  The
    ghosts are what `malloc` has returned and what has been freed. -/
structure Owners (κ : Type) where
  running : List (Sched κ)
  st : SchedState κ
  got : List Nat
  freed : List Nat

def Owners.start : Owners κ := ⟨[], initial, [], []⟩

/-- What `sched_alloc` gets from `malloc`. -/
def schedAllocGets (block : Option Nat) (st : SchedState κ) : List Nat :=
  if st.schedc = [] then block.toList else []

/-- What `sched_release` gives to `free`. -/
def schedReleaseFrees (tmp : Nat) (st : SchedState κ) : List Nat :=
  if st.schedccnt < SCHED_MAX_CACHE then [] else [tmp]

def cheopsSchedAddGets (when : Int) (block : Option Nat) (st : SchedState κ) : List Nat :=
  if when = 0 then [] else schedAllocGets block st

def cheopsSchedAddFrees (when : Int) (block : Option Nat) (now : Option Timeval)
    (st : SchedState κ) : List Nat :=
  if when = 0 then []
  else
    match schedAlloc block st with
    | (none, _) => []
    | (some tmp, st) =>
      match schedSettime now when with
      | none => schedReleaseFrees tmp st
      | some _ => []

def runqReturnedFrees (current : Sched κ) (nonzero : Bool) (now : Option Timeval)
    (st : SchedState κ) : List Nat :=
  if nonzero then
    match schedSettime now current.resched with
    | none => schedReleaseFrees current.addr st
    | some _ => []
  else schedReleaseFrees current.addr st

/-- One step.  `malloc` returns no block that is still allocated. -/
inductive OwnStep : Owners κ → Action κ → Owners κ → Prop
  | add {c : Owners κ} {when : Int} {callback : κ} {data : Nat} {block : Option Nat}
      {now : Option Timeval} (fresh : ∀ p, block = some p → p ∉ c.st.allocated) :
      OwnStep c (.add when callback data block now)
        { c with
          st := (cheopsSchedAdd when callback data block now c.st).2
          got := cheopsSchedAddGets when block c.st ++ c.got
          freed := cheopsSchedAddFrees when block now c.st ++ c.freed }
  | del {c : Owners κ} {id : Int} :
      OwnStep c (.del id) { c with st := (cheopsSchedDel id c.st).2 }
  | take {c : Owners κ} {st' : SchedState κ} {current : Sched κ} {now : Option Timeval}
      (due : runqTake now c.st = some (current, st')) :
      OwnStep c (.take now) { c with running := current :: c.running, st := st' }
  | returned {c : Owners κ} {current : Sched κ} {running : List (Sched κ)} {nonzero : Bool}
      {later : Option Timeval} (innermost : c.running = current :: running) :
      OwnStep c (.returned nonzero later)
        { c with
          running
          st := runqReturned current nonzero later c.st
          freed := runqReturnedFrees current nonzero later c.st ++ c.freed }

def Owners.used (c : Owners κ) : List Nat := (c.running ++ c.st.schedq).map (·.addr)

/-- Every struct that `malloc` has returned is in one place, or has been freed once, and so only
    the free list adds to the structs that are in use. -/
structure Owned (c : Owners κ) : Prop where
  once : (c.used ++ c.st.schedc ++ c.freed).Perm c.got
  distinct : (c.used ++ c.st.schedc).Nodup
  few : c.got.length ≤ c.freed.length + (c.st.schedq.length + c.running.length) + 128

def Spared (c : Owners κ) : Action κ → Prop
  | .del id => ∀ e ∈ c.st.schedq, e.id ≠ id
  | _ => True

/-! ## One lemma for each function -/

/-- The allocated blocks are those of `used` and those of the free list. -/
structure Accounted (used : List Nat) (st : SchedState κ) : Prop where
  blocks : (used ++ st.schedc).Perm st.allocated
  nodup : st.allocated.Nodup
  schedccnt : st.schedccnt = st.schedc.length
  bound : st.schedccnt ≤ SCHED_MAX_CACHE

section Accounted

variable {used used' : List Nat} {st st' : SchedState κ} {tmp : Nat} {block : Option Nat}

theorem Accounted.perm (accounted : Accounted used st) (perm : used'.Perm used) :
    Accounted used' st where
  blocks := (perm.append_right _).trans accounted.blocks
  nodup := accounted.nodup
  schedccnt := accounted.schedccnt
  bound := accounted.bound

theorem initial_accounted : Accounted [] (initial : SchedState κ) :=
  ⟨.refl _, List.nodup_nil, rfl, Int.le.intro 128 rfl⟩

theorem schedAlloc_accounted (accounted : Accounted used st)
    (fresh : ∀ p, block = some p → p ∉ st.allocated)
    (allocs : schedAlloc block st = (some tmp, st')) :
    Accounted (tmp :: used) st' ∧ st'.allocated = schedAllocGets block st ++ st.allocated := by
  obtain ⟨blocks, nodup, schedccnt, bound⟩ := accounted
  rcases schedAlloc_cases allocs with ⟨cached, same⟩ | ⟨empty, rfl, rfl⟩
  · have kept : st'.allocated = st.allocated := by rw [same]
    have count : st'.schedccnt = st.schedccnt - 1 := by rw [same]
    rw [cached] at blocks
    rw [cached, List.length_cons] at schedccnt
    refine ⟨⟨?_, kept ▸ nodup, by omega, by omega⟩, ?_⟩
    · rw [kept]
      exact List.perm_middle.symm.trans blocks
    · rw [kept, schedAllocGets, cached, if_neg (List.cons_ne_nil _ _), List.nil_append]
  · refine ⟨⟨?_, List.nodup_cons.mpr ⟨fresh tmp rfl, nodup⟩, schedccnt, bound⟩, ?_⟩
    · exact blocks.cons tmp
    · rw [schedAllocGets, if_pos empty]
      rfl

theorem schedAlloc_fails (allocs : schedAlloc block st = (none, st')) :
    st' = st ∧ schedAllocGets block st = [] := by
  refine ⟨schedAlloc_none allocs, ?_⟩
  unfold schedAlloc at allocs
  unfold schedAllocGets
  split at allocs
  next => cases allocs
  next empty =>
    cases block with
    | none => rw [if_pos empty, Option.toList_none]
    | some p => cases allocs

theorem schedRelease_accounted (accounted : Accounted (tmp :: used) st) :
    Accounted used (schedRelease tmp st) ∧
      (schedReleaseFrees tmp st ++ (schedRelease tmp st).allocated).Perm st.allocated := by
  obtain ⟨blocks, nodup, schedccnt, bound⟩ := accounted
  unfold schedRelease schedReleaseFrees
  by_cases room : st.schedccnt < SCHED_MAX_CACHE
  case pos =>
    rw [if_pos room, if_pos room]
    refine ⟨⟨List.perm_middle.trans blocks, nodup, ?_, ?_⟩, .refl _⟩
    · simp only [List.length_cons]
      push_cast
      omega
    · simp only
      omega
  case neg =>
    rw [if_neg room, if_neg room]
    have member : tmp ∈ st.allocated := blocks.subset (by simp)
    have erased := List.perm_cons_erase member
    refine ⟨⟨?_, nodup.erase tmp, schedccnt, bound⟩, erased.symm⟩
    exact List.Perm.cons_inv (blocks.trans erased)

theorem schedule_accounted {s : Sched κ} {others : List Nat}
    (accounted : Accounted (s.addr :: (st.schedq.map (·.addr) ++ others)) st) :
    Accounted ((schedule s st).schedq.map (·.addr) ++ others) (schedule s st) := by
  have perm := stableInsert_perm (fun s current : Sched κ => sooner s.when current.when)
    { s with inserted := st.insertions } st.schedq
  have same := accounted.perm ((perm.map (·.addr)).append_right others)
  exact ⟨same.blocks, same.nodup, same.schedccnt, same.bound⟩

/-- `others` are the structs in use that are not on the queue. -/
theorem cheopsSchedAdd_accounted {others : List Nat}
    (accounted : Accounted (st.schedq.map (·.addr) ++ others) st)
    (fresh : ∀ p, block = some p → p ∉ st.allocated) (when : Int) (callback : κ) (data : Nat)
    (now : Option Timeval) :
    let st' := (cheopsSchedAdd when callback data block now st).2
    Accounted (st'.schedq.map (·.addr) ++ others) st' ∧
      (cheopsSchedAddFrees when block now st ++ st'.allocated).Perm
        (cheopsSchedAddGets when block st ++ st.allocated) := by
  dsimp only
  unfold cheopsSchedAdd cheopsSchedAddFrees cheopsSchedAddGets
  by_cases zero : when = 0
  case pos =>
    rw [if_pos zero, if_pos zero, if_pos zero]
    exact ⟨accounted, .refl _⟩
  case neg =>
    rw [if_neg zero, if_neg zero, if_neg zero]
    rcases allocs : schedAlloc block st with ⟨_ | tmp, st₁⟩
    · obtain ⟨rfl, nothing⟩ := schedAlloc_fails allocs
      rw [nothing]
      exact ⟨accounted, .refl _⟩
    · obtain ⟨accounted₁, gets⟩ := schedAlloc_accounted accounted fresh allocs
      have queue := schedAlloc_schedq block st
      rw [allocs] at queue
      rw [← queue] at accounted₁
      have issued : Accounted (tmp :: (st₁.schedq.map (·.addr) ++ others))
          { st₁ with eventcnt := int32 (st₁.eventcnt + 1) } :=
        ⟨accounted₁.blocks, accounted₁.nodup, accounted₁.schedccnt, accounted₁.bound⟩
      rw [← gets]
      dsimp only
      cases schedSettime now when with
      | none =>
        obtain ⟨accounted₂, frees⟩ := schedRelease_accounted issued
        refine ⟨?_, frees⟩
        rwa [schedRelease_schedq]
      | some time => exact ⟨schedule_accounted issued, .refl _⟩

theorem runqReturned_accounted {others : List Nat} {current : Sched κ}
    (accounted : Accounted (st.schedq.map (·.addr) ++ (current.addr :: others)) st)
    (nonzero : Bool) (later : Option Timeval) :
    let st' := runqReturned current nonzero later st
    Accounted (st'.schedq.map (·.addr) ++ others) st' ∧
      (runqReturnedFrees current nonzero later st ++ st'.allocated).Perm st.allocated := by
  have first := accounted.perm List.perm_middle.symm
  obtain ⟨released, frees⟩ := schedRelease_accounted first
  rw [← schedRelease_schedq current.addr st] at released
  dsimp only
  unfold runqReturned runqReturnedFrees
  cases nonzero with
  | false => exact ⟨released, frees⟩
  | true =>
    rw [if_pos rfl, if_pos rfl]
    cases schedSettime later current.resched with
    | none => exact ⟨released, frees⟩
    | some time => exact ⟨schedule_accounted (s := { current with when := time }) first, .refl _⟩

theorem runqTake_accounted {others : List Nat} {current : Sched κ} {now : Option Timeval}
    (accounted : Accounted (st.schedq.map (·.addr) ++ others) st)
    (due : runqTake now st = some (current, st')) :
    Accounted (st'.schedq.map (·.addr) ++ (current.addr :: others)) st' ∧
      st'.allocated = st.allocated := by
  unfold runqTake at due
  split at due
  next head rest tv queue =>
    split at due
    next =>
      cases due
      rw [queue] at accounted
      have moved : (rest.map (·.addr) ++ current.addr :: others).Perm
          ((current :: rest).map (·.addr) ++ others) := List.perm_middle
      have same := accounted.perm moved
      exact ⟨⟨same.blocks, same.nodup, same.schedccnt, same.bound⟩, rfl⟩
    next => cases due
  next => cases due

/-- A deletion that finds its id loses the struct. -/
theorem cheopsSchedDel_accounted {others : List Nat}
    (accounted : Accounted (st.schedq.map (·.addr) ++ others) st) (id : Int) :
    ∃ lost, (lost = [] ↔ ∀ e ∈ st.schedq, e.id ≠ id) ∧
      Accounted ((cheopsSchedDel id st).2.schedq.map (·.addr) ++ (lost ++ others))
        (cheopsSchedDel id st).2 ∧
      (cheopsSchedDel id st).2.allocated = st.allocated := by
  unfold cheopsSchedDel
  by_cases there : st.schedq.any (·.id == id)
  case pos =>
    obtain ⟨e, listed, same⟩ := List.any_eq_true.mp there
    obtain ⟨e, front, back, -, hit, split, erased⟩ :=
      List.exists_of_eraseP (p := (·.id == id)) listed same
    rw [if_pos there, erased]
    refine ⟨[e.addr], ?_, ?_, rfl⟩
    · refine iff_of_false (List.cons_ne_nil _ _) fun missing => ?_
      exact missing e (by simp [split]) (by simpa using hit)
    · rw [split] at accounted
      have moved : (((front ++ back).map (·.addr)) ++ ([e.addr] ++ others)).Perm
          ((front ++ e :: back).map (·.addr) ++ others) := by
        rw [List.perm_iff_count]
        intro x
        simp only [List.map_append, List.map_cons, List.count_append, List.count_cons,
          List.count_nil]
        omega
      have same := accounted.perm moved
      exact ⟨same.blocks, same.nodup, same.schedccnt, same.bound⟩
  case neg =>
    rw [if_neg there]
    refine ⟨[], iff_of_true rfl fun e listed same => there ?_, accounted, rfl⟩
    exact List.any_eq_true.mpr ⟨e, listed, by simpa using same⟩

end Accounted

/-! ## Whole runs -/

structure Kept (c : Owners κ) (lost : List Nat) : Prop where
  accounted : Accounted (c.st.schedq.map (·.addr) ++ (c.running.map (·.addr) ++ lost)) c.st
  heap : (c.freed ++ c.st.allocated).Perm c.got

section Kept

variable {c c' : Owners κ} {lost : List Nat} {a : Action κ} {history : List (Action κ)}

theorem Kept.step (kept : Kept c lost) (step : OwnStep c a c') :
    ∃ lost', (lost' = [] ↔ Spared c a) ∧ Kept c' (lost' ++ lost) := by
  obtain ⟨accounted, heap⟩ := kept
  cases step with
  | @add when callback data block now fresh =>
    obtain ⟨accounted', moved⟩ := cheopsSchedAdd_accounted accounted fresh when callback data now
    refine ⟨[], iff_of_true rfl trivial, accounted', ?_⟩
    rw [List.perm_iff_count] at heap moved ⊢
    intro x
    have heap := heap x
    have moved := moved x
    simp only [List.count_append] at heap moved ⊢
    omega
  | @del id =>
    obtain ⟨gone, missing, accounted', same⟩ := cheopsSchedDel_accounted accounted id
    refine ⟨gone, missing, accounted'.perm ?_, ?_⟩
    · rw [List.perm_iff_count]
      intro x
      simp only [List.count_append]
      omega
    · dsimp only
      rwa [same]
  | take due =>
    obtain ⟨accounted', same⟩ := runqTake_accounted accounted due
    refine ⟨[], iff_of_true rfl trivial, accounted', ?_⟩
    dsimp only
    rwa [same]
  | @returned current running nonzero later innermost =>
    rw [innermost] at accounted
    obtain ⟨accounted', moved⟩ := runqReturned_accounted accounted nonzero later
    refine ⟨[], iff_of_true rfl trivial, accounted', ?_⟩
    rw [List.perm_iff_count] at heap moved ⊢
    intro x
    have heap := heap x
    have moved := moved x
    simp only [List.count_append] at heap moved ⊢
    omega

theorem OwnStep.functional (c : Owners κ) (a : Action κ) (c' d : Owners κ)
    (step : OwnStep c a c') (step' : OwnStep c a d) : c' = d := by
  cases step with
  | add => cases step'; rfl
  | del => cases step'; rfl
  | take due =>
    cases step' with
    | take due' =>
      cases due.symm.trans due'
      rfl
  | returned innermost =>
    cases step' with
    | returned innermost' =>
      cases innermost.symm.trans innermost'
      rfl

theorem Kept.owned_iff (kept : Kept c lost) : Owned c ↔ lost = [] := by
  obtain ⟨⟨blocks, nodup, schedccnt, bound⟩, heap⟩ := kept
  have total := heap.length_eq
  have inUse := blocks.length_eq
  simp only [List.length_append, List.length_map] at total inUse
  constructor
  · -- what is lost has been returned by `malloc` and is in no place
    intro owned
    have once := owned.once.length_eq
    simp only [Owners.used, List.length_append, List.length_map] at once
    exact List.eq_nil_of_length_eq_zero (by omega)
  · rintro rfl
    have places : (c.used ++ c.st.schedc).Perm c.st.allocated := by
      refine List.Perm.trans ?_ blocks
      rw [List.perm_iff_count]
      intro x
      simp only [Owners.used, List.map_append, List.count_append, List.count_nil]
      omega
    refine ⟨?_, places.nodup_iff.mpr nodup, ?_⟩
    · exact ((places.append_right _).trans List.perm_append_comm).trans heap
    · unfold SCHED_MAX_CACHE at bound
      simp only [List.length_nil] at inUse
      omega

/-- After every run every struct is in one place, if and only if no deletion has found its
    event. -/
theorem structs_owned_iff (run : Run OwnStep Owners.start history c) :
    Owned c ↔ Run (Guarded Spared OwnStep) Owners.start history c := by
  obtain ⟨lost, kept, spared⟩ : ∃ lost, Kept c lost ∧
      (lost = [] ↔ Run (Guarded Spared OwnStep) Owners.start history c) := by
    refine run.invariant (I := fun history c => ∃ lost, Kept c lost ∧
      (lost = [] ↔ Run (Guarded Spared OwnStep) Owners.start history c)) ?_ ?_
    · exact ⟨[], ⟨initial_accounted, .refl _⟩, iff_of_true rfl .refl⟩
    · intro history c a c' run ih step
      obtain ⟨lost, kept, spared⟩ := ih
      obtain ⟨lost', this, kept'⟩ := kept.step step
      refine ⟨lost' ++ lost, kept', ?_⟩
      rw [List.append_eq_nil_iff, this, spared]
      constructor
      · rintro ⟨here, before⟩
        exact before.snoc ⟨here, step⟩
      · intro guarded
        obtain ⟨c, before, last⟩ := guarded.snoc_inv
        cases run.unique OwnStep.functional before.of_guarded
        exact ⟨last.1, before⟩
  exact kept.owned_iff.trans spared

end Kept

/-- The callback of an event runs `cheops_sched_runq`, and so another one.  The struct of the inner
    one goes to the free list, and that of the outer one is queued again. -/
theorem structs_owned_iff_nested :
    ∃ history, ∃ c : Owners Unit, Run OwnStep Owners.start history c ∧ Owned c ∧
      c.st.schedc = [8] ∧ c.running = [] ∧ c.st.schedq.map (·.addr) = [7] := by
  have added : Run (Guarded Spared OwnStep) (Owners.start : Owners Unit)
      [.add 5 () 0 (some 7) (some ⟨1, 0⟩)] _ :=
    .single ⟨trivial, .add (by simp [Owners.start, initial])⟩
  have both := added.snoc (l := Action.add 6 () 0 (some 8) (some ⟨1, 0⟩))
    ⟨trivial, .add (by decide)⟩
  have running := both.snoc (l := Action.take (some ⟨2, 0⟩)) ⟨trivial, .take rfl⟩
  have nested := running.snoc (l := Action.take (some ⟨2, 0⟩)) ⟨trivial, .take rfl⟩
  have inner := nested.snoc (l := Action.returned false none) ⟨trivial, .returned rfl⟩
  have done := inner.snoc (l := Action.returned true (some ⟨2, 0⟩)) ⟨trivial, .returned rfl⟩
  exact ⟨_, _, done.of_guarded, (structs_owned_iff done.of_guarded).mpr done, rfl, rfl, rfl⟩

/-- A timer is cancelled: its struct is nowhere. -/
theorem cancelled_timer_lost :
    ∃ c : Owners Unit, Run OwnStep Owners.start
        [.add 5 () 0 (some 7) (some ⟨1, 0⟩), .del 1] c ∧
      c.got = [7] ∧ c.freed = [] ∧ c.used = [] ∧ c.st.schedc = [] ∧ ¬ Owned c := by
  have added : Run OwnStep (Owners.start : Owners Unit)
      [.add 5 () 0 (some 7) (some ⟨1, 0⟩)] _ := .single (.add (by simp [Owners.start, initial]))
  have deleted := added.snoc (l := Action.del 1) .del
  refine ⟨_, deleted, rfl, rfl, rfl, rfl, fun owned => ?_⟩
  exact absurd owned.once.length_eq (by decide)

end Cheops.Scheduler
