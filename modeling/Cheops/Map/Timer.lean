import Cheops.Map.Loops
import Cheops.Scheduler.Events
import Cheops.Scheduler.Invariant

/-! # The timer of the mapping requests

`start_mapping` installs `map_timeout` in the timer queue, and `map_timeout` goes on until it
finds no requests.  `requests_timed` says what this does for a request: it is probed a bounded
number of times, and it is not left without a timer as long as the scheduler does what it is asked
for.
-/

namespace Cheops.Map

open Cheops.Lib
open Cheops.Scheduler (Timeval Sched SchedState Config Action calls cheopsSchedAdd runqTake
  runqReturned schedAlloc)

variable {κ : Type}

/-! ## The agent -/

inductive Callback (κ : Type) where
  | mapTimeout
  | other (callback : κ)
deriving DecidableEq, Repr

def Callback.isMapTimeout : Callback κ → Bool
  | mapTimeout => true
  | other _ => false

structure World (κ : Type) where
  map : MapState
  sched : Config (Callback κ)

def World.initial : World κ := ⟨Map.initial, none, Scheduler.initial⟩

def Accepted (getlocalip : Nat → Nat) (ip np : Nat) (st : MapState) : Prop :=
  getlocalip ip ≠ ip ∧ ¬ st.mrq.any fun mr => mr.dest == ip && np == mr.np

instance (getlocalip : Nat → Nat) (ip np : Nat) (st : MapState) :
    Decidable (Accepted getlocalip ip np st) :=
  inferInstanceAs (Decidable (_ ∧ _))

/-- `start_mapping` with the scheduler that it calls. -/
def World.start (getlocalip : Nat → Nat) (ip agent np : Nat) (now : Int) (block : Option Nat)
    (clock : Option Timeval) (w : World κ) : World κ :=
  if Accepted getlocalip ip np w.map ∧ w.map.timeoutInstalled = 0 then
    let (schedId, st) := cheopsSchedAdd 100 .mapTimeout 0 block clock w.sched.st
    ⟨startMapping getlocalip schedId now ip agent np w.map, w.sched.current, st⟩
  else ⟨startMapping getlocalip 0 now ip agent np w.map, w.sched⟩

/-- `cheops_sched_runq` runs `map_timeout`, which it took off the queue as `e`. -/
def World.tick (e : Sched (Callback κ)) (st : SchedState (Callback κ)) (current : Int)
    (clock : Nat → Int) (later : Option Timeval) (w : World κ) : World κ :=
  let (again, map) := mapTimeout current clock w.map
  ⟨map, none, runqReturned e again later st⟩

/-! ## Runs -/

inductive Event (κ : Type) where
  | start (getlocalip : Nat → Nat) (ip agent np : Nat) (now : Int) (block : Option Nat)
      (clock : Option Timeval)
  | packet (buf : Mem) (len : Int) (src : Nat) (clock : Nat → Int)
  | tick (due : Option Timeval) (current : Int) (clock : Nat → Int) (later : Option Timeval)
  | sched (action : Action (Callback κ))

/-- What the rest of the agent does with the scheduler: it adds callbacks of its own. -/
def ofOthers : Action (Callback κ) → Prop
  | .add _ callback .. => callback.isMapTimeout = false
  | _ => True

/-- One step.  The packets may be forged. -/
inductive Transition : World κ → Event κ → World κ → Prop
  | start {w : World κ} {getlocalip : Nat → Nat} {ip agent np : Nat} {now : Int}
      {block : Option Nat} {clock : Option Timeval}
      (fresh : ∀ p, block = some p → p ∉ w.sched.st.allocated) :
      Transition w (.start getlocalip ip agent np now block clock)
        (w.start getlocalip ip agent np now block clock)
  | packet {w : World κ} {buf : Mem} {len : Int} {src : Nat} {clock : Nat → Int} :
      Transition w (.packet buf len src clock)
        { w with map := (handleMap buf len src clock w.map).2 }
  | tick {w : World κ} {e : Sched (Callback κ)} {st : SchedState (Callback κ)}
      {due later : Option Timeval} {current : Int} {clock : Nat → Int}
      (idle : w.sched.current = none) (taken : runqTake due w.sched.st = some (e, st))
      (timer : e.callback.isMapTimeout = true) :
      Transition w (.tick due current clock later) (w.tick e st current clock later)
  | sched {w : World κ} {action : Action (Callback κ)} {sched : Config (Callback κ)}
      (others : ofOthers action) (step : Scheduler.Step w.sched action sched)
      (running : ∀ e, sched.current = some e → e.callback.isMapTimeout = false) :
      Transition w (.sched action) { w with sched }

def pending (st : SchedState (Callback κ)) : Nat := st.schedq.countP (·.callback.isMapTimeout)

/-- The scheduler does what it is asked for: the timer that is installed gets a struct, a time
    and an id that is not 0, it is put back when it is to go on, and nobody else deletes it. -/
def Timed (w : World κ) : Event κ → Prop
  | .start getlocalip ip _ np _ block clock =>
    Accepted getlocalip ip np w.map → w.map.timeoutInstalled = 0 →
      (schedAlloc block w.sched.st).1.isSome ∧ clock.isSome ∧ w.sched.st.eventcnt ≠ 0
  | .packet .. => True
  | .tick _ _ _ later => w.map.mrq ≠ [] → later.isSome
  | .sched (.del id) => ∀ e ∈ w.sched.st.schedq, e.id = id → e.callback.isMapTimeout = false
  | .sched _ => True

/-! ## Probes -/

/-- The bounds of a queued request.  At every hop there are at most four probes. -/
structure MapRequest.Bounded (mr : MapRequest) : Prop where
  retries_pos : 1 ≤ mr.retries
  retries_le : mr.retries ≤ MAX_MAP_REQUEST_RETRIES + 1
  probed_le : mr.probed ≤ 4 * (mr.ttl - 1) + mr.retries

theorem MapRequest.Bounded.total {mr : MapRequest} (bounded : mr.Bounded) : mr.probed ≤ 240 := by
  have ttl := mr.ttl_le
  have retries := bounded.retries_le
  have probed := bounded.probed_le
  unfold MAP_MAX at ttl
  unfold MAX_MAP_REQUEST_RETRIES at retries
  omega

def Bounds (st : MapState) : Prop :=
  All MapRequest.Bounded (·.probed ≤ 240) (fun _ => True) st.mrq st.done

theorem startMapping_bounds {st : MapState} (bounds : Bounds st) (getlocalip : Nat → Nat)
    (schedId now : Int) (ip agent np : Nat) :
    Bounds (startMapping getlocalip schedId now ip agent np st) := by
  unfold startMapping
  dsimp only
  split
  · exact bounds
  split
  · exact bounds
  · apply All.cons
    · constructor <;> simp [mrProbe, MAX_MAP_REQUEST_RETRIES]
    · exact bounds.probed trivial

theorem mapTimeout_bounds {st : MapState} (bounds : Bounds st) (current : Int)
    (clock : Nat → Int) : Bounds (mapTimeout current clock st).2 := by
  unfold mapTimeout
  split
  · exact bounds
  · apply mapTimeoutLoop_all bounds
    · intro mr now bounded retries
      have probed := bounded.probed_le
      refine ⟨⟨Nat.succ_pos _, Nat.succ_le_succ retries, ?_⟩, trivial⟩
      change mr.probed + 1 ≤ 4 * (mr.ttl - 1) + (mr.retries + 1)
      omega
    · exact fun mr bounded => bounded.total

theorem handleMap_bounds {st : MapState} (bounds : Bounds st) (buf : Mem) (len : Int) (src : Nat)
    (clock : Nat → Int) : Bounds (handleMap buf len src clock st).2 := by
  have all : All (fun _ => True) (·.probed ≤ 240) (fun _ => True) st.mrq st.done :=
    ⟨fun _ _ => trivial, bounds.finished, bounds.probes⟩
  have lastHop (off : Nat) (len : Int) : Bounds (handleLastHop buf off len src st).2 := by
    unfold handleLastHop
    split
    · exact bounds
    dsimp only
    generalize uchar _ = ttl
    split
    · exact bounds
    · exact echoLoop_all all (fun mr member _ => bounds.queued mr member)
        fun mr member _ => (bounds.queued mr member).total
  unfold handleMap
  dsimp only
  split
  · split
    · exact bounds
    · apply exceededLoop_all all (fun mr member _ => bounds.queued mr member)
      · -- The hop that answered had at most four probes, and the next one has its first.
        intro mr member _ further now
        have ttl := mr.ttl_pos
        have retries := (bounds.queued mr member).retries_le
        have probed := (bounds.queued mr member).probed_le
        unfold MAX_MAP_REQUEST_RETRIES at retries
        refine ⟨⟨Nat.le_refl _, Nat.le_add_left _ _, ?_⟩, trivial⟩
        change mr.probed + 1 ≤ 4 * (mr.ttl + 1 - 1) + 1
        omega
      · exact fun mr member _ _ => (bounds.queued mr member).total
  · split
    · split
      · exact bounds
      · exact lastHop _ _
    · split
      · exact lastHop _ _
      · exact bounds

/-! ## The timer -/

theorem pending_eq (st : SchedState (Callback κ)) :
    pending st = (calls st).countP (·.1.isMapTimeout) := by
  unfold pending calls
  rw [List.countP_map]
  rfl

theorem pending_of_calls {st st' : SchedState (Callback κ)} (same : calls st' = calls st) :
    pending st' = pending st := by
  rw [pending_eq, pending_eq, same]

theorem pending_of_perm {st st' : SchedState (Callback κ)} {call : Callback κ × Nat}
    (added : (calls st').Perm (call :: calls st)) :
    pending st' = pending st + if call.1.isMapTimeout then 1 else 0 := by
  rw [pending_eq, pending_eq, added.countP_eq, List.countP_cons]

/-- Either the timer is installed, once, or there is nothing to be timed. -/
structure TimerInv (w : World κ) : Prop where
  running : ∀ e, w.sched.current = some e → e.callback.isMapTimeout = false
  timer : (w.map.timeoutInstalled ≠ 0 ∧ pending w.sched.st = 1) ∨
    (w.map.timeoutInstalled = 0 ∧ pending w.sched.st = 0 ∧ w.map.mrq = [])

theorem startMapping_rejected {getlocalip : Nat → Nat} {schedId now : Int} {ip agent np : Nat}
    {st : MapState} (rejected : ¬ Accepted getlocalip ip np st) :
    startMapping getlocalip schedId now ip agent np st = st := by
  unfold Accepted at rejected
  unfold startMapping
  dsimp only
  split
  · rfl
  next other =>
    rw [if_pos]
    by_contra fresh
    exact rejected ⟨other, fresh⟩

theorem startMapping_timeoutInstalled {getlocalip : Nat → Nat} {schedId now : Int}
    {ip agent np : Nat} {st : MapState} (accepted : Accepted getlocalip ip np st) :
    (startMapping getlocalip schedId now ip agent np st).timeoutInstalled =
      if st.timeoutInstalled = 0 then schedId else st.timeoutInstalled := by
  unfold startMapping
  rw [if_neg accepted.1, if_neg accepted.2]

theorem handleMap_timeoutInstalled (buf : Mem) (len : Int) (src : Nat) (clock : Nat → Int)
    (st : MapState) :
    (handleMap buf len src clock st).2.timeoutInstalled = st.timeoutInstalled := by
  have lastHop (off : Nat) (len : Int) :
      (handleLastHop buf off len src st).2.timeoutInstalled = st.timeoutInstalled := by
    unfold handleLastHop
    dsimp only
    generalize uchar _ = ttl
    split_ifs <;> rfl
  unfold handleMap
  dsimp only
  split_ifs
  · rfl
  · rfl
  · rfl
  · exact lastHop _ _
  · exact lastHop _ _
  · rfl

theorem handleMap_empty {st : MapState} (empty : st.mrq = []) (buf : Mem) (len : Int) (src : Nat)
    (clock : Nat → Int) : (handleMap buf len src clock st).2.mrq = [] := by
  have lastHop (off : Nat) (len : Int) : (handleLastHop buf off len src st).2.mrq = [] := by
    unfold handleLastHop
    dsimp only
    generalize uchar _ = ttl
    rw [empty]
    split_ifs
    · exact empty
    · exact empty
    · rfl
  unfold handleMap
  dsimp only
  rw [empty]
  split_ifs
  · exact empty
  · rfl
  · exact empty
  · exact lastHop _ _
  · exact lastHop _ _
  · exact empty

theorem TimerInv.start {w : World κ} (inv : TimerInv w) {getlocalip : Nat → Nat}
    {ip agent np : Nat} {now : Int} {block : Option Nat} {clock : Option Timeval}
    (timed : Timed w (.start getlocalip ip agent np now block clock)) :
    TimerInv (w.start getlocalip ip agent np now block clock) := by
  unfold World.start
  split
  next installs =>
    obtain ⟨accepted, zero⟩ := installs
    obtain ⟨alloc, read, nonzero⟩ := timed accepted zero
    obtain ⟨tmp, alloc⟩ := Option.isSome_iff_exists.mp alloc
    obtain ⟨tv, rfl⟩ := Option.isSome_iff_exists.mp read
    have delay : (100 : Int) ≠ 0 := by decide
    obtain ⟨id, added⟩ := @Scheduler.cheopsSchedAdd_of_alloc _ 100
      (Callback.mapTimeout : Callback κ) 0 tmp block tv w.sched.st delay alloc
    refine ⟨inv.running, .inl ⟨?_, ?_⟩⟩
    · dsimp only
      rw [startMapping_timeoutInstalled accepted, if_pos zero, id]
      exact nonzero
    · obtain ⟨nonzero', -⟩ | ⟨-, none, -⟩ := inv.timer
      · cases nonzero' zero
      · dsimp only
        rw [pending_of_perm added, none]
        rfl
  next keeps =>
    refine ⟨inv.running, ?_⟩
    dsimp only
    by_cases accepted : Accepted getlocalip ip np w.map
    · have nonzero : w.map.timeoutInstalled ≠ 0 := fun zero => keeps ⟨accepted, zero⟩
      obtain ⟨-, one⟩ | ⟨zero, -⟩ := inv.timer
      · refine .inl ⟨?_, one⟩
        rw [startMapping_timeoutInstalled accepted, if_neg nonzero]
        exact nonzero
      · cases nonzero zero
    · rw [startMapping_rejected accepted]
      exact inv.timer

theorem TimerInv.tick {w : World κ} (inv : TimerInv w) {e : Sched (Callback κ)}
    {st : SchedState (Callback κ)} {due later : Option Timeval} {current : Int}
    {clock : Nat → Int} (taken : runqTake due w.sched.st = some (e, st))
    (timer : e.callback.isMapTimeout = true) (timed : Timed w (.tick due current clock later)) :
    TimerInv (w.tick e st current clock later) := by
  have before := pending_of_perm (List.Perm.of_eq (Scheduler.runqTake_calls taken))
  rw [show e.call.1.isMapTimeout = true from timer, if_pos rfl] at before
  by_cases requests : w.map.mrq = []
  · have stopped : w.tick e st current clock later =
        ⟨{ w.map with timeoutInstalled := 0 }, none, runqReturned e false later st⟩ := by
      unfold World.tick mapTimeout
      rw [if_pos requests]
    rw [stopped]
    refine ⟨(fun e running => by cases running), .inr ⟨rfl, ?_, requests⟩⟩
    dsimp only
    rw [pending_of_calls (Scheduler.runqReturned_calls_false e later st)]
    obtain ⟨-, one⟩ | ⟨-, none, -⟩ := inv.timer
    · omega
    · omega
  · obtain ⟨tv, rfl⟩ := Option.isSome_iff_exists.mp (timed requests)
    have after := pending_of_perm (Scheduler.runqReturned_calls_true e tv st)
    rw [show e.call.1.isMapTimeout = true from timer, if_pos rfl] at after
    obtain ⟨mrq, done, goesOn⟩ : ∃ mrq done, w.tick e st current clock (some tv) =
        ⟨{ w.map with mrq, done }, none, runqReturned e true (some tv) st⟩ := by
      unfold World.tick mapTimeout
      rw [if_neg requests]
      exact ⟨_, _, rfl⟩
    rw [goesOn]
    obtain ⟨installed, one⟩ | ⟨-, -, empty⟩ := inv.timer
    · refine ⟨(fun e running => by cases running), .inl ⟨installed, ?_⟩⟩
      dsimp only
      omega
    · cases requests empty

/-- The rest of the agent leaves the timer alone. -/
theorem sched_pending {sched sched' : Config (Callback κ)} {action : Action (Callback κ)}
    (step : Scheduler.Step sched action sched') (others : ofOthers action)
    (before : ∀ e, sched.current = some e → e.callback.isMapTimeout = false)
    (after : ∀ e, sched'.current = some e → e.callback.isMapTimeout = false)
    (kept : ∀ id, action = .del id →
      ∀ e ∈ sched.st.schedq, e.id = id → e.callback.isMapTimeout = false) :
    pending sched'.st = pending sched.st := by
  cases step with
  | @add _ when callback data block now fresh =>
    rcases Scheduler.cheopsSchedAdd_calls when callback data block now sched.st with added | same
    · rw [pending_of_perm added, show callback.isMapTimeout = false from others]
      rfl
    · exact pending_of_calls same
  | @del _ id =>
    rcases Scheduler.cheopsSchedDel_calls id sched.st with ⟨e, listed, same, left⟩ | same
    · have left := pending_of_perm left
      rw [show e.call.1.isMapTimeout = false from kept id rfl e listed same] at left
      exact left.symm
    · exact pending_of_calls same
  | @take st st' current now due =>
    have taken := pending_of_perm (List.Perm.of_eq (Scheduler.runqTake_calls due))
    rw [show current.call.1.isMapTimeout = false from after current rfl] at taken
    exact taken.symm
  | @returned st current nonzero later =>
    rcases Scheduler.runqReturned_calls current nonzero later st with back | same
    · rw [pending_of_perm back, show current.call.1.isMapTimeout = false from before current rfl]
      rfl
    · exact pending_of_calls same

/-! ## Whole runs -/

theorem initial_timerInv : TimerInv (World.initial : World κ) :=
  ⟨(fun e running => by cases running), .inr ⟨rfl, rfl, rfl⟩⟩

theorem Transition.timerInv {w w' : World κ} {event : Event κ} (step : Transition w event w')
    (timed : Timed w event) (inv : TimerInv w) : TimerInv w' := by
  cases step with
  | start fresh => exact inv.start timed
  | packet =>
    refine ⟨inv.running, ?_⟩
    dsimp only
    rw [handleMap_timeoutInstalled]
    obtain one | ⟨zero, none, empty⟩ := inv.timer
    · exact .inl one
    · exact .inr ⟨zero, none, handleMap_empty empty _ _ _ _⟩
  | tick idle taken timer => exact inv.tick taken timer timed
  | @sched action sched others step running =>
    have same : pending sched.st = pending w.sched.st := by
      apply sched_pending step others inv.running running
      rintro id rfl
      exact timed
    refine ⟨running, ?_⟩
    dsimp only
    rw [same]
    exact inv.timer

theorem Transition.bounds {w w' : World κ} {event : Event κ} (step : Transition w event w')
    (bounds : Bounds w.map) : Bounds w'.map := by
  cases step with
  | start fresh =>
    unfold World.start
    split
    · exact startMapping_bounds bounds _ _ _ _ _ _
    · exact startMapping_bounds bounds _ _ _ _ _ _
  | packet => exact handleMap_bounds bounds _ _ _ _
  | tick idle taken timer => exact mapTimeout_bounds bounds _ _
  | sched others step running => exact bounds

structure RequestsTimed (w : World κ) : Prop where
  ttl : ∀ mr ∈ w.map.mrq, 1 ≤ mr.ttl ∧ mr.ttl ≤ 60
  retries : ∀ mr ∈ w.map.mrq, 1 ≤ mr.retries ∧ mr.retries ≤ 4
  probed : ∀ mr ∈ w.map.mrq ++ w.map.done.finished, mr.probed ≤ 240
  timer : w.map.mrq ≠ [] → pending w.sched.st = 1

/-- In every run in which the scheduler does what it is asked for. -/
theorem requests_timed {history : List (Event κ)} {w : World κ}
    (run : Run (Guarded Timed Transition) World.initial history w) : RequestsTimed w := by
  have inv : TimerInv w := run.state_invariant initial_timerInv
    fun _ _ _ inv step => step.2.timerInv step.1 inv
  have bounds : Bounds w.map := by
    refine run.of_guarded.state_invariant (I := fun w => Bounds w.map) ?_
      fun _ _ _ bounds step => step.bounds bounds
    constructor <;> simp [World.initial, Map.initial]
  constructor
  case ttl => exact fun mr _ => ⟨mr.ttl_pos, mr.ttl_le⟩
  case retries =>
    intro mr member
    exact ⟨(bounds.queued mr member).retries_pos, (bounds.queued mr member).retries_le⟩
  case probed =>
    intro mr member
    rcases List.mem_append.mp member with queued | finished
    · exact (bounds.queued mr queued).total
    · exact bounds.finished mr finished
  case timer =>
    intro requests
    obtain ⟨-, one⟩ | ⟨-, -, empty⟩ := inv.timer
    · exact one
    · cases requests empty

/-- A request that is probed again by the timer. -/
theorem requests_timed_tick :
    ∃ w : World Unit, w.map.mrq.map MapRequest.retries = [2] ∧ pending w.sched.st = 1 ∧
      RequestsTimed w := by
  let start : Event Unit := .start (fun _ => 9) 3 7 8 100 (some 1) (some ⟨100, 0⟩)
  let tick : Event Unit := .tick (some ⟨111, 0⟩) 111 (fun _ => 111) (some ⟨111, 0⟩)
  let w₁ := (World.initial : World Unit).start (fun _ => 9) 3 7 8 100 (some 1) (some ⟨100, 0⟩)
  have started : Guarded Timed Transition World.initial start w₁ := by
    refine ⟨fun _ _ => ⟨by decide, by decide, by decide⟩, .start ?_⟩
    decide
  have ticked : Guarded Timed Transition w₁ tick _ := ⟨fun _ => rfl, .tick rfl rfl rfl⟩
  exact ⟨_, by decide +kernel, by decide +kernel,
    requests_timed (.snoc (.snoc .refl started) ticked)⟩

/-- If `malloc` has no memory for the timer when it is started, the request is queued, and nothing
    will ever look at it again: `timeout_installed` is -1. -/
theorem request_untimed :
    ∃ w : World Unit, Run Transition World.initial
        [.start (fun _ => 9) 3 7 8 100 none (some ⟨100, 0⟩)] w ∧
      w.map.mrq.map MapRequest.dest = [3] ∧ w.map.timeoutInstalled = -1 ∧
      pending w.sched.st = 0 ∧ ¬ RequestsTimed w := by
  refine ⟨_, .single (.start ?_), by decide +kernel, by decide +kernel, by decide +kernel, ?_⟩
  · exact nofun
  · intro timed
    have one := timed.timer (by decide +kernel)
    revert one
    decide +kernel

end Cheops.Map
