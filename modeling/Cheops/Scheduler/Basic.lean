import Cheops.Lib.StableInsert

/-! # The timer queue (`sched.c`)

The timer queue and the cache of unused structs, as `sched.c` computes them.  The two
linked lists are Lean lists, in the order of their `next` pointers; every `struct sched`
keeps its address, so that sharing between the lists can be spoken about.

What the system answers is an argument: `malloc` gives `some` address or `none` for
`NULL`, and `gettimeofday` gives `some` reading or `none` when it fails.
-/

namespace Cheops.Scheduler

open Cheops.Lib

/-- `struct timeval`. -/
structure Timeval where
  tvSec : Int
  tvUsec : Int
deriving DecidableEq, Repr

/-- `SOONER(a, b)`: `a` comes strictly before `b`. -/
def sooner (a b : Timeval) : Bool :=
  decide (b.tvSec > a.tvSec) || (decide (b.tvSec = a.tvSec) && decide (b.tvUsec > a.tvUsec))

/-- `struct sched`.  The callback is a name of type `κ`, `data` is the `void *` given to
    it.  `inserted` is a ghost: how many structs `schedule` had put in the queue before
    this one. -/
structure Sched (κ : Type) where
  addr : Nat
  id : Int
  when : Timeval
  resched : Int
  data : Nat
  callback : κ
  inserted : Nat
deriving DecidableEq, Repr

/-- The static variables of `sched.c`, the blocks `sched_alloc` holds from `malloc`, and
    the ghost count of calls of `schedule`. -/
structure SchedState (κ : Type) where
  eventcnt : Int
  schedcnt : Int
  schedq : List (Sched κ)
  schedc : List Nat
  schedccnt : Int
  allocated : List Nat
  insertions : Nat
deriving DecidableEq, Repr

def SCHED_MAX_CACHE : Int := 128

/-- The value an `int` holds after a computation in 32-bit arithmetic. -/
def int32 (n : Int) : Int := (n + 2 ^ 31) % 2 ^ 32 - 2 ^ 31

variable {κ : Type}

def initial : SchedState κ where
  eventcnt := 1
  schedcnt := 0
  schedq := []
  schedc := []
  schedccnt := 0
  allocated := []
  insertions := 0

/-- `sched_alloc`; `block` is what `malloc` returns if it is called. -/
def schedAlloc (block : Option Nat) (st : SchedState κ) : Option Nat × SchedState κ :=
  match st.schedc with
  | tmp :: rest => (some tmp, { st with schedc := rest, schedccnt := st.schedccnt - 1 })
  | [] =>
    match block with
    | some tmp => (some tmp, { st with allocated := tmp :: st.allocated })
    | none => (none, st)

def schedRelease (tmp : Nat) (st : SchedState κ) : SchedState κ :=
  if st.schedccnt < SCHED_MAX_CACHE then
    { st with schedc := tmp :: st.schedc, schedccnt := st.schedccnt + 1 }
  else
    { st with allocated := st.allocated.erase tmp }

/-- `schedule`: the loop stops at the first struct that `s` is `SOONER` than. -/
def schedule (s : Sched κ) (st : SchedState κ) : SchedState κ :=
  { st with
    schedq := stableInsert (fun s current => sooner s.when current.when)
      { s with inserted := st.insertions } st.schedq
    schedcnt := st.schedcnt + 1
    insertions := st.insertions + 1 }

/-- `sched_settime`; `none` is its failure. -/
def schedSettime (now : Option Timeval) (when : Int) : Option Timeval :=
  now.map fun tv =>
    let tv : Timeval :=
      { tvSec := tv.tvSec + when.tdiv 1000, tvUsec := tv.tvUsec + when.tmod 1000 * 1000 }
    if tv.tvUsec > 1000000 then { tvSec := tv.tvSec + 1, tvUsec := tv.tvUsec - 1000000 } else tv

/-- `cheops_sched_add`, with the answers of `malloc` and `gettimeofday`. -/
def cheopsSchedAdd (when : Int) (callback : κ) (data : Nat) (block : Option Nat)
    (now : Option Timeval) (st : SchedState κ) : Int × SchedState κ :=
  if when = 0 then (-1, st)
  else
    match schedAlloc block st with
    | (none, st) => (-1, st)
    | (some tmp, st) =>
      let id := st.eventcnt
      let st := { st with eventcnt := int32 (st.eventcnt + 1) }
      match schedSettime now when with
      | none => (-1, schedRelease tmp st)
      | some time =>
        (id, schedule
          { addr := tmp, id, when := time, resched := when, data, callback, inserted := 0 } st)

/-- `cheops_sched_del`: the first struct with this id leaves the queue (and is not
    released). -/
def cheopsSchedDel (id : Int) (st : SchedState κ) : Int × SchedState κ :=
  if st.schedq.any (·.id == id) then
    (0, { st with schedq := st.schedq.eraseP (·.id == id), schedcnt := st.schedcnt - 1 })
  else (-1, st)

/-- The head of the loop of `cheops_sched_runq`: the event it takes off the queue, if the
    queue has one that is due at the reading `now`. -/
def runqTake (now : Option Timeval) (st : SchedState κ) : Option (Sched κ × SchedState κ) :=
  match st.schedq, now with
  | current :: rest, some tv =>
    if sooner current.when { tv with tvUsec := tv.tvUsec + 1000 } then
      some (current, { st with schedq := rest, schedcnt := st.schedcnt - 1 })
    else none
  | _, _ => none

/-- The tail of the loop of `cheops_sched_runq`, after the callback of `current` has
    returned: the event is put in the queue again, or its struct is released. -/
def runqReturned (current : Sched κ) (nonzero : Bool) (now : Option Timeval)
    (st : SchedState κ) : SchedState κ :=
  if nonzero then
    match schedSettime now current.resched with
    | none => schedRelease current.addr st
    | some time => schedule { current with when := time } st
  else schedRelease current.addr st

/-- What one turn of the loop of `cheops_sched_runq` meets: the clock before it and after
    the callback, and whatever the callback itself depends on. -/
structure Turn (ε : Type) where
  now : Option Timeval
  world : ε
  later : Option Timeval

/-- `cheops_sched_runq`.  `invoke` runs a callback on its data; it may call the scheduler
    and change the rest `σ` of the program.  The turns are what the loop meets, one after
    the other; where they end, the loop is looked at while it is still running.  The
    result is the number of events run, or 0 when `gettimeofday` fails. -/
def cheopsSchedRunq {σ ε : Type}
    (invoke : κ → Nat → ε → σ × SchedState κ → Bool × σ × SchedState κ) :
    List (Turn ε) → Int → σ × SchedState κ → Int × σ × SchedState κ
  | [], x, st => (x, st)
  | turn :: turns, x, (rest, st) =>
    match runqTake turn.now st with
    | none => (if st.schedq ≠ [] ∧ turn.now = none then 0 else x, rest, st)
    | some (current, st) =>
      let (nonzero, rest, st) := invoke current.callback current.data turn.world (rest, st)
      cheopsSchedRunq invoke turns (x + 1) (rest, runqReturned current nonzero turn.later st)

end Cheops.Scheduler
