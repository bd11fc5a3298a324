import Cheops.Io.Basic
import Cheops.Lib.Run
import Cheops.Scheduler.Events

/-! # Service probes (`probe.c`)

`get_version` starts a probe: a `struct probe_data` that is the data of two poll entries and of one
timer.  The program is modelled with the poll table, the timer queue and any other users of both.

The functions a probe is given, `cb`, `timeout_cb`, `send` and `recieve`, leave the table and the
queue alone, as those under `src` do; of each it is modelled whether it is `NULL`, and its calls
are in the ghost `log`.
-/

namespace Cheops.Probes

open Cheops.Io Cheops.Lib Cheops.Scheduler

/-- `struct probe`. -/
structure Probe where
  port : Nat
  send : Bool
  recieve : Bool
deriving DecidableEq, Repr

/-- `struct probe_data`.  `serial` is a ghost that numbers the probes. -/
structure ProbeData where
  cb : Bool
  timeoutCb : Bool
  userData : Nat
  socket : Int
  ip : Nat
  siid : Option Nat
  soid : Option Nat
  tid : Int
  flags : Nat
  p : Probe
  serial : Nat
deriving DecidableEq, Repr

def PROBE_DATA_FLAGS_SEND : Nat := 1

def POLLIN : Nat := 1
def POLLOUT : Nat := 4

inductive IoCallback where
  | sendCb
  | recieveCb
  | other
deriving DecidableEq, Repr

inductive SchedCallback where
  | timeoutCb
  | other
deriving DecidableEq, Repr

/-- What happens to the probe with a given number; a record is freed at its address. -/
inductive Event where
  | sent (serial : Nat)
  | cb (serial : Nat)
  | timeout (serial : Nat)
  | freed (serial addr : Nat)
deriving DecidableEq, Repr

/-- The timer queue, the records that are allocated, and the ghosts; `fault` is set when a record
    is used that is not allocated. -/
structure World where
  sched : SchedState SchedCallback
  heap : Nat → Option ProbeData
  log : List Event
  started : Nat
  fault : Bool

abbrev Program := Poll IoCallback × World

def World.free (a : Nat) (pd : ProbeData) (w : World) : World :=
  { w with heap := Function.update w.heap a none, log := w.log ++ [.freed pd.serial a] }

/-- `if (id) cheops_io_remove(id)`. -/
def removeIfSet (id : Option Nat) (io : Poll IoCallback) : Poll IoCallback :=
  match id with
  | some p => (cheopsIoRemove p io).2
  | none => io

/-- `if (tid >= 0) cheops_sched_del(tid)`. -/
def World.delIfSet (tid : Int) (w : World) : World :=
  { w with sched := if 0 ≤ tid then (cheopsSchedDel tid w.sched).2 else w.sched }

/-- A function is called, unless it is `NULL`. -/
def World.called (set : Bool) (e : Event) (w : World) : World :=
  { w with log := w.log ++ if set then [e] else [] }

/-- `recieve_cb`; the result is `true` for non-zero. -/
def recieveCb (data : Nat) (q : Program) : Bool × Program :=
  match q.2.heap data with
  | none => (true, q.1, { q.2 with fault := true })
  | some pd =>
    let ready := pd.p.recieve && pd.cb
    if ready && pd.flags &&& PROBE_DATA_FLAGS_SEND == 0 then (true, q)
    else
      let w := q.2.called ready (.cb pd.serial)
      (false, removeIfSet pd.soid q.1, (w.delIfSet pd.tid).free data pd)

def sendCb (data : Nat) (q : Program) : Bool × Program :=
  match q.2.heap data with
  | none => (true, q.1, { q.2 with fault := true })
  | some pd =>
    let w := q.2.called pd.p.send (.sent pd.serial)
    let pd := { pd with flags := pd.flags ||| PROBE_DATA_FLAGS_SEND, soid := none }
    (false, q.1, { w with heap := Function.update w.heap data (some pd) })

def timeoutCb (data : Nat) (q : Program) : Bool × Program :=
  match q.2.heap data with
  | none => (true, q.1, { q.2 with fault := true })
  | some pd =>
    let w := q.2.called pd.timeoutCb (.timeout pd.serial)
    (false, removeIfSet pd.siid (removeIfSet pd.soid q.1), w.free data pd)

/-- The arguments of a call of `get_version`, and what the system answers: the probe that
    `get_probe` finds, the socket, and the blocks for the record, the timer and the two id cells. -/
structure Request where
  addr : Nat
  timeoutMs : Nat
  cb : Bool
  timeoutCb : Bool
  userData : Nat
  p : Option Probe
  socket : Int
  block : Option Nat
  timerBlock : Option Nat
  now : Option Timeval
  outBlock : Option Nat
  inBlock : Option Nat
deriving Repr

/-- A record has been set up at `a`; `io` and `sched` are what the table and the queue have
    become. -/
def Program.opened (q : Program) (io : Poll IoCallback) (sched : SchedState SchedCallback) (a : Nat)
    (pd : ProbeData) : Program :=
  (io, { q.2 with
    sched
    heap := Function.update q.2.heap a (some pd)
    started := q.2.started + 1 })

def getVersion (r : Request) (q : Program) : Program :=
  match r.p, r.block with
  | some p, some a =>
    if r.socket < 0 then q
    else
      let timer := cheopsSchedAdd (int32 r.timeoutMs) .timeoutCb a r.timerBlock r.now q.2.sched
      let out := cheopsIoAdd r.socket .sendCb POLLOUT a r.outBlock q.1
      let in_ := cheopsIoAdd r.socket .recieveCb POLLIN a r.inBlock out.2
      q.opened in_.2 timer.2 a
        { cb := r.cb, timeoutCb := r.timeoutCb, userData := r.userData, socket := r.socket
          ip := r.addr, siid := in_.1, soid := out.1, tid := timer.1, flags := 0, p
          serial := q.2.started }
  | _, _ => q

theorem World.called_false (e : Event) (w : World) : w.called false e = w := by
  simp [World.called]

theorem sendCb_eq {data : Nat} {q : Program} {pd : ProbeData} (h : q.2.heap data = some pd) :
    sendCb data q = (false, q.1,
      { q.2.called pd.p.send (.sent pd.serial) with
        heap := Function.update q.2.heap data
          (some { pd with flags := pd.flags ||| PROBE_DATA_FLAGS_SEND, soid := none }) }) := by
  unfold sendCb
  rw [h]
  rfl

/-- Before anything has been sent, what is received is left alone. -/
theorem recieveCb_unsent {data : Nat} {q : Program} {pd : ProbeData}
    (h : q.2.heap data = some pd) (hrecieve : pd.p.recieve = true) (hcb : pd.cb = true)
    (hflags : pd.flags &&& PROBE_DATA_FLAGS_SEND = 0) : recieveCb data q = (true, q) := by
  unfold recieveCb
  rw [h]
  simp [hrecieve, hcb, hflags]

theorem recieveCb_sent {data : Nat} {q : Program} {pd : ProbeData}
    (h : q.2.heap data = some pd) (hrecieve : pd.p.recieve = true) (hcb : pd.cb = true)
    (hflags : pd.flags &&& PROBE_DATA_FLAGS_SEND ≠ 0) :
    recieveCb data q = (false, removeIfSet pd.soid q.1,
      ((q.2.called true (.cb pd.serial)).delIfSet pd.tid).free data pd) := by
  unfold recieveCb
  rw [h]
  simp [hrecieve, hcb, hflags]

theorem timeoutCb_eq {data : Nat} {q : Program} {pd : ProbeData} (h : q.2.heap data = some pd) :
    timeoutCb data q = (false, removeIfSet pd.siid (removeIfSet pd.soid q.1),
      (q.2.called pd.timeoutCb (.timeout pd.serial)).free data pd) := by
  unfold timeoutCb
  rw [h]

/-! ## Runs -/

/-- What the rest of the program does: it starts probes, and adds entries and timers of its own. -/
inductive Call where
  | getVersion (r : Request)
  | ioAdd (fd : Int) (events data : Nat) (block : Option Nat)
  | schedAdd (when : Int) (data : Nat) (block : Option Nat) (now : Option Timeval)
deriving Repr

def Call.run (q : Program) : Call → Program
  | .getVersion r => Probes.getVersion r q
  | .ioAdd fd events data block => ((cheopsIoAdd fd .other events data block q.1).2, q.2)
  | .schedAdd when data block now =>
    (q.1, { q.2 with sched := (cheopsSchedAdd when .other data block now q.2.sched).2 })

/-- The blocks `malloc` gives for a call are not in use. -/
def Call.Fresh (q : Program) : Call → Prop
  | .getVersion r =>
    (∀ a ∈ r.block, q.2.heap a = none) ∧ (∀ p ∈ r.timerBlock, p ∉ q.2.sched.allocated) ∧
      (∀ p ∈ r.outBlock, q.1.cell p = none) ∧
      (∀ p ∈ r.inBlock, q.1.cell p = none ∧ p ∉ r.outBlock)
  | .ioAdd _ _ _ block => ∀ p ∈ block, q.1.cell p = none
  | .schedAdd _ _ block _ => ∀ p ∈ block, p ∉ q.2.sched.allocated

def AllFresh : Program → List Call → Prop
  | _, [] => True
  | q, c :: cs => c.Fresh q ∧ AllFresh (c.run q) cs

/-- A callback in the poll table.  One that is not of a probe makes some calls and returns
    something. -/
def invoke (calls : List Call) (ret : Bool) (s : Slot IoCallback) (q : Program) : Bool × Program :=
  match s.callback with
  | .sendCb => sendCb s.data q
  | .recieveCb => recieveCb s.data q
  | .other => (ret, calls.foldl Call.run q)

def invokeSched (calls : List Call) (ret : Bool) (e : Sched SchedCallback) (q : Program) :
    Bool × Program :=
  match e.callback with
  | .timeoutCb => timeoutCb e.data q
  | .other => (ret, calls.foldl Call.run q)

/-- The program between two steps; `turn` is the index of the loop of `cheops_io_wait` while that
    runs. -/
structure Config where
  turn : Option Nat
  prog : Program

/-- The steps: a call; `poll` finds something ready; a turn of the loop; its end; and one event of
    `cheops_sched_runq`. -/
inductive Label where
  | call (c : Call)
  | poll (revents : Nat → Nat)
  | turn (calls : List Call) (ret : Bool)
  | finish
  | expire (now : Option Timeval) (calls : List Call) (ret : Bool) (later : Option Timeval)

def World.withSched (sched : SchedState SchedCallback) (w : World) : World := { w with sched }

/-- The callback of `e` has returned, with what `r` says. -/
def finished (e : Sched SchedCallback) (later : Option Timeval) (r : Bool × Program) : Program :=
  (r.2.1, r.2.2.withSched (runqReturned e r.1 later r.2.2.sched))

inductive Step : Config → Label → Config → Prop
  | call {q : Program} {c : Call} (fresh : c.Fresh q) :
      Step ⟨none, q⟩ (.call c) ⟨none, c.run q⟩
  | poll {q : Program} {revents : Nat → Nat} :
      Step ⟨none, q⟩ (.poll revents) ⟨some 0, (q.1.polled revents, q.2)⟩
  | turn {q : Program} {x : Nat} {calls : List Call} {ret : Bool} (hx : x < q.1.fdcnt)
      (fresh : AllFresh (q.1.calling x, q.2) calls) :
      Step ⟨some x, q⟩ (.turn calls ret) ⟨some (x + 1), ioTurn (invoke calls ret) x q⟩
  | finish {q : Program} {x : Nat} (hx : ¬ x < q.1.fdcnt) :
      Step ⟨some x, q⟩ .finish ⟨none, q⟩
  | expire {q : Program} {now later : Option Timeval} {calls : List Call} {ret : Bool}
      {e : Sched SchedCallback} {sched : SchedState SchedCallback}
      (due : runqTake now q.2.sched = some (e, sched))
      (fresh : AllFresh (q.1, q.2.withSched sched) calls) :
      Step ⟨none, q⟩ (.expire now calls ret later)
        ⟨none, finished e later (invokeSched calls ret e (q.1, q.2.withSched sched))⟩

def start (slot : Nat → Slot IoCallback) : Config where
  turn := none
  prog := (Poll.start slot,
    { sched := initial, heap := fun _ => none, log := [], started := 0, fault := false })

end Cheops.Probes
