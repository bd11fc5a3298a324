import Cheops.Fields.Basic
import Cheops.Probes.Once

/-! # The probes of the agent (`agent-probe.c`)

`handle_probe_request` starts a probe with a `probe_user_data` that its callbacks get.  Here the
probes are taken together with what they hold besides poll entries and timers: that record, and the
socket from `make_nonblock_stream_socket`.  A request is served by a probe, or by none if there is
no probe for the port or no socket.

What happens to the poll table, the timer queue and the records of the probes is as in
`Cheops.Probes.Basic`; the functions here add what that leaves out.
-/

namespace Cheops.Probes

open Cheops.Fields Cheops.Io Cheops.Lib Cheops.Scheduler

/-! ## The registered probes -/

def probesa : List Probe :=
  [{ port := 21, send := false, recieve := true }, { port := 22, send := false, recieve := true },
   { port := 25, send := false, recieve := true }, { port := 80, send := true, recieve := true },
   { port := 110, send := false, recieve := true }, { port := 119, send := false, recieve := true },
   { port := 143, send := false, recieve := true }, { port := 444, send := false, recieve := true },
   { port := 5900, send := false, recieve := true },
   { port := 5901, send := false, recieve := true },
   { port := 5902, send := false, recieve := true },
   { port := 5903, send := false, recieve := true },
   { port := 5904, send := false, recieve := true },
   { port := 5905, send := false, recieve := true },
   { port := 5906, send := false, recieve := true },
   { port := 5907, send := false, recieve := true }]

/-- `get_probe`: the first one in the list. -/
def getProbe (probes : List Probe) (port : Nat) : Option Probe := probes.find? (·.port == port)

def registerProbe (probes : List Probe) (p : Probe) : List Probe :=
  if 0 < p.port then
    match getProbe probes p.port with
    | some old => probes.erase old ++ [p]
    | none => probes ++ [p]
  else probes

def initProbes : List Probe := probesa.foldl registerProbe []

/-- Each probe reads what it receives. -/
theorem initProbes_recieve : ∀ p ∈ initProbes, p.recieve = true := by decide

/-! ## What a request holds -/

/-- `probe_user_data`.  The ghost `request` is the number of the event it has been made for. -/
structure ProbeUserData where
  np : List UInt8
  agent : Nat
  request : Nat
deriving DecidableEq, Repr

inductive Resource where
  | userData
  | probeData
  | socket
deriving DecidableEq, Repr

/-- How a request has been served: by the probe `serial`, if by one; and whether a record for a
    probe has been allocated, and a socket opened. -/
structure Served where
  serial : Option Nat
  record : Bool
  socket : Bool
deriving DecidableEq, Repr

/-- `REPLY_PROBE`. -/
structure ProbeReply where
  agent : Nat
  ip : Nat
  port : Nat
  np : List UInt8
  version : List UInt8
deriving DecidableEq, Repr

/-- The `probe_user_data` that are allocated, the sockets that are open, by the requests they are
    for, and the replies that have been sent.  Ghosts are the request of each probe, how the
    requests have been served, and what has been released for which.  `fault` is set when memory
    is used that has been freed, or a socket closed that is not open. -/
structure Resources where
  userData : Nat → Option ProbeUserData
  sockets : Int → Option Nat
  replies : List ProbeReply
  request : Nat → Nat
  served : List Served
  released : List (Nat × Resource)
  fault : Bool

abbrev AgentProgram := Poll IoCallback × World × Resources

/-- The part that `Cheops.Probes.Basic` is about. -/
def AgentProgram.base (q : AgentProgram) : Program := (q.1, q.2.1)

def Resources.freeUserData (ud : Nat) (res : Resources) : Resources :=
  match res.userData ud with
  | none => { res with fault := true }
  | some d => { res with
      userData := Function.update res.userData ud none
      released := res.released ++ [(d.request, .userData)] }

/-- `if(pd->socket >= 0) close(pd->socket)`. -/
def Resources.close (socket : Int) (res : Resources) : Resources :=
  if 0 ≤ socket then
    match res.sockets socket with
    | none => { res with fault := true }
    | some k => { res with
        sockets := Function.update res.sockets socket none
        released := res.released ++ [(k, .socket)] }
  else res

/-- `free` of the `probe_data` of a request. -/
def Resources.freeProbeData (k : Nat) (res : Resources) : Resources :=
  { res with released := res.released ++ [(k, .probeData)] }

/-! ## Requests -/

/-- What the system answers to `make_nonblock_stream_socket`: the socket, and whether the two calls
    of `fcntl` succeed and `connect` does or is in progress. -/
structure SocketAnswers where
  socket : Option Nat
  getfl : Bool
  setfl : Bool
  connect : Bool
deriving Repr

def makeNonblockStreamSocket (ans : SocketAnswers) : Int :=
  match ans.socket with
  | none => -1
  | some sock =>
    if !ans.getfl then -1
    else if !ans.setfl then -1
    else if !ans.connect then -1
    else sock

/-- An `EVENT_PROBE` from an agent, and what the system answers: the blocks for the
    `probe_user_data` and for what `get_version` allocates, and the clock. -/
structure ProbeRequest where
  arguments : ProbeArguments
  agent : Nat
  userData : Nat
  record : Option Nat
  socket : SocketAnswers
  timerBlock : Option Nat
  now : Option Timeval
  outBlock : Option Nat
  inBlock : Option Nat

/-- The call of `get_version`. -/
def ProbeRequest.request (r : ProbeRequest) : Request where
  addr := r.arguments.ip
  timeoutMs := r.arguments.timeout
  cb := true
  timeoutCb := true
  userData := r.userData
  p := getProbe initProbes r.arguments.port
  socket := makeNonblockStreamSocket r.socket
  block := r.record
  timerBlock := r.timerBlock
  now := r.now
  outBlock := r.outBlock
  inBlock := r.inBlock

/-- What `get_version` does to the resources; `started` is the number of the probe that it starts,
    if it does.  Where it starts none, it frees the record again. -/
def Resources.getVersion (r : ProbeRequest) (started : Nat) (res : Resources) : Resources :=
  let k := res.served.length
  match r.request.p, r.record with
  | some _, some _ =>
    let res : Resources :=
      match r.socket.socket with
      | some sock => { res with sockets := Function.update res.sockets sock (some k) }
      | none => res
    if r.request.socket < 0 then
      { res.freeProbeData k with
        served := res.served ++ [⟨none, true, r.socket.socket.isSome⟩] }
    else { res with
      request := Function.update res.request started k
      served := res.served ++ [⟨some started, true, true⟩] }
  | none, some _ => { res.freeProbeData k with served := res.served ++ [⟨none, true, false⟩] }
  | _, none => { res with served := res.served ++ [⟨none, false, false⟩] }

def handleProbeRequest (r : ProbeRequest) (q : AgentProgram) : AgentProgram :=
  let ud : ProbeUserData :=
    { np := r.arguments.np, agent := r.agent, request := q.2.2.served.length }
  let res := { q.2.2 with userData := Function.update q.2.2.userData r.userData (some ud) }
  let p := getVersion r.request q.base
  (p.1, p.2, res.getVersion r q.2.1.started)

/-! ## Callbacks -/

def Resources.myProbeCallback (ip port : Nat) (version : Option (List UInt8)) (ud : Nat)
    (res : Resources) : Resources :=
  match version with
  | none => res
  | some version =>
    match res.userData ud with
    | none => { res with fault := true }
    | some d => { res with
        replies := res.replies ++ [{ agent := d.agent, ip, port, np := d.np, version }] }

def Resources.myProbeTimeout (ud : Nat) (res : Resources) : Resources := res.freeUserData ud

/-- `recieve_cb`, where the probe reads `version`. -/
def agentRecieveCb (version : Option (List UInt8)) (data : Nat) (q : AgentProgram) :
    Bool × AgentProgram :=
  let (again, io, w) := recieveCb data q.base
  let res :=
    match q.2.1.heap data with
    | none => q.2.2
    | some pd =>
      if again then q.2.2
      else
        let res :=
          if pd.p.recieve && pd.cb then
            q.2.2.myProbeCallback pd.ip pd.p.port version pd.userData
          else q.2.2
        (res.close pd.socket).freeProbeData (res.request pd.serial)
  (again, io, w, res)

/-- `send_cb`. -/
def agentSendCb (data : Nat) (q : AgentProgram) : Bool × AgentProgram :=
  let (again, io, w) := sendCb data q.base
  (again, io, w, q.2.2)

/-- `timeout_cb`. -/
def agentTimeoutCb (data : Nat) (q : AgentProgram) : Bool × AgentProgram :=
  let (again, io, w) := timeoutCb data q.base
  let res :=
    match q.2.1.heap data with
    | none => q.2.2
    | some pd =>
      let res := if pd.timeoutCb then q.2.2.myProbeTimeout pd.userData else q.2.2
      (res.close pd.socket).freeProbeData (res.request pd.serial)
  (again, io, w, res)

/-! ## Runs -/

/-- What the rest of the agent does: it serves requests, and adds entries and timers of its own. -/
inductive AgentCall where
  | probe (r : ProbeRequest)
  | ioAdd (fd : Int) (events data : Nat) (block : Option Nat)
  | schedAdd (when : Int) (data : Nat) (block : Option Nat) (now : Option Timeval)

def AgentCall.base : AgentCall → Call
  | .probe r => .getVersion r.request
  | .ioAdd fd events data block => .ioAdd fd events data block
  | .schedAdd when data block now => .schedAdd when data block now

def AgentCall.run (q : AgentProgram) (c : AgentCall) : AgentProgram :=
  match c with
  | .probe r => handleProbeRequest r q
  | _ =>
    let p := c.base.run q.base
    (p.1, p.2, q.2.2)

def AgentCall.Fresh (q : AgentProgram) (c : AgentCall) : Prop :=
  c.base.Fresh q.base ∧ ∀ r, c = .probe r →
    q.2.2.userData r.userData = none ∧ ∀ sock ∈ r.socket.socket, q.2.2.sockets sock = none

def AllAgentFresh : AgentProgram → List AgentCall → Prop
  | _, [] => True
  | q, c :: cs => c.Fresh q ∧ AllAgentFresh (c.run q) cs

def agentInvoke (calls : List AgentCall) (ret : Bool) (version : Option (List UInt8))
    (s : Slot IoCallback) (q : AgentProgram) : Bool × AgentProgram :=
  match s.callback with
  | .sendCb => agentSendCb s.data q
  | .recieveCb => agentRecieveCb version s.data q
  | .other => (ret, calls.foldl AgentCall.run q)

def agentInvokeSched (calls : List AgentCall) (ret : Bool) (e : Sched SchedCallback)
    (q : AgentProgram) : Bool × AgentProgram :=
  match e.callback with
  | .timeoutCb => agentTimeoutCb e.data q
  | .other => (ret, calls.foldl AgentCall.run q)

structure AgentConfig where
  turn : Option Nat
  prog : AgentProgram

def AgentConfig.base (c : AgentConfig) : Config := ⟨c.turn, c.prog.base⟩

/-- The steps of `Label`; a turn may read the `version` of a probe. -/
inductive AgentLabel where
  | call (c : AgentCall)
  | poll (revents : Nat → Nat)
  | turn (calls : List AgentCall) (ret : Bool) (version : Option (List UInt8))
  | finish
  | expire (now : Option Timeval) (calls : List AgentCall) (ret : Bool) (later : Option Timeval)

def AgentLabel.base : AgentLabel → Label
  | .call c => .call c.base
  | .poll revents => .poll revents
  | .turn calls ret _ => .turn (calls.map AgentCall.base) ret
  | .finish => .finish
  | .expire now calls ret later => .expire now (calls.map AgentCall.base) ret later

/-- The callback of `e` has returned, with what `r` says. -/
def agentFinished (e : Sched SchedCallback) (later : Option Timeval) (r : Bool × AgentProgram) :
    AgentProgram :=
  (r.2.1, r.2.2.1.withSched (runqReturned e r.1 later r.2.2.1.sched), r.2.2.2)

inductive AgentStep : AgentConfig → AgentLabel → AgentConfig → Prop
  | call {q : AgentProgram} {c : AgentCall} (fresh : c.Fresh q) :
      AgentStep ⟨none, q⟩ (.call c) ⟨none, c.run q⟩
  | poll {q : AgentProgram} {revents : Nat → Nat} :
      AgentStep ⟨none, q⟩ (.poll revents) ⟨some 0, (q.1.polled revents, q.2)⟩
  | turn {q : AgentProgram} {x : Nat} {calls : List AgentCall} {ret : Bool}
      {version : Option (List UInt8)} (hx : x < q.1.fdcnt)
      (fresh : AllAgentFresh (q.1.calling x, q.2) calls) :
      AgentStep ⟨some x, q⟩ (.turn calls ret version)
        ⟨some (x + 1), ioTurn (agentInvoke calls ret version) x q⟩
  | finish {q : AgentProgram} {x : Nat} (hx : ¬ x < q.1.fdcnt) :
      AgentStep ⟨some x, q⟩ .finish ⟨none, q⟩
  | expire {q : AgentProgram} {now later : Option Timeval} {calls : List AgentCall} {ret : Bool}
      {e : Sched SchedCallback} {sched : SchedState SchedCallback}
      (due : runqTake now q.2.1.sched = some (e, sched))
      (fresh : AllAgentFresh (q.1, q.2.1.withSched sched, q.2.2) calls) :
      AgentStep ⟨none, q⟩ (.expire now calls ret later) ⟨none, agentFinished e later
        (agentInvokeSched calls ret e (q.1, q.2.1.withSched sched, q.2.2))⟩

def agentStart (slot : Nat → Slot IoCallback) : AgentConfig where
  turn := none
  prog := ((start slot).prog.1, (start slot).prog.2,
    { userData := fun _ => none, sockets := fun _ => none, replies := [], request := fun _ => 0
      served := [], released := [], fault := false })

end Cheops.Probes
