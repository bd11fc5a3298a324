import Cheops.Lib.Bytes

/-! # Mapping requests (`agent-map.c`)

`start_mapping`, `map_timeout` and `handle_map` as `agent-map.c` computes them.  The queue
`mrq` is a list in the order of its `next` pointers.  An address is the number that its four
bytes in memory stand for in network order; a received packet is memory.

What the system answers is an argument; the sockets are taken to work.
-/

namespace Cheops.Map

open Cheops.Lib

/-! ## Constants -/

def MAP_MAX : Nat := 60
def MAP_TIMEOUT_MAX : Nat := 5
def MAP_REQUEST_TIMEOUT : Int := 10
def MAX_MAP_REQUEST_RETRIES : Nat := 3
def EMPTY_PORT : Nat := 33434
def ICMP_MINLEN : Nat := 8
def ICMP_ECHOREPLY : Nat := 0
def ICMP_DEST_UNREACH : Nat := 3
def ICMP_TIME_EXCEEDED : Nat := 11
def IPPROTO_ICMP : Nat := 1

/-! ## Requests, replies and probes -/

/-- The fields of `map_icmp_r`, and the agent that it is sent to. -/
structure MapIcmpR where
  agent : Nat
  np : Nat
  dest : Nat
  ip1 : Nat
  ip2 : Nat
deriving DecidableEq, Repr

/-- `struct map_request`.  The `ttl` stays between 1 and `MAP_MAX`, which a `char` can hold.
    `reported` and `probed` are ghosts: what `map_connect` has sent for the request, and how many
    probes were. -/
structure MapRequest where
  np : Nat
  dest : Nat
  last : Nat
  ttl : Nat
  retries : Nat
  sent : Int
  agent : Nat
  reported : List MapIcmpR
  probed : Nat
  ttl_pos : 1 ≤ ttl
  ttl_le : ttl ≤ MAP_MAX
deriving DecidableEq, Repr

/-- The fields of a packet `sendicmp` sends that come back in an answer. -/
structure Probe where
  ipDst : Nat
  ipTtl : Nat
  icmpSeq : Nat
deriving DecidableEq, Repr

/-- What `agent-map.c` has done besides changing `mrq`: the probes that were sent, and the
    requests that were removed. -/
structure Done where
  probes : List Probe
  finished : List MapRequest
deriving DecidableEq, Repr

/-- The static variables of `agent-map.c`, and the ghost `done`. -/
structure MapState where
  mrq : List MapRequest
  timeoutInstalled : Int
  done : Done
deriving DecidableEq, Repr

def initial : MapState := ⟨[], 0, ⟨[], []⟩⟩

def Done.probed (probe : Probe) (done : Done) : Done :=
  { done with probes := probe :: done.probes }

def Done.removed (mr : MapRequest) (done : Done) : Done :=
  { done with finished := mr :: done.finished }

/-- `map_connect`, called with the fields of `mr`. -/
def mapConnect (mr : MapRequest) (addr1 addr2 : Nat) : MapRequest :=
  { mr with reported := mr.reported ++ [⟨mr.agent, mr.np, mr.dest, addr1, addr2⟩] }

def sendicmp (ttl dest : Nat) : Probe := ⟨dest, ttl, ttl⟩

/-- `mr_probe`; `now` is what `time` returns. -/
def mrProbe (now : Int) (mr : MapRequest) : MapRequest × Probe :=
  ({ mr with retries := mr.retries + 1, sent := now, probed := mr.probed + 1 },
    sendicmp mr.ttl mr.dest)

/-! ## `start_mapping` -/

/-- `start_mapping`; `schedId` is what `cheops_sched_add` returns if it is called. -/
def startMapping (getlocalip : Nat → Nat) (schedId now : Int) (ip agent np : Nat)
    (st : MapState) : MapState :=
  let lip := getlocalip ip
  if lip = ip then st
  else if st.mrq.any fun mr => mr.dest == ip && np == mr.np then st
  else
    let mr : MapRequest :=
      { agent, np, dest := ip, last := lip, ttl := 1, retries := 0, sent := 0, reported := []
        probed := 0, ttl_pos := Nat.le_refl _, ttl_le := by decide }
    let (mr, probe) := mrProbe now mr
    { mrq := mr :: st.mrq
      timeoutInstalled := if st.timeoutInstalled = 0 then schedId else st.timeoutInstalled
      done := st.done.probed probe }

/-! ## `map_timeout` -/

/-- The loop of `map_timeout`, from a request on.  A request that is probed again is looked at
    again; `clock` is what `time` returns for the probes. -/
def mapTimeoutLoop (current : Int) (clock : Nat → Int) :
    Nat → List MapRequest → Done → List MapRequest × Done
  | _, [], done => ([], done)
  | cnt, mr :: rest, done =>
    if current > mr.sent + MAP_REQUEST_TIMEOUT then
      if cnt + 1 > MAP_TIMEOUT_MAX then (mr :: rest, done)
      else if mr.retries > MAX_MAP_REQUEST_RETRIES then
        mapTimeoutLoop current clock (cnt + 1) rest (done.removed mr)
      else
        let (mr, probe) := mrProbe (clock cnt) mr
        mapTimeoutLoop current clock (cnt + 1) (mr :: rest) (done.probed probe)
    else
      let (kept, done) := mapTimeoutLoop current clock cnt rest done
      (mr :: kept, done)
termination_by cnt l => MAP_TIMEOUT_MAX - cnt + l.length

def mapTimeout (current : Int) (clock : Nat → Int) (st : MapState) : Bool × MapState :=
  if st.mrq = [] then (false, { st with timeoutInstalled := 0 })
  else
    let (mrq, done) := mapTimeoutLoop current clock 0 st.mrq st.done
    (true, { st with mrq, done })

/-! ## `handle_map` -/

/-- The fields of a `struct ip` at offset `off`, and of the ICMP or UDP header behind it.
    `ip_hl` is the low half of the first byte. -/
def ipHlen (buf : Mem) (off : Nat) : Nat := (buf off).toNat % 16 * 4
def ipP (buf : Mem) (off : Nat) : Nat := (buf (off + 9)).toNat
def ipDst (buf : Mem) (off : Nat) : Nat := be32 buf (off + 16)
def icmpType (buf : Mem) (off : Nat) : Nat := (buf (off + ipHlen buf off)).toNat
def icmpSeq (buf : Mem) (off : Nat) : Nat := be16 buf (off + ipHlen buf off + 6)
def udpDest (buf : Mem) (off : Nat) : Nat := be16 buf (off + ipHlen buf off + 2)

def uchar (n : Int) : Nat := (n % 256).toNat

/-- The hop `src` has answered: its link is reported, and the next hop is the goal. -/
def MapRequest.hop (src : Nat) (mr : MapRequest) (h : mr.ttl < MAP_MAX) : MapRequest :=
  { mapConnect mr mr.last src with
    ttl := mr.ttl + 1
    retries := 0
    last := src
    ttl_pos := Nat.le_succ_of_le mr.ttl_pos
    ttl_le := h }

/-- The loop for `ICMP_TIME_EXCEEDED`.  Its `ttl = mr->ttl` is an assignment: what the packet
    says of the hop is not looked at.  `clock` gives `time` by the number of requests left. -/
def exceededLoop (dst src : Nat) (clock : Nat → Int) :
    List MapRequest → Done → List MapRequest × Done
  | [], done => ([], done)
  | mr :: rest, done =>
    if mr.dest = dst ∧ mr.ttl ≠ 0 then
      if h : mr.ttl < MAP_MAX then
        let (mr, probe) := mrProbe (clock rest.length) (mr.hop src h)
        let (kept, done) := exceededLoop dst src clock rest (done.probed probe)
        (mr :: kept, done)
      else exceededLoop dst src clock rest (done.removed mr)
    else
      let (kept, done) := exceededLoop dst src clock rest done
      (mr :: kept, done)

/-- The loop for `ICMP_ECHOREPLY`, with the same assignment. -/
def echoLoop (src : Nat) : List MapRequest → Bool → Done → Bool × List MapRequest × Done
  | [], ret, done => (ret, [], done)
  | mr :: rest, ret, done =>
    if mr.dest = src ∧ mr.ttl ≠ 0 then
      echoLoop src rest true (done.removed (mapConnect mr mr.last src))
    else
      let (ret, kept, done) := echoLoop src rest ret done
      (ret, mr :: kept, done)

/-- The case `ICMP_ECHOREPLY` of `handle_map`, with `ip` at `off`; `ICMP_DEST_UNREACH` falls
    through to it. -/
def handleLastHop (buf : Mem) (off : Nat) (len : Int) (src : Nat) (st : MapState) :
    Bool × MapState :=
  if len ≠ ipHlen buf off + ICMP_MINLEN then (false, st)
  else
    let ttl := uchar (if ipP buf off = IPPROTO_ICMP then (icmpSeq buf off : Int)
      else udpDest buf off - EMPTY_PORT)
    if ttl ≥ MAP_MAX then (false, st)
    else
      let (ret, mrq, done) := echoLoop src st.mrq false st.done
      (ret, { st with mrq, done })

def handleMap (buf : Mem) (len : Int) (src : Nat) (clock : Nat → Int) (st : MapState) :
    Bool × MapState :=
  let inner := ipHlen buf 0 + ICMP_MINLEN
  let type := icmpType buf 0
  if type = ICMP_TIME_EXCEEDED then
    if len - inner < ipHlen buf inner + ICMP_MINLEN then (false, st)
    else
      let (mrq, done) := exceededLoop (ipDst buf inner) src clock st.mrq st.done
      (false, { st with mrq, done })
  else if type = ICMP_DEST_UNREACH then
    if udpDest buf inner < EMPTY_PORT then (false, st)
    else handleLastHop buf inner (len - inner) src st
  else if type = ICMP_ECHOREPLY then handleLastHop buf 0 len src st
  else (false, st)

end Cheops.Map
