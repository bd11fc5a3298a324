import Cheops.Lib.Bytes
import Cheops.Scheduler.Basic

/-! # Discover requests (`agent-discover.c`)

A discover request is a `struct ping_q`, and a chain of `ping_send` events works through its
addresses, once for every round.  The host is little-endian; numbers of type `u32` are in its
order, so `ntohl` and `htonl` swap bytes.

`ping_send` is modelled with every `sendto` succeeding.
-/

namespace Cheops.Discover

open Cheops.Lib Cheops.Scheduler

/-! ## Constants and addresses -/

def PING_TIMEOUT_INTERVAL : Nat := 3000
def PING_INTERVAL : Nat := 78
def FLAG_FORCE : Nat := 1

def byteAt (x i : Nat) : Nat := x / 256 ^ i % 256

/-- `ntohl` and `htonl`. -/
def ntohl (x : Nat) : Nat :=
  byteAt x 0 <<< 24 ||| byteAt x 1 <<< 16 ||| byteAt x 2 <<< 8 ||| byteAt x 3

/-- `IP_CLASSA`, `IP_CLASSB` and `IP_CLASSC`, of an address in network order. -/
def ipClassA (x : Nat) : Bool := byteAt x 0 &&& 0x80 == 0x00
def ipClassB (x : Nat) : Bool := byteAt x 0 &&& 0xc0 == 0x80
def ipClassC (x : Nat) : Bool := byteAt x 0 &&& 0xe0 == 0xc0

/-- `IP_CLASSA_BROADCAST` and its siblings: the given bytes are all `0xff`, or all 0. -/
def ipBroadcast (bytes : List Nat) (x : Nat) : Bool :=
  bytes.all (byteAt x · == 0xff) || bytes.all (byteAt x · == 0)

def ipClassABroadcast : Nat → Bool := ipBroadcast [3, 2, 1]
def ipClassBBroadcast : Nat → Bool := ipBroadcast [3, 2]
def ipClassCBroadcast : Nat → Bool := ipBroadcast [3]

def classfulBroadcast (x : Nat) : Bool :=
  (ipClassA x && ipClassABroadcast x) || (ipClassB x && ipClassBBroadcast x) ||
    (ipClassC x && ipClassCBroadcast x)

/-! ## Requests -/

/-- What `ping_send` does for an address. -/
inductive Treatment where
  | echo
  | reply
  | nothing
deriving DecidableEq, Repr

/-- A pair that has been processed, whether its address was in the cache then, and what was
    done for it. -/
structure Processed where
  round : Nat
  address : Nat
  cached : Bool
  treatment : Treatment
deriving DecidableEq, Repr

/-- `struct ping_q`; `start` and `end_` are in network order, `current` is not.  `log` and `runs`
    are ghosts: the pairs processed so far, and how often `ping_send` has run. -/
structure PingQ where
  addr : Nat
  start : Nat
  end_ : Nat
  current : Nat
  retry : Nat
  flags : Nat
  time : Nat
  log : List Processed
  runs : Nat
  start_le : ntohl start ≤ current
  le_end : current ≤ ntohl end_
deriving DecidableEq, Repr

/-- `handle_discover_request`, up to the scheduling of `ping_send`: the text of the error, or
    the new request, in a block at `addr`. -/
def handleDiscoverRequest (addr eStart eEnd flags : Nat) : Except (List UInt8) PingQ :=
  let start := ntohl eStart
  let end_ := ntohl eEnd
  if h : ntohl start > ntohl end_ then .error (text "Start is larger than Finish\n")
  else if start = 0 ∨ end_ = 0 then .error (text "Can't Discover 0.0.0.0\n")
  else
    .ok { addr, start, end_, flags
          current := ntohl start
          retry := 0
          time := 0
          log := []
          runs := 0
          start_le := Nat.le_refl _
          le_end := Nat.le_of_not_lt h }

/-! ## `ping_send` -/

def PingQ.mustPing (cached : Nat → Bool) (pp : PingQ) : Bool :=
  pp.flags &&& FLAG_FORCE != 0 || !cached (ntohl pp.current)

def PingQ.sends (cached : Nat → Bool) (pp : PingQ) : Bool :=
  pp.mustPing cached && !classfulBroadcast (ntohl pp.current)

def PingQ.treatment (cached : Nat → Bool) (pp : PingQ) : Treatment :=
  if pp.mustPing cached then
    if classfulBroadcast (ntohl pp.current) then .nothing else .echo
  else if pp.retry = 0 then .reply else .nothing

/-- One turn of the loop: the current address is processed, and `current` advances. -/
def PingQ.advance (cached : Nat → Bool) (pp : PingQ) : PingQ :=
  let log := pp.log ++
    [⟨pp.retry, pp.current, cached (ntohl pp.current), pp.treatment cached⟩]
  if h : pp.current = ntohl pp.end_ then
    { pp with
      current := ntohl pp.start
      retry := pp.retry + 1
      log
      start_le := Nat.le_refl _
      le_end := Nat.le_trans pp.start_le pp.le_end }
  else
    { pp with
      current := pp.current + 1
      log
      start_le := Nat.le_succ_of_le pp.start_le
      le_end := Nat.lt_of_le_of_ne pp.le_end h }

/-- The loop of `ping_send`; `true` is its `return` when the retries have expired. -/
def pingLoop (pingRetries : Nat) (cached : Nat → Bool) (pp : PingQ) : Bool × PingQ :=
  if pp.retry > pingRetries then (true, pp)
  else if pp.sends cached then (false, pp.advance cached)
  else pingLoop pingRetries cached (pp.advance cached)
termination_by
  (pingRetries + 1 - pp.retry) * (ntohl pp.end_ + 1 - ntohl pp.start) + (ntohl pp.end_ - pp.current)
decreasing_by
  have hlow := pp.start_le
  have hhigh := pp.le_end
  simp only [PingQ.advance]
  split
  · -- a round takes one turn for each address
    have hround : pingRetries + 1 - pp.retry = (pingRetries + 1 - (pp.retry + 1)) + 1 := by omega
    simp only [hround, Nat.succ_mul]
    omega
  · simp only
    omega

def usub32 (x y : Nat) : Nat := (x + 2 ^ 32 - y) % 2 ^ 32

/-- `(int)tv.tv_sec*1000 + (int)tv.tv_usec/1000`, stored as a `u32`. -/
def milliseconds (tv : Timeval) : Nat :=
  ((tv.tvSec * 1000 + tv.tvUsec.tdiv 1000) % 2 ^ 32).toNat

/-- `time`, as `ping_send` computes it in front of the end address. -/
def pingDelay (pingRetries : Nat) (now : Timeval) (pp : PingQ) : Nat :=
  if pp.retry > pingRetries then PING_TIMEOUT_INTERVAL
  else
    let ms := milliseconds now
    if pp.time = 0 then PING_TIMEOUT_INTERVAL
    else if usub32 ms pp.time > PING_TIMEOUT_INTERVAL then 1
    else if usub32 ms pp.time ≤ 0 then (usub32 ms pp.time + PING_TIMEOUT_INTERVAL) % 2 ^ 32
    else usub32 (pp.time + PING_TIMEOUT_INTERVAL) ms

inductive Callback where
  | pingSend
  | other
deriving DecidableEq, Repr

/-- What the system answers during one run of `ping_send`: which addresses are in the cache,
    the clock, and what `malloc` and the clock give to `cheops_sched_add`. -/
structure Answers where
  cached : Nat → Bool
  now : Timeval
  block : Option Nat
  addNow : Timeval

/-- How `ping_send` leaves things: what it returns, whether the request has been removed and
    freed, the request, and the scheduler. -/
structure PingSent where
  ret : Bool
  removed : Bool
  pp : PingQ
  sched : SchedState Callback

/-- One more run of `ping_send` for the request; only the ghost changes. -/
def PingQ.counted (pp : PingQ) : PingQ := { pp with runs := pp.runs + 1 }

def pingSend (pingRetries : Nat) (ans : Answers) (pp : PingQ) (sched : SchedState Callback) :
    PingSent :=
  let (removed, pp) := pingLoop pingRetries ans.cached pp.counted
  let add (when : Nat) : SchedState Callback :=
    (cheopsSchedAdd (when : Int) .pingSend pp.addr ans.block (some ans.addNow) sched).2
  if removed then { ret := false, removed, pp, sched }
  else if pp.current = ntohl pp.end_ then
    { ret := false, removed, pp, sched := add (pingDelay pingRetries ans.now pp) }
  else if pp.current = ntohl pp.start then
    { ret := false, removed, pp := { pp with time := milliseconds ans.now }
      sched := add PING_INTERVAL }
  else { ret := true, removed, pp, sched }

end Cheops.Discover
