import Cheops.Discover.Order
import Cheops.Lib.Run
import Cheops.Scheduler.Events

/-! # Discover requests over whole runs

The agent takes requests and runs the events of its timer queue, in any order and at any
clock, while the rest of the agent uses the timer queue for events of its own.  A request
goes from one run of `ping_send` to the next by having exactly one event in the queue.

`ping_send` loses that event when it asks `cheops_sched_add` for a delay of 0, which it does
at one elapsed time only (`Stalls`).
-/

namespace Cheops.Discover

open Cheops.Lib Cheops.Scheduler

/-! ## Steps -/

def removePingQ (pp : PingQ) (pingQ : List PingQ) : List PingQ :=
  pingQ.eraseP (·.addr == pp.addr)

def updatePingQ (pp : PingQ) (pingQ : List PingQ) : List PingQ :=
  pingQ.map fun q => if q.addr = pp.addr then pp else q

/-- The agent between two steps: `pingQ`, the event of another part of the agent whose callback
    is running, and the timer queue.  `finished` is a ghost: the requests that were removed. -/
structure Scan where
  pingQ : List PingQ
  current : Option (Sched Callback)
  sched : SchedState Callback
  finished : List PingQ

def Scan.initial : Scan := ⟨[], none, Scheduler.initial, []⟩

/-- `ping_send` has run for `e`, and `cheops_sched_runq` has dealt with what it returned. -/
def Scan.pinged (s : Scan) (e : Sched Callback) (o : PingSent) (later : Timeval) : Scan where
  pingQ := if o.removed then removePingQ o.pp s.pingQ else updatePingQ o.pp s.pingQ
  current := s.current
  sched := runqReturned e o.ret (some later) o.sched
  finished := if o.removed then o.pp :: s.finished else s.finished

inductive Label where
  | request (addr eStart eEnd flags : Nat) (block : Option Nat) (now : Timeval)
  | ping (now : Timeval) (pp : PingQ) (ans : Answers) (later : Timeval)
  | add (when : Int) (data : Nat) (block : Option Nat) (now : Option Timeval)
  | del (id : Int)
  | take (now : Option Timeval)
  | returned (nonzero : Bool) (later : Option Timeval)

/-- One step.  `malloc` gives a request a block that no queued request is in; the other parts
    of the agent delete events of their own only. -/
inductive Step (pingRetries : Nat) : Scan → Label → Scan → Prop
  | request {s : Scan} {addr eStart eEnd flags : Nat} {block : Option Nat} {now : Timeval}
      {pp : PingQ} (fresh : addr ∉ s.pingQ.map PingQ.addr)
      (accepted : handleDiscoverRequest addr eStart eEnd flags = .ok pp) :
      Step pingRetries s (.request addr eStart eEnd flags block now)
        { s with
          pingQ := pp :: s.pingQ
          sched := (cheopsSchedAdd 1 .pingSend pp.addr block (some now) s.sched).2 }
  | refused {s : Scan} {addr eStart eEnd flags : Nat} {block : Option Nat} {now : Timeval}
      {reason : List UInt8} (error : handleDiscoverRequest addr eStart eEnd flags = .error reason) :
      Step pingRetries s (.request addr eStart eEnd flags block now) s
  | ping {s : Scan} {e : Sched Callback} {st : SchedState Callback} {pp : PingQ} {ans : Answers}
      {now later : Timeval} (idle : s.current = none)
      (due : runqTake (some now) s.sched = some (e, st)) (callback : e.callback = .pingSend)
      (queued : pp ∈ s.pingQ) (data : pp.addr = e.data) :
      Step pingRetries s (.ping now pp ans later)
        (s.pinged e (pingSend pingRetries ans pp st) later)
  | add {s : Scan} {when : Int} {data : Nat} {block : Option Nat} {now : Option Timeval} :
      Step pingRetries s (.add when data block now)
        { s with sched := (cheopsSchedAdd when .other data block now s.sched).2 }
  | del {s : Scan} {id : Int} (own : ∀ e ∈ s.sched.schedq, e.id = id → e.callback = .other) :
      Step pingRetries s (.del id) { s with sched := (cheopsSchedDel id s.sched).2 }
  | take {s : Scan} {e : Sched Callback} {st : SchedState Callback} {now : Option Timeval}
      (idle : s.current = none) (due : runqTake now s.sched = some (e, st))
      (callback : e.callback = .other) :
      Step pingRetries s (.take now) { s with current := some e, sched := st }
  | returned {s : Scan} {e : Sched Callback} {nonzero : Bool} {later : Option Timeval}
      (running : s.current = some e) :
      Step pingRetries s (.returned nonzero later)
        { s with current := none, sched := runqReturned e nonzero later s.sched }

def Scan.exec (pingRetries : Nat) (s : Scan) : Label → Option Scan
  | .request addr eStart eEnd flags block now =>
    if addr ∈ s.pingQ.map PingQ.addr then none
    else
      match handleDiscoverRequest addr eStart eEnd flags with
      | .ok pp =>
        some { s with
          pingQ := pp :: s.pingQ
          sched := (cheopsSchedAdd 1 .pingSend pp.addr block (some now) s.sched).2 }
      | .error _ => some s
  | .ping now pp ans later =>
    match s.current, runqTake (some now) s.sched with
    | none, some (e, st) =>
      if e.callback = .pingSend ∧ pp ∈ s.pingQ ∧ pp.addr = e.data then
        some (s.pinged e (pingSend pingRetries ans pp st) later)
      else none
    | _, _ => none
  | .add when data block now =>
    some { s with sched := (cheopsSchedAdd when .other data block now s.sched).2 }
  | .del id =>
    if ∀ e ∈ s.sched.schedq, e.id = id → e.callback = .other then
      some { s with sched := (cheopsSchedDel id s.sched).2 }
    else none
  | .take now =>
    match s.current, runqTake now s.sched with
    | none, some (e, st) =>
      if e.callback = .other then some { s with current := some e, sched := st } else none
    | _, _ => none
  | .returned nonzero later =>
    s.current.map fun e =>
      { s with current := none, sched := runqReturned e nonzero later s.sched }

theorem exec_sound {pingRetries : Nat} {s s' : Scan} {label : Label}
    (h : s.exec pingRetries label = some s') : Step pingRetries s label s' := by
  cases label with
  | request addr eStart eEnd flags block now =>
    simp only [Scan.exec] at h
    split at h
    next => cases h
    next fresh =>
      split at h
      next pp accepted =>
        cases h
        exact .request fresh accepted
      next reason error =>
        cases h
        exact .refused error
  | ping now pp ans later =>
    simp only [Scan.exec] at h
    split at h
    next e st idle due =>
      split at h
      next hping =>
        cases h
        exact .ping idle due hping.1 hping.2.1 hping.2.2
      next => cases h
    next => cases h
  | add when data block now =>
    cases h
    exact .add
  | del id =>
    simp only [Scan.exec] at h
    split at h
    next own =>
      cases h
      exact .del own
    next => cases h
  | take now =>
    simp only [Scan.exec] at h
    split at h
    next e st idle due =>
      split at h
      next callback =>
        cases h
        exact .take idle due callback
      next => cases h
    next => cases h
  | returned nonzero later =>
    obtain ⟨e, running, rfl⟩ := Option.map_eq_some_iff.mp h
    exact .returned running

def PingQ.asked (pp : PingQ) : Nat × Nat × Nat := (pp.start, pp.end_, pp.flags)

def Label.accepted : Label → Option (Nat × Nat × Nat)
  | .request addr eStart eEnd flags .. =>
    (handleDiscoverRequest addr eStart eEnd flags).toOption.map PingQ.asked
  | _ => none

/-! ## The condition -/

/-- This run of `ping_send` comes to the last address `PING_TIMEOUT_INTERVAL` milliseconds, to
    the millisecond, after the time it has on record for the first one. -/
def Stalls (pingRetries : Nat) (ans : Answers) (pp : PingQ) : Prop :=
  pp.StopsBeforeEnd pingRetries ans.cached ∧ pp.time ≠ 0 ∧
    usub32 (milliseconds ans.now) pp.time = PING_TIMEOUT_INTERVAL

/-- The step asks for an event with a delay and gets the memory for it. -/
def Schedules (pingRetries : Nat) (_ : Scan) : Label → Prop
  | .request _ _ _ _ block _ => block ≠ none
  | .ping _ pp ans _ => ans.block ≠ none ∧ ¬ Stalls pingRetries ans pp
  | _ => True

/-! ## One run of `ping_send` -/

theorem milliseconds_lt (tv : Timeval) : milliseconds tv < 2 ^ 32 := by
  unfold milliseconds
  omega

theorem pingDelay_eq_zero {pingRetries : Nat} (now : Timeval) {pp : PingQ}
    (htime : pp.time < 2 ^ 32) :
    pingDelay pingRetries now pp = 0 ↔ pp.retry ≤ pingRetries ∧ pp.time ≠ 0 ∧
      usub32 (milliseconds now) pp.time = PING_TIMEOUT_INTERVAL := by
  have hms := milliseconds_lt now
  unfold pingDelay
  split
  next hretry => exact iff_of_false (by decide) fun h => by omega
  next hretry =>
    dsimp only
    split
    next hzero => exact iff_of_false (by decide) fun h => h.2.1 hzero
    next hzero =>
      split
      next hlate => exact iff_of_false (by decide) fun h => by omega
      next hlate =>
        split
        all_goals
          next hsame =>
            simp only [usub32, PING_TIMEOUT_INTERVAL] at hlate hsame ⊢
            exact ⟨fun h => ⟨by omega, hzero, by omega⟩, fun h => by omega⟩

/-- `ping_send` keeps the invariant of its request, and it goes on with that request: it either
    has processed something more, or the retries have expired and the request is removed. -/
structure PingSent.Keeps (pingRetries : Nat) (pp : PingQ) (o : PingSent) : Prop where
  inv : o.pp.Inv pingRetries
  addr : o.pp.addr = pp.addr
  asked : o.pp.asked = pp.asked
  runs : o.pp.runs = pp.runs + 1
  expired : o.removed = true → o.pp.retry = pingRetries + 1
  processed : o.removed = false → pp.log.length < o.pp.log.length
  log : pp.log.length ≤ o.pp.log.length

theorem pingSend_keeps {pingRetries : Nat} (ans : Answers) {pp : PingQ}
    (st : SchedState Callback) (h : pp.Inv pingRetries) :
    (pingSend pingRetries ans pp st).Keeps pingRetries pp := by
  have hruns : pp.counted.Inv pingRetries := { h with }
  obtain ⟨hinv, hc, hremoved, hprocessed⟩ := pingLoop_inv ans.cached hruns
  unfold pingSend
  rcases hloop : pingLoop pingRetries ans.cached pp.counted with ⟨removed, pp'⟩
  rw [hloop] at hinv hc hremoved hprocessed
  have hasked : pp'.asked = pp.asked := by
    rw [PingQ.asked, hc.start, hc.end_, hc.flags]
    rfl
  dsimp only
  split_ifs with hgone hend hstart
  · exact ⟨hinv, hc.addr, hasked, hc.runs, hremoved, hprocessed, hc.log⟩
  · exact ⟨hinv, hc.addr, hasked, hc.runs, hremoved, hprocessed, hc.log⟩
  · -- the time is recorded, which a request for a single address never comes to
    have hsingle : pp'.first ≠ pp'.last := fun heq => hend (hstart.trans heq)
    exact ⟨⟨hinv.processed, hinv.right, hinv.expired, fun heq => absurd heq hsingle,
      milliseconds_lt _⟩, hc.addr, hasked, hc.runs, hremoved, hprocessed, hc.log⟩
  · exact ⟨hinv, hc.addr, hasked, hc.runs, hremoved, hprocessed, hc.log⟩

/-- A request that is kept gets its next event, unless `ping_send` stalls. -/
theorem pingSend_calls {pingRetries : Nat} {ans : Answers} {pp : PingQ}
    (st : SchedState Callback) {e : Sched Callback} (later : Timeval) (h : pp.Inv pingRetries)
    (hcall : e.call = (.pingSend, pp.addr)) (hblock : ans.block ≠ none)
    (hstalls : ¬ Stalls pingRetries ans pp) :
    let o := pingSend pingRetries ans pp st
    let sched := runqReturned e o.ret (some later) o.sched
    if o.removed then calls sched = calls st
    else (calls sched).Perm ((.pingSend, pp.addr) :: calls st) := by
  obtain ⟨block, hblock⟩ := Option.ne_none_iff_exists'.mp hblock
  have hruns : pp.counted.Inv pingRetries := { h with }
  obtain ⟨hinv, hc, -, -⟩ := pingLoop_inv ans.cached hruns
  have hdelay : (pingLoop pingRetries ans.cached pp.counted).1 = false →
      (pingLoop pingRetries ans.cached pp.counted).2.current = pp.last →
      pingDelay pingRetries ans.now
        (pingLoop pingRetries ans.cached pp.counted).2 ≠ 0 := by
    intro hkept hend hzero
    obtain ⟨-, hne, helapsed⟩ := (pingDelay_eq_zero _ hinv.time).mp hzero
    rw [hc.time] at hne helapsed
    have hle := Nat.le_trans (first_le pp) (le_last pp)
    have hlt : pp.counted.first < pp.counted.last :=
      Nat.lt_of_le_of_ne hle fun heq => hne (h.single heq)
    exact hstalls ⟨(pingLoop_stops hlt).mp ⟨hkept, hend⟩, hne, helapsed⟩
  unfold pingSend
  rcases hloop : pingLoop pingRetries ans.cached pp.counted with ⟨removed, pp'⟩
  rw [hloop] at hc hdelay
  have haddr : pp'.addr = pp.addr := hc.addr
  have hlast : ntohl pp'.end_ = pp.last := congrArg ntohl hc.end_
  dsimp only
  split_ifs with hgone hend hstart
  · exact runqReturned_calls_false _ _ _
  · rw [runqReturned_calls_false, hblock, ← haddr]
    refine cheopsSchedAdd_calls_of_pos _ _ _ _ _ ?_
    exact_mod_cast hdelay (by simpa using hgone) (hend.trans hlast)
  · rw [runqReturned_calls_false, hblock, ← haddr]
    exact cheopsSchedAdd_calls_of_pos _ _ _ _ _ (by decide)
  · rw [← hcall]
    exact runqReturned_calls_true _ _ _

/-- A run of `ping_send` that stalls keeps the request without an event. -/
theorem Stalls.loses {pingRetries : Nat} {ans : Answers} {pp : PingQ}
    (hstalls : Stalls pingRetries ans pp) (h : pp.Inv pingRetries)
    (st : SchedState Callback) (e : Sched Callback) (later : Timeval) :
    let o := pingSend pingRetries ans pp st
    o.removed = false ∧ calls (runqReturned e o.ret (some later) o.sched) = calls st := by
  obtain ⟨hstops, hne, helapsed⟩ := hstalls
  have hruns : pp.counted.Inv pingRetries := { h with }
  obtain ⟨hinv, hc, -, -⟩ := pingLoop_inv ans.cached hruns
  obtain ⟨hkept, hend⟩ := (@pingLoop_stops pingRetries ans.cached pp.counted hstops.1).mpr hstops
  have hlast : ntohl (pingLoop pingRetries ans.cached pp.counted).2.end_ = pp.last :=
    congrArg ntohl hc.end_
  -- the last address is not the first, so this is not the end of the rounds
  have hretry : (pingLoop pingRetries ans.cached pp.counted).2.retry ≤ pingRetries := by
    by_contra hlt
    have hfirst := (hinv.expired (by omega)).2.symm.trans hend
    rw [PingQ.first, hc.start] at hfirst
    exact absurd hfirst (Nat.ne_of_lt hstops.1)
  have hzero := (pingDelay_eq_zero ans.now hinv.time).mpr
    ⟨hretry, by rw [hc.time]; exact hne, by rw [hc.time]; exact helapsed⟩
  unfold pingSend
  rcases hloop : pingLoop pingRetries ans.cached pp.counted with ⟨removed, pp'⟩
  rw [hloop] at hkept hend hlast hzero
  obtain rfl : removed = false := hkept
  dsimp only at hend hlast hzero ⊢
  rw [if_neg Bool.false_ne_true, if_pos (hend.trans hlast.symm), hzero]
  exact ⟨rfl, runqReturned_calls_false _ _ _⟩

end Cheops.Discover
