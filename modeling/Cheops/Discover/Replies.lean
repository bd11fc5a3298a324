import Cheops.Discover.Retries
import Cheops.Fields.Basic
import Cheops.Map.Basic

/-! # Discover replies

A reply is sent when an echo reply arrives (`handle_ping_recieve`) and when `ping_send` finds an
address in the cache.  The first takes the request from the packet, where anybody may have put
any pointer; `discover_replies` says what is sent nevertheless.
-/

namespace Cheops.Discover

open Cheops.Lib Cheops.Scheduler
open Cheops.Map (MapState handleMap ipHlen icmpType)

/-! ## Replies -/

/-- The fields of a `ping_q` that only replies use. -/
structure Client where
  a : Nat
  np : Nat
deriving DecidableEq, Repr

/-- What `send_discover_reply` hands to `event_send`: the agent, and the flags and the fields of
    the reply. -/
structure DiscoverIpv4R where
  a : Nat
  flags : Nat
  ipaddr : Nat
  np : Nat
deriving DecidableEq, Repr

def sendDiscoverReply (ip : Nat) (pp : PingQ) (client : Client) : DiscoverIpv4R where
  a := client.a
  flags := pp.flags
  ipaddr := ntohl ip
  np := client.np

def inPingQ (pp : Nat) (pingQ : List PingQ) : Option PingQ := pingQ.find? (·.addr = pp)

/-- `in_ping_q_range`, with the request that it has found. -/
def inPingQRange (q ip : Nat) (pingQ : List PingQ) : Option PingQ :=
  (inPingQ q pingQ).filter fun q => ntohl ip ≤ ntohl q.end_ ∧ ntohl ip ≥ ntohl q.start

/-- The replies that a run of `ping_send` sends, by what it has done for the addresses. -/
def pingReplies (pp : PingQ) (client : Client) (o : PingSent) : List DiscoverIpv4R :=
  ((o.pp.log.drop pp.log.length).filter (·.treatment = .reply)).map fun x =>
    sendDiscoverReply (ntohl x.address) pp client

/-! ## `handle_ping_recieve` -/

/-- The requests of all kinds that packets may be answers to.  `clients` is what stands in the
    blocks of discover requests besides a `PingQ`. -/
structure World where
  scan : Scan
  clients : Nat → Client
  map : MapState

def World.initial : World := ⟨Scan.initial, fun _ => ⟨0, 0⟩, Map.initial⟩

/-- What handling a packet does: the mapping requests after it, the address that is put into the
    cache, and the reply. -/
structure Received where
  map : MapState
  cached : Option Nat
  reply : Option DiscoverIpv4R

/-- `handle_ping_recieve`.  `len` is what `recvfrom` returns, and `buf` the local buffer after it:
    what was not received is what stood on the stack.  `src` is `sin.sin_addr.s_addr`. -/
def handlePingRecieve (buf : Mem) (len : Int) (src : Nat) (clock : Nat → Int) (w : World) :
    Received :=
  let hlen := ipHlen buf 0
  if len < hlen + Map.ICMP_MINLEN then ⟨w.map, none, none⟩
  else
    let (mapped, map) := handleMap buf len (ntohl src) clock w.map
    if mapped then ⟨map, none, none⟩
    else if icmpType buf 0 = Map.ICMP_TIME_EXCEEDED ∨ icmpType buf 0 = Map.ICMP_DEST_UNREACH then
      ⟨map, none, none⟩
    else if icmpType buf 0 ≠ Map.ICMP_ECHOREPLY then ⟨map, none, none⟩
    else
      let pp := ByteOrder.little.get 8 buf (hlen + 8)
      match inPingQRange pp src w.scan.pingQ with
      | none => ⟨map, none, none⟩
      | some q => ⟨map, some src, some (sendDiscoverReply src q (w.clients pp))⟩

/-! ## Runs -/

/-- What happens next.  `client` is the agent the request came from and its `np`. -/
inductive Event where
  | request (addr eStart eEnd flags : Nat) (client : Client) (block : Option Nat) (now : Timeval)
  | ping (pingRetries : Nat) (now : Timeval) (pp : PingQ) (ans : Answers) (later : Timeval)
  | packet (buf : Mem) (len : Int) (src : Nat) (clock : Nat → Int)
  | close (a : Nat)
  | rest (label : Label)

def Label.ofOthers : Label → Bool
  | .request .. | .ping .. => false
  | _ => true

/-- One step, with the replies that it sends.  A connection that closes leaves its requests.  A call
    of `ping_send` is a step if its loop ends. -/
inductive Transition : World → Event × List DiscoverIpv4R → World → Prop
  | request {w : World} {addr eStart eEnd flags : Nat} {client : Client} {block : Option Nat}
      {now : Timeval} {pp : PingQ} (fresh : addr ∉ w.scan.pingQ.map PingQ.addr)
      (accepted : handleDiscoverRequest addr eStart eEnd flags = .ok pp) :
      Transition w (.request addr eStart eEnd flags client block now, [])
        { w with
          scan := { w.scan with
            pingQ := pp :: w.scan.pingQ
            sched := (cheopsSchedAdd 1 .pingSend pp.addr block (some now) w.scan.sched).2 }
          clients := Function.update w.clients addr client }
  | refused {w : World} {addr eStart eEnd flags : Nat} {client : Client} {block : Option Nat}
      {now : Timeval} {reason : List UInt8}
      (error : handleDiscoverRequest addr eStart eEnd flags = .error reason) :
      Transition w (.request addr eStart eEnd flags client block now, []) w
  | ping {w : World} {pingRetries : Nat} {now later : Timeval} {pp : PingQ} {ans : Answers}
      {e : Sched Callback} {st : SchedState Callback} {sendto : Nat → Int} {turns : Nat}
      {o : PingSent} (idle : w.scan.current = none)
      (due : runqTake (some now) w.scan.sched = some (e, st)) (callback : e.callback = .pingSend)
      (data : pp.addr = e.data) (block : ∀ q ∈ w.scan.pingQ, q.addr = e.data → pp = q)
      (sent : pingSend32 pingRetries ans sendto turns pp st = some o) :
      Transition w (.ping pingRetries now pp ans later, pingReplies pp (w.clients pp.addr) o)
        { w with scan := w.scan.pinged e o later }
  | packet {w : World} {buf : Mem} {len : Int} {src : Nat} {clock : Nat → Int} :
      Transition w (.packet buf len src clock, (handlePingRecieve buf len src clock w).reply.toList)
        { w with map := (handlePingRecieve buf len src clock w).map }
  | close {w : World} {a : Nat} : Transition w (.close a, []) w
  | rest {w : World} {label : Label} {scan : Scan} (others : label.ofOthers = true)
      (step : Step 0 w.scan label scan) :
      Transition w (.rest label, []) { w with scan }

/-! ## What a run of `ping_send` replies -/

/-- What `pp'` has processed more than `pp` lies in the range, and is the same request. -/
structure PingQ.Within (pp pp' : PingQ) : Prop where
  same : pp.Continues pp'
  log : ∃ new, pp'.log = pp.log ++ new ∧ ∀ x ∈ new, pp.first ≤ x.address ∧ x.address ≤ pp.last

theorem PingQ.Within.refl (pp : PingQ) : pp.Within pp := by
  refine ⟨.refl pp, [], (List.append_nil _).symm, ?_⟩
  intro x member
  cases member

theorem PingQ.Within.trans {pp pp' pp'' : PingQ} (h : pp.Within pp') (h' : pp'.Within pp'') :
    pp.Within pp'' := by
  obtain ⟨same, new, log, within⟩ := h
  obtain ⟨same', new', log', within'⟩ := h'
  refine ⟨same.trans same', new ++ new', by rw [log', log, List.append_assoc], ?_⟩
  intro x member
  rcases List.mem_append.mp member with member | member
  · exact within x member
  · have inside := within' x member
    rwa [PingQ.first, PingQ.last, same.start, same.end_] at inside

theorem advance_within (cached : Nat → Bool) (pp : PingQ) : pp.Within (pp.advance cached) := by
  refine ⟨(advance_continues cached pp).1,
    [⟨pp.retry, pp.current, cached (ntohl pp.current), pp.treatment cached⟩], ?_, ?_⟩
  · unfold PingQ.advance
    dsimp only
    split <;> rfl
  · intro x member
    rw [List.mem_singleton.mp member]
    exact ⟨first_le pp, le_last pp⟩

theorem advance32_within (cached : Nat → Bool) (pp : PingQ) : pp.Within (pp.advance32 cached) := by
  obtain ⟨same, log⟩ := advance_within cached pp
  exact ⟨⟨same.addr, same.start, same.end_, same.flags, same.time, same.runs, same.log⟩, log⟩

theorem pingLoop32_within {pingRetries : Nat} {cached : Nat → Bool} {sendto : Nat → Int}
    {turns n negativeRetry : Nat} {pp : PingQ} {left : Bool × PingQ}
    (ended : pingLoop32 pingRetries cached sendto turns n negativeRetry pp = some left) :
    pp.Within left.2 := by
  induction turns generalizing n negativeRetry pp with
  | zero => cases ended
  | succ turns ih =>
    rw [pingLoop32] at ended
    split_ifs at ended with expired sends failed
    · cases ended
      exact .refl pp
    · exact ih ended
    · cases ended
      exact advance32_within cached pp
    · exact (advance32_within cached pp).trans (ih ended)

section Sent

variable {pingRetries turns : Nat} {ans : Answers} {sendto : Nat → Int} {pp : PingQ}
  {st : SchedState Callback} {o : PingSent}

/-- `ping_send` leaves its request as it was, but for how far it is. -/
theorem pingSend32_within (sent : pingSend32 pingRetries ans sendto turns pp st = some o) :
    (o.pp.addr = pp.addr ∧ o.pp.start = pp.start ∧ o.pp.end_ = pp.end_) ∧
      ∃ new, o.pp.log = pp.log ++ new ∧
        ∀ x ∈ new, pp.first ≤ x.address ∧ x.address ≤ pp.last := by
  obtain ⟨⟨removed, pp'⟩, ended, rfl⟩ := Option.map_eq_some_iff.mp sent
  obtain ⟨same, log⟩ := pingLoop32_within ended
  unfold pingReschedule
  dsimp only
  split_ifs
  all_goals exact ⟨⟨same.addr, same.start, same.end_⟩, log⟩

/-- It asks for one event at most, and for none once it has removed the request. -/
theorem pingSend32_calls_le (sent : pingSend32 pingRetries ans sendto turns pp st = some o)
    {e : Sched Callback} (later : Timeval) (call : e.call = (.pingSend, pp.addr)) :
    let sched := runqReturned e o.ret (some later) o.sched
    calls sched = calls st ∨
      (o.removed = false ∧ (calls sched).Perm ((.pingSend, pp.addr) :: calls st)) := by
  have added (when : Nat) (addr : Nat) (same : addr = pp.addr) :
      calls (cheopsSchedAdd when .pingSend addr ans.block (some ans.addNow) st).2 = calls st ∨
        (calls (cheopsSchedAdd when .pingSend addr ans.block (some ans.addNow) st).2).Perm
          ((.pingSend, pp.addr) :: calls st) := by
    rw [same]
    exact (cheopsSchedAdd_calls _ _ _ _ _ _).symm
  obtain ⟨⟨removed, pp'⟩, ended, rfl⟩ := Option.map_eq_some_iff.mp sent
  have addr : pp'.addr = pp.addr := (pingLoop32_within ended).same.addr
  unfold pingReschedule
  dsimp only
  split_ifs with gone
  · exact .inl (runqReturned_calls_false _ _ _)
  · rw [runqReturned_calls_false]
    exact (added _ _ addr).imp_right fun perm => ⟨by simpa using gone, perm⟩
  · rw [runqReturned_calls_false]
    exact (added _ _ addr).imp_right fun perm => ⟨by simpa using gone, perm⟩
  · refine .inr ⟨by simpa using gone, ?_⟩
    rw [← call]
    exact runqReturned_calls_true _ _ _

end Sent

/-! ## Which requests have an event -/

/-- What holds between two steps, also when an event could not be added: no request has more than
    one event, and what has an event is a request on `pingQ`. -/
structure World.Inv (w : World) : Prop where
  addrs : (w.scan.pingQ.map PingQ.addr).Nodup
  pending : (pings w.scan.sched).Subperm (w.scan.pingQ.map PingQ.addr)
  current : ∀ e, w.scan.current = some e → e.callback = .other

theorem initial_world_inv : World.initial.Inv where
  addrs := List.nodup_nil
  pending := List.Subperm.refl _
  current := by
    intro e running
    cases running

theorem World.Inv.ping {w : World} (inv : w.Inv) {pingRetries turns : Nat} {now later : Timeval}
    {pp : PingQ} {ans : Answers} {sendto : Nat → Int} {e : Sched Callback}
    {st : SchedState Callback} {o : PingSent}
    (due : runqTake (some now) w.scan.sched = some (e, st)) (callback : e.callback = .pingSend)
    (data : pp.addr = e.data) (queued : pp ∈ w.scan.pingQ)
    (sent : pingSend32 pingRetries ans sendto turns pp st = some o) :
    World.Inv { w with scan := w.scan.pinged e o later } := by
  have call : e.call = (.pingSend, pp.addr) := by rw [Sched.call, callback, data]
  have taken : pings w.scan.sched = pp.addr :: pings st := by
    rw [pings, runqTake_calls due, call]
    rfl
  obtain ⟨⟨addr, -⟩, -⟩ := pingSend32_within sent
  have called := pingSend32_calls_le sent later call
  obtain ⟨pre, post, split, update, remove⟩ := pingQ_split queued inv.addrs addr
  have middle : ((pre ++ pp :: post).map PingQ.addr).Perm
      (pp.addr :: (pre ++ post).map PingQ.addr) := List.perm_middle.map PingQ.addr
  have addrs := inv.addrs
  have pending := inv.pending
  rw [taken] at pending
  rw [split] at addrs pending
  have others : (pings st).Subperm ((pre ++ post).map PingQ.addr) :=
    (List.subperm_cons pp.addr).mp (pending.trans middle.subperm)
  have kept : ((pre ++ o.pp :: post).map PingQ.addr).Perm
      (pp.addr :: (pre ++ post).map PingQ.addr) := by
    rw [← addr]
    exact List.perm_middle.map PingQ.addr
  cases gone : o.removed with
  | true =>
    rcases called with same | ⟨stays, -⟩
    · refine ⟨?_, ?_, inv.current⟩
      · simp only [Scan.pinged, gone, ite_true, remove]
        exact (List.nodup_cons.mp (middle.nodup_iff.mp addrs)).2
      · simp only [Scan.pinged, gone, ite_true, remove]
        rw [pings, same]
        exact others
    · rw [gone] at stays
      cases stays
  | false =>
    refine ⟨?_, ?_, inv.current⟩
    · simp only [Scan.pinged, gone, Bool.false_eq_true, ite_false, update]
      exact kept.nodup_iff.mpr (middle.nodup_iff.mp addrs)
    · simp only [Scan.pinged, gone, Bool.false_eq_true, ite_false, update]
      apply List.Subperm.trans _ kept.symm.subperm
      rcases called with same | ⟨-, added⟩
      · rw [pings, same]
        exact others.trans (List.sublist_cons_self _ _).subperm
      · exact (pings_cons added).subperm.trans ((List.subperm_cons pp.addr).mpr others)

/-- The rest of the agent has events of its own. -/
theorem rest_pings {s s' : Scan} {label : Label} (others : label.ofOthers = true)
    (current : ∀ e, s.current = some e → e.callback = .other) (step : Step 0 s label s') :
    s'.pingQ = s.pingQ ∧ (pings s'.sched).Perm (pings s.sched) ∧
      ∀ e, s'.current = some e → e.callback = .other := by
  cases step with
  | request | refused | ping => cases others
  | add => exact ⟨rfl, pings_other (cheopsSchedAdd_calls _ _ _ _ _ _), current⟩
  | @del id own =>
    refine ⟨rfl, ?_, current⟩
    rcases cheopsSchedDel_calls id s.sched with ⟨e, listed, same, left⟩ | same
    · rw [Sched.call, own e listed same] at left
      exact (pings_other (.inl left)).symm
    · rw [pings, same]
      exact .refl _
  | @take e st now idle due callback =>
    refine ⟨rfl, ?_, ?_⟩
    · have taken := runqTake_calls due
      rw [Sched.call, callback] at taken
      exact (pings_other (.inl (.of_eq taken))).symm
    · intro e' running
      cases running
      exact callback
  | @returned e nonzero later running =>
    refine ⟨rfl, ?_, ?_⟩
    · have back := runqReturned_calls e nonzero later s.sched
      rw [Sched.call, current e running] at back
      exact pings_other back
    · intro e' running
      cases running

theorem World.Inv.queued {w : World} (inv : w.Inv) {addr : Nat}
    (pending : addr ∈ pings w.scan.sched) : ∃ pp ∈ w.scan.pingQ, pp.addr = addr :=
  List.mem_map.mp (inv.pending.subset pending)

theorem mem_pings {st st' : SchedState Callback} {e : Sched Callback} {now : Timeval}
    (due : runqTake (some now) st = some (e, st')) (callback : e.callback = .pingSend) :
    e.data ∈ pings st := by
  rw [pings, runqTake_calls due, Sched.call, callback]
  exact .head _

/-- The block that a `ping_send` event points to is the one of a request on `pingQ`. -/
theorem World.Inv.block {w : World} (inv : w.Inv) {now : Timeval} {pp : PingQ}
    {e : Sched Callback} {st : SchedState Callback}
    (due : runqTake (some now) w.scan.sched = some (e, st)) (callback : e.callback = .pingSend)
    (block : ∀ q ∈ w.scan.pingQ, q.addr = e.data → pp = q) : pp ∈ w.scan.pingQ := by
  obtain ⟨q, queued, same⟩ := inv.queued (mem_pings due callback)
  rw [block q queued same]
  exact queued

theorem Transition.inv {w w' : World} {label : Event × List DiscoverIpv4R} (inv : w.Inv)
    (step : Transition w label w') : w'.Inv := by
  cases step with
  | @request addr eStart eEnd flags client block now pp fresh accepted =>
    obtain ⟨rfl, -⟩ := accepted_inv 0 accepted
    refine ⟨List.nodup_cons.mpr ⟨fresh, inv.addrs⟩, ?_, inv.current⟩
    rcases cheopsSchedAdd_calls 1 Callback.pingSend pp.addr block (some now) w.scan.sched with
      added | same
    · exact (pings_cons added).subperm.trans ((List.subperm_cons pp.addr).mpr inv.pending)
    · change (pings _).Subperm (pp.addr :: _)
      rw [pings, same]
      exact inv.pending.trans (List.sublist_cons_self _ _).subperm
  | refused => exact inv
  | ping idle due callback data block sent =>
    exact inv.ping due callback data (inv.block due callback block) sent
  | packet => exact ⟨inv.addrs, inv.pending, inv.current⟩
  | close => exact inv
  | @rest label scan others step =>
    obtain ⟨pingQ, pending, current⟩ := rest_pings others inv.current step
    refine ⟨?_, ?_, current⟩
    · change (scan.pingQ.map PingQ.addr).Nodup
      rw [pingQ]
      exact inv.addrs
    · change (pings scan.sched).Subperm (scan.pingQ.map PingQ.addr)
      rw [pingQ]
      exact pending.subperm.trans inv.pending

/-! ## What is replied -/

/-- The reply is for the request: it goes to its agent with its `np` and flags, and the address
    in it is one of the range. -/
structure DiscoverIpv4R.Answers (r : DiscoverIpv4R) (pp : PingQ) (client : Client) : Prop where
  agent : r.a = client.a
  np : r.np = client.np
  flags : r.flags = pp.flags
  first_le : ntohl pp.start ≤ r.ipaddr
  le_last : r.ipaddr ≤ ntohl pp.end_

theorem ntohl_lt (x : Nat) : ntohl x < 2 ^ 32 := by
  have bound := ByteOrder.little.num_lt (toBe 4 x)
  rw [length_toBe] at bound
  rw [Fields.ntohl_eq, ByteOrder.ntoh_eq_hton]
  calc ByteOrder.little.num (toBe 4 x) < 256 ^ 4 := bound
    _ = 2 ^ 32 := by norm_num

theorem ntohl_ntohl {x : Nat} (word : x < 2 ^ 32) : ntohl (ntohl x) = x := by
  rw [Fields.ntohl_eq, Fields.ntohl_eq, ByteOrder.ntoh_ntoh]
  exact Nat.mod_eq_of_lt word

theorem pingReplies_answers {pingRetries turns : Nat} {ans : Answers} {sendto : Nat → Int}
    {pp : PingQ} {st : SchedState Callback} {o : PingSent} {client : Client}
    (sent : pingSend32 pingRetries ans sendto turns pp st = some o) :
    ∀ r ∈ pingReplies pp client o, r.Answers pp client := by
  obtain ⟨-, new, log, within⟩ := pingSend32_within sent
  unfold pingReplies
  rw [log, List.drop_left]
  intro r member
  obtain ⟨x, replied, rfl⟩ := List.mem_map.mp member
  obtain ⟨first, last⟩ := within x (List.mem_filter.mp replied).1
  have word : x.address < 2 ^ 32 := Nat.lt_of_le_of_lt last (ntohl_lt _)
  have address : ntohl (ntohl x.address) = x.address := ntohl_ntohl word
  refine ⟨rfl, rfl, rfl, ?_, ?_⟩
  · unfold sendDiscoverReply
    rw [address]
    exact first
  · unfold sendDiscoverReply
    rw [address]
    exact last

/-- Whatever a packet says, the reply is for a request on `pingQ` that asked for the address. -/
theorem handlePingRecieve_answers {buf : Mem} {len : Int} {src : Nat} {clock : Nat → Int}
    {w : World} : ∀ r ∈ (handlePingRecieve buf len src clock w).reply,
      ∃ pp ∈ w.scan.pingQ, r.Answers pp (w.clients pp.addr) := by
  intro r member
  unfold handlePingRecieve at member
  dsimp only at member
  split at member
  · cases member
  split at member
  · cases member
  split at member
  · cases member
  split at member
  · cases member
  split at member
  next => cases member
  next q found =>
    cases member
    obtain ⟨listed, inside⟩ := Option.filter_eq_some_iff.mp found
    have addr : q.addr = ByteOrder.little.get 8 buf (ipHlen buf 0 + 8) := by
      simpa using List.find?_some listed
    obtain ⟨last, first⟩ := of_decide_eq_true inside
    refine ⟨q, List.mem_of_find?_eq_some listed, ?_, ?_, rfl, first, last⟩
    · rw [addr]
      rfl
    · rw [addr]
      rfl

/-- What holds of discover requests between two steps, and of the replies of the next step. -/
structure World.Discovers (w : World) : Prop where
  range : ∀ pp ∈ w.scan.pingQ, ntohl pp.start ≤ pp.current ∧ pp.current ≤ ntohl pp.end_
  owned : ∀ addr, (.pingSend, addr) ∈ calls w.scan.sched → ∃ pp ∈ w.scan.pingQ, pp.addr = addr
  replies : ∀ event replies w', Transition w (event, replies) w' → ∀ r ∈ replies,
    ∃ pp ∈ w.scan.pingQ, r.Answers pp (w.clients pp.addr)

/-- In every run, with any packets, any cache and any interleaving. -/
theorem discover_replies {history : List (Event × List DiscoverIpv4R)} {w : World}
    (run : Run Transition World.initial history w) : w.Discovers := by
  have inv : w.Inv := run.state_invariant initial_world_inv fun _ _ _ inv step => step.inv inv
  constructor
  case range => exact fun pp _ => ⟨pp.start_le, pp.le_end⟩
  case owned =>
    intro addr pending
    apply inv.queued
    exact List.mem_filterMap.mpr ⟨_, pending, rfl⟩
  case replies =>
    intro event replies w' step r member
    cases step with
    | request | refused | close | rest => cases member
    | ping idle due callback data block sent =>
      exact ⟨_, inv.block due callback block, pingReplies_answers sent r member⟩
    | packet => exact handlePingRecieve_answers r (Option.mem_toList.mp member)

/-- An echo reply with the pointer 64 in it. -/
def echoReply : Mem :=
  store (fun _ => 0) 0 (0x45 :: List.replicate 27 0 ++ [64, 0, 0, 0, 0, 0, 0, 0])

theorem first_le_first : ntohl 0x0100000a ≤ 0x0a000001 := by decide

theorem first_le_third : 0x0a000001 ≤ ntohl 0x0300000a := by decide

def threeAddresses : PingQ where
  addr := 64
  start := 0x0100000a
  end_ := 0x0300000a
  current := 0x0a000001
  retry := 0
  flags := 0
  time := 0
  log := []
  runs := 0
  start_le := first_le_first
  le_end := first_le_third

def firstCached : Answers := ⟨fun ip => ip = 0x0100000a, ⟨5, 1000⟩, some 2, ⟨5, 1000⟩⟩

/-- The timer queue when the event of the request has been taken out of it. -/
def eventTaken : SchedState Callback :=
  { (cheopsSchedAdd 1 Callback.pingSend 64 (some 1) (some ⟨5, 0⟩) Scheduler.initial).2 with
    schedq := [], schedcnt := 0 }

theorem firstCached_ends :
    (pingSend32 1 firstCached (fun _ => 16) 2 threeAddresses eventTaken).isSome = true := by
  decide +kernel

/-- The client at 7 has made the request.  The first address is in the cache, and the second
    answers. -/
theorem discover_replies_three :
    ∃ history, ∃ w : World, Run Transition World.initial history w ∧
      history.flatMap (fun l => l.2.map fun r => (r.a, r.np, r.ipaddr)) =
        [(7, 9, 0x0a000001), (7, 9, 0x0a000002)] ∧
      w.scan.pingQ.map (fun pp => (pp.addr, pp.current)) = [(64, 0x0a000003)] ∧ w.Discovers := by
  have requested : Run Transition World.initial
      [(.request 64 0x0a000001 0x0a000003 0 ⟨7, 9⟩ (some 1) ⟨5, 0⟩, [])] _ :=
    .single (.request (by decide) rfl)
  have pinged := requested.snoc (@Transition.ping _ 1 ⟨5, 1000⟩ ⟨5, 1000⟩ threeAddresses
    firstCached _ eventTaken (fun _ => 16) 2 _ rfl rfl rfl rfl
    (fun q member _ => (List.mem_singleton.mp member).symm)
    (Option.some_get firstCached_ends).symm)
  have answered := pinged.snoc (@Transition.packet _ echoReply 36 0x0200000a fun _ => 0)
  refine ⟨_, _, answered, ?_, ?_, discover_replies answered⟩
  · decide +kernel
  · decide +kernel

end Cheops.Discover
