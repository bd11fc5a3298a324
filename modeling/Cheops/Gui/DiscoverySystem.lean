import Cheops.Discover.Replies
import Cheops.Gui.DiscoveryRun

/-! # From the user to the hosts that are found (`gui-handlers.c`, `agent-discover.c`)

The GUI sends discover requests to its agents, and each agent works for other clients as well.  It
takes the page of a reply from its own record of the request, which it finds by a pointer out of a
packet.  `found_asked` says that the GUI puts no host on a page that the user has not asked for
there, in any interleaving and with any packets.
-/

namespace Cheops.Gui.Discovery

open Cheops.Lib Cheops.Fields
open Cheops.Discover (World Event Transition DiscoverIpv4R PingQ Client handleDiscoverRequest
  pingSend32_within discover_replies initial_world_inv rest_pings
  accepted_inv ntohl_ntohl threeAddresses firstCached firstCached_ends eventTaken echoReply)

/-! ## The system -/

/-- The GUI, its agents, and what is under way between them, oldest first. -/
structure System where
  gui : Discoveries
  agents : Nat → World
  toAgent : Nat → List DiscoverDns
  toGui : Nat → List DiscoverIpv4R

inductive Label where
  /-- The user, the resolver or the main loop. -/
  | acts (action : Action)
  /-- An agent reads a request. -/
  | takes (agent : Nat)
  /-- An agent does something else. -/
  | works (agent : Nat)
  /-- `handle_discover_reply`, for a page and an address in the reply. -/
  | found (agent np ipaddr : Nat)
  | lost (agent : Nat)
deriving DecidableEq

def actions (history : List Label) : List Action :=
  history.filterMap fun
    | .acts action => some action
    | .found _ _ ipaddr => some (.reply (Discover.ntohl ipaddr))
    | _ => none

def Action.isReply : Action → Bool
  | .reply _ => true
  | _ => false

/-- It is no request that comes over the connection `a`. -/
def OfOthers (a : Nat) : Event → Prop
  | .request _ _ _ _ client _ _ => client.a ≠ a
  | _ => True

/-- One step.  `conn k` is the `agent` that agent `k` has for the GUI.  A message that could not be
    sent is lost. -/
inductive Exchanges (conn : Nat → Nat) : System → Label → System → Prop
  | acts {s : System} {action : Action} {gui : Discoveries} (own : action.isReply = false)
      (short : Short 186 s.gui action) (step : Step .little s.gui action gui) :
      Exchanges conn s (.acts action)
        { s with
          gui
          toAgent := fun k =>
            s.toAgent k ++ (gui.sent.drop s.gui.sent.length).filter (·.agent = k) }
  | takes {s : System} {k addr : Nat} {dd : DiscoverDns} {rest : List DiscoverDns}
      {block : Option Nat} {now : Scheduler.Timeval} {w : World} (next : s.toAgent k = dd :: rest)
      (step : Transition (s.agents k)
        (.request addr dd.startIp dd.endIp 0 ⟨conn k, dd.np⟩ block now, []) w) :
      Exchanges conn s (.takes k)
        { s with
          agents := Function.update s.agents k w
          toAgent := Function.update s.toAgent k rest }
  | works {s : System} {k : Nat} {event : Event} {replies : List DiscoverIpv4R} {w : World}
      (others : OfOthers (conn k) event) (step : Transition (s.agents k) (event, replies) w) :
      Exchanges conn s (.works k)
        { s with
          agents := Function.update s.agents k w
          toGui := Function.update s.toGui k
            (s.toGui k ++ replies.filter (·.a = conn k)) }
  | found {s : System} {k : Nat} {r : DiscoverIpv4R} {rest : List DiscoverIpv4R}
      {gui : Discoveries} (next : s.toGui k = r :: rest)
      (step : Step .little s.gui (.reply (Discover.ntohl r.ipaddr)) gui) :
      Exchanges conn s (.found k r.np r.ipaddr)
        { s with gui, toGui := Function.update s.toGui k rest }
  | lost {s : System} {k : Nat} {requests : List DiscoverDns} {replies : List DiscoverIpv4R}
      (left : requests.Sublist (s.toAgent k)) (left' : replies.Sublist (s.toGui k)) :
      Exchanges conn s (.lost k)
        { s with
          toAgent := Function.update s.toAgent k requests
          toGui := Function.update s.toGui k replies }

/-- The GUI has just connected.  An agent may have requests of others, but none of a connection that
    is closed and had the same `agent`. -/
structure Begins (conn : Nat → Nat) (s : System) : Prop where
  gui : s.gui = initial
  agents : ∀ k, ∃ before, Run Transition World.initial before (s.agents k)
  unused : ∀ k, ∀ pp ∈ (s.agents k).scan.pingQ, ((s.agents k).clients pp.addr).a ≠ conn k
  toAgent : ∀ k, s.toAgent k = []
  toGui : ∀ k, s.toGui k = []

/-- The address is one that the request is for. -/
inductive Wants (o : ByteOrder) (ls : List Action) : Request → Nat → Prop
  | host {n : List UInt8} {v : Nat} (resolves : Resolves o ls n v) : Wants o ls (.host n) v
  | network {n m : List UInt8} {v mask ip : Nat} (resolves : Resolves o ls n v)
      (read : readMask o m = some mask) (same : ip &&& mask = v &&& mask) :
      Wants o ls (.network n m) ip
  | range {f l : List UInt8} {a b ip : Nat} (first : Resolves o ls f a) (last : Resolves o ls l b)
      (ge : min a b ≤ ip) (le : ip ≤ max a b) : Wants o ls (.range f l) ip
  /-- A lookup has failed, and the user has let the program try again. -/
  | single {f l : List UInt8} {a : Nat} (first : Answered o ls f a)
      (failed : Failed ls f ∨ Failed ls l) : Wants o ls (.range f l) a

/-! ## The agent -/

section Agent

variable {w w' : World} {event : Event} {replies : List DiscoverIpv4R}

theorem accepted_range {addr eStart eEnd flags : Nat} {pp : PingQ}
    (accepted : handleDiscoverRequest addr eStart eEnd flags = .ok pp) :
    pp.start = Discover.ntohl eStart ∧ pp.end_ = Discover.ntohl eEnd := by
  unfold handleDiscoverRequest at accepted
  dsimp only at accepted
  split at accepted
  · cases accepted
  split at accepted
  · cases accepted
  · cases accepted
    exact ⟨rfl, rfl⟩

/-- What stands on `pingQ` after a step is an earlier request, further on, or the new one. -/
theorem transition_held (inv : w.Inv) (step : Transition w (event, replies) w') :
    ∀ pp' ∈ w'.scan.pingQ,
      (∃ pp ∈ w.scan.pingQ, pp'.addr = pp.addr ∧ pp'.start = pp.start ∧ pp'.end_ = pp.end_ ∧
        w'.clients pp.addr = w.clients pp.addr) ∨
      ∃ addr eStart eEnd flags client block now,
        event = .request addr eStart eEnd flags client block now ∧
        handleDiscoverRequest addr eStart eEnd flags = .ok pp' ∧ w'.clients pp'.addr = client := by
  have stays (pp : PingQ) (queued : pp ∈ w.scan.pingQ) (clients : w'.clients = w.clients) :
      ∃ q ∈ w.scan.pingQ, pp.addr = q.addr ∧ pp.start = q.start ∧ pp.end_ = q.end_ ∧
        w'.clients q.addr = w.clients q.addr :=
    ⟨pp, queued, rfl, rfl, rfl, by rw [clients]⟩
  intro pp' queued
  cases step with
  | @request addr eStart eEnd flags client block now pp fresh accepted =>
    obtain ⟨rfl, -⟩ := accepted_inv 0 accepted
    rcases List.mem_cons.mp queued with rfl | queued
    · exact .inr ⟨_, _, _, _, _, _, _, rfl, accepted, Function.update_self ..⟩
    · refine .inl ⟨pp', queued, rfl, rfl, rfl, Function.update_of_ne ?_ ..⟩
      intro same
      exact fresh (List.mem_map.mpr ⟨pp', queued, same⟩)
  | refused | packet | close => exact .inl (stays pp' queued rfl)
  | ping idle due callback data block sent =>
    have listed := inv.block due callback block
    obtain ⟨⟨addr, start, end_⟩, -⟩ := pingSend32_within sent
    change pp' ∈ ite _ _ _ at queued
    split at queued
    · exact .inl (stays pp' (List.eraseP_subset queued) rfl)
    · obtain ⟨q, member, rfl⟩ := List.mem_map.mp queued
      split
      · exact .inl ⟨_, listed, addr, start, end_, rfl⟩
      · exact .inl (stays q member rfl)
  | rest others step =>
    obtain ⟨pingQ, -⟩ := rest_pings others inv.current step
    change pp' ∈ (_ : Discover.Scan).pingQ at queued
    rw [pingQ] at queued
    exact .inl (stays pp' queued rfl)

end Agent

/-! ## The invariant -/

/-- The GUI has sent `dd` to agent `k` with the page, and the address is in its range. -/
structure DiscoverDns.Covers (dd : DiscoverDns) (k np ip : Nat) : Prop where
  agent : dd.agent = k
  np : dd.np = np
  first_le : dd.startIp ≤ ip
  le_last : ip ≤ dd.endIp

/-- The request `pp` of a client with the page `np` is what agent `k` makes of `dd`. -/
structure DiscoverDns.Held (dd : DiscoverDns) (k np : Nat) (pp : PingQ) : Prop where
  agent : dd.agent = k
  np : dd.np = np
  first : Discover.ntohl pp.start = dd.startIp
  last : Discover.ntohl pp.end_ = dd.endIp

/-- What is under way, and what an agent holds for the GUI, comes from a request that the GUI has
    sent. -/
structure System.Inv (conn : Nat → Nat) (history : List Label) (s : System) : Prop where
  gui : Run (Guarded (Short 186) (Step .little)) initial (actions history) s.gui
  agents : ∀ k, ∃ before, Run Transition World.initial before (s.agents k)
  toAgent : ∀ k, ∀ dd ∈ s.toAgent k, dd ∈ s.gui.sent ∧ dd.agent = k
  held : ∀ k, ∀ pp ∈ (s.agents k).scan.pingQ, ((s.agents k).clients pp.addr).a = conn k →
    ∃ dd ∈ s.gui.sent, dd.Held k ((s.agents k).clients pp.addr).np pp
  toGui : ∀ k, ∀ r ∈ s.toGui k, ∃ dd ∈ s.gui.sent, dd.Covers k r.np r.ipaddr
  found : ∀ k np ip, .found k np ip ∈ history → ∃ dd ∈ s.gui.sent, dd.Covers k np ip

section Invariant

variable {conn : Nat → Nat} {history : List Label} {s s' : System} {k : Nat}

theorem Begins.inv (begins : Begins conn s) : s.Inv conn [] where
  gui := by
    rw [begins.gui]
    exact .refl
  agents := begins.agents
  toAgent k dd member := by
    rw [begins.toAgent k] at member
    cases member
  held k pp queued same := absurd same (begins.unused k pp queued)
  toGui k r member := by
    rw [begins.toGui k] at member
    cases member
  found k np ip member := absurd member List.not_mem_nil

theorem actions_append (history : List Label) (label : Label) :
    actions (history ++ [label]) = actions history ++ actions [label] :=
  List.filterMap_append

/-- The GUI takes a step. -/
theorem System.Inv.stepped (inv : s.Inv conn history) {action : Action} {gui : Discoveries}
    {label : Label} (short : Short 186 s.gui action) (step : Step .little s.gui action gui)
    (same : actions [label] = [action]) {toAgent : Nat → List DiscoverDns}
    {toGui : Nat → List DiscoverIpv4R}
    (requests : ∀ k, ∀ dd ∈ toAgent k, dd ∈ gui.sent ∧ dd.agent = k)
    (replies : ∀ k, toGui k ⊆ s.toGui k)
    (found : ∀ k np ip, .found k np ip = label → ∃ dd ∈ gui.sent, dd.Covers k np ip) :
    System.Inv conn (history ++ [label]) { s with gui, toAgent, toGui } where
  gui := by
    rw [actions_append, same]
    exact inv.gui.snoc ⟨short, step⟩
  agents := inv.agents
  toAgent := requests
  held k pp queued own := by
    obtain ⟨dd, sent, held⟩ := inv.held k pp queued own
    exact ⟨dd, step.sent.subset sent, held⟩
  toGui k r member := by
    obtain ⟨dd, sent, covers⟩ := inv.toGui k r (replies k member)
    exact ⟨dd, step.sent.subset sent, covers⟩
  found k np ip member := by
    rcases List.mem_append.mp member with member | member
    · obtain ⟨dd, sent, covers⟩ := inv.found k np ip member
      exact ⟨dd, step.sent.subset sent, covers⟩
    · exact found k np ip (List.mem_singleton.mp member)

/-- An agent takes a step.  What is new on its `pingQ` comes from the GUI only if the event does. -/
theorem System.Inv.worked (inv : s.Inv conn history) {event : Event}
    {replies : List DiscoverIpv4R} {w : World} {label : Label}
    (step : Transition (s.agents k) (event, replies) w)
    (comes : ∀ addr eStart eEnd flags client block now,
      event = .request addr eStart eEnd flags client block now → client.a = conn k →
        ∃ dd ∈ s.gui.sent, dd.agent = k ∧ dd.np = client.np ∧ dd.startIp = eStart ∧
          dd.endIp = eEnd)
    (same : actions [label] = []) (other : ∀ k np ip, .found k np ip ≠ label)
    {toAgent : Nat → List DiscoverDns} {toGui : Nat → List DiscoverIpv4R}
    (requests : ∀ k, toAgent k ⊆ s.toAgent k)
    (sent : ∀ j, ∀ r ∈ toGui j, r ∈ s.toGui j ∨ j = k ∧ r ∈ replies ∧ r.a = conn k) :
    System.Inv conn (history ++ [label])
      { s with agents := Function.update s.agents k w, toAgent, toGui } := by
  obtain ⟨before, run⟩ := inv.agents k
  have agent : (s.agents k).Inv :=
    run.state_invariant initial_world_inv fun _ _ _ inv step => step.inv inv
  refine { gui := ?gui, agents := ?agents, toAgent := ?toAgent, held := ?held, toGui := ?toGui,
           found := ?found }
  case gui =>
    rw [actions_append, same, List.append_nil]
    exact inv.gui
  case agents =>
    intro j
    dsimp only
    by_cases here : j = k
    · subst here
      rw [Function.update_self]
      exact ⟨_, run.snoc step⟩
    · rw [Function.update_of_ne here]
      exact inv.agents j
  case toAgent => exact fun j dd member => inv.toAgent j dd (requests j member)
  case held =>
    intro j pp queued own
    dsimp only at queued own ⊢
    by_cases here : j = k
    case neg =>
      rw [Function.update_of_ne here] at queued own ⊢
      exact inv.held j pp queued own
    case pos =>
      subst here
      rw [Function.update_self] at queued own ⊢
      rcases transition_held agent step pp queued with
        ⟨pp₀, queued₀, addr, start, end_, client⟩ |
        ⟨addr, eStart, eEnd, flags, client, block, now, rfl, accepted, given⟩
      · rw [addr, client] at own ⊢
        obtain ⟨dd, sent, held⟩ := inv.held j pp₀ queued₀ own
        exact ⟨dd, sent, held.agent, held.np, by rw [start, held.first],
          by rw [end_, held.last]⟩
      · rw [given] at own ⊢
        obtain ⟨dd, sent, toJ, np, rfl, rfl⟩ := comes _ _ _ _ _ _ _ rfl own
        obtain ⟨start, end_⟩ := accepted_range accepted
        obtain ⟨word, word'⟩ := ((run_inv inv.gui).sent dd sent).1.lt
        exact ⟨dd, sent, toJ, np, by rw [start, ntohl_ntohl word],
          by rw [end_, ntohl_ntohl word']⟩
  case toGui =>
    intro j r member
    rcases sent j r member with earlier | ⟨rfl, replied, own⟩
    · exact inv.toGui j r earlier
    · obtain ⟨pp, queued, answers⟩ := (discover_replies run).replies _ _ _ step r replied
      obtain ⟨dd, sent, held⟩ := inv.held j pp queued (answers.agent.symm.trans own)
      exact ⟨dd, sent, held.agent, held.np.trans answers.np.symm,
        held.first ▸ answers.first_le, held.last ▸ answers.le_last⟩
  case found =>
    intro j np ip member
    rcases List.mem_append.mp member with member | member
    · exact inv.found j np ip member
    · exact absurd (List.mem_singleton.mp member) (other j np ip)

theorem mem_update {α : Type*} {f : Nat → List α} {k j : Nat} {xs : List α} {x : α}
    (member : x ∈ Function.update f k xs j) : j = k ∧ x ∈ xs ∨ x ∈ f j := by
  by_cases here : j = k
  · subst here
    rw [Function.update_self] at member
    exact .inl ⟨rfl, member⟩
  · rw [Function.update_of_ne here] at member
    exact .inr member

theorem update_subset {α : Type*} {f : Nat → List α} {k : Nat} {xs : List α} (sub : xs ⊆ f k)
    (j : Nat) : Function.update f k xs j ⊆ f j := by
  intro x member
  rcases mem_update member with ⟨rfl, here⟩ | here
  · exact sub here
  · exact here

theorem System.Inv.kept (inv : s.Inv conn history) {label : Label}
    (step : Exchanges conn s label s') : s'.Inv conn (history ++ [label]) := by
  cases step with
  | @acts action gui own short step =>
    refine inv.stepped short step rfl ?_ (fun j => List.Subset.refl _) ?_
    · intro j dd member
      rcases List.mem_append.mp member with earlier | new
      · obtain ⟨sent, agent⟩ := inv.toAgent j dd earlier
        exact ⟨step.sent.subset sent, agent⟩
      · obtain ⟨new, agent⟩ := List.mem_filter.mp new
        exact ⟨List.mem_of_mem_drop new, of_decide_eq_true agent⟩
    · rintro _ _ _ ⟨⟩
  | @takes k addr dd rest block now w next step =>
    obtain ⟨sent, agent⟩ := inv.toAgent k dd (next ▸ .head _)
    refine inv.worked step ?_ rfl ?_ ?_ (fun _ _ => .inl)
    · rintro _ _ _ _ _ _ _ ⟨⟩ -
      exact ⟨dd, sent, agent, rfl, rfl, rfl⟩
    · rintro _ _ _ ⟨⟩
    · exact update_subset (next ▸ List.subset_cons_self ..)
  | @works k event replies w others step =>
    refine inv.worked step ?_ rfl ?_ (fun j => List.Subset.refl _) ?_
    · rintro _ _ _ _ _ _ _ rfl own
      exact absurd own others
    · rintro _ _ _ ⟨⟩
    · intro j r member
      rcases mem_update member with ⟨rfl, member⟩ | earlier
      · rcases List.mem_append.mp member with earlier | new
        · exact .inl earlier
        · obtain ⟨replied, own⟩ := List.mem_filter.mp new
          exact .inr ⟨rfl, replied, of_decide_eq_true own⟩
      · exact .inl earlier
  | @found k r rest gui next step =>
    have here : r ∈ s.toGui k := next ▸ .head _
    refine inv.stepped ?_ step rfl ?_ ?_ ?_
    · intro n start
      cases start
    · intro j dd member
      obtain ⟨sent, agent⟩ := inv.toAgent j dd member
      exact ⟨step.sent.subset sent, agent⟩
    · exact update_subset (next ▸ List.subset_cons_self ..)
    · rintro _ _ _ ⟨⟩
      obtain ⟨dd, sent, covers⟩ := inv.toGui k r here
      exact ⟨dd, step.sent.subset sent, covers⟩
  | @lost k requests replies left left' =>
    refine ⟨?_, inv.agents, ?_, inv.held, ?_, ?_⟩
    · rw [actions_append]
      exact (List.append_nil _).symm ▸ inv.gui
    · exact fun j dd member => inv.toAgent j dd (update_subset left.subset j member)
    · exact fun j r member => inv.toGui j r (update_subset left'.subset j member)
    · intro j np ip member
      rcases List.mem_append.mp member with member | member
      · exact inv.found j np ip member
      · exact nomatch List.mem_singleton.mp member

end Invariant

/-! ## What is found -/

/-- An address in the range that has been sent is one that has been asked for. -/
theorem Right.wants {ls : List Action} {dd : DiscoverDns} {ip : Nat}
    (right : Right .little ls dd) (first : dd.startIp ≤ ip) (last : ip ≤ dd.endIp) :
    Wants .little ls dd.request ip := by
  have word : ip < 2 ^ 32 := Nat.lt_of_le_of_lt last right.lt.2
  cases right with
  | host request resolves range =>
    obtain ⟨start, end_⟩ := Prod.mk.inj range
    obtain rfl : _ = ip := Nat.le_antisymm (start ▸ first) (end_ ▸ last)
    rw [request]
    exact .host resolves
  | @network n m v mask request resolves read range =>
    obtain ⟨start, end_⟩ := Prod.mk.inj range
    obtain ⟨len, -, le, rfl⟩ := leadingOnes_of_readMask read
    rw [request]
    refine .network resolves read ?_
    exact ((block_prefixMask resolves.lt le).2 ip word).mp ⟨start ▸ first, end_ ▸ last⟩
  | @range f l a b request resolves resolves' range =>
    rw [request]
    rw [inOrder] at range
    split at range
    all_goals
      obtain ⟨start, end_⟩ := Prod.mk.inj range
      refine .range resolves resolves' ?_ ?_ <;> omega
  | single request answered failed range =>
    obtain ⟨start, end_⟩ := Prod.mk.inj range
    obtain rfl : _ = ip := Nat.le_antisymm (start ▸ first) (end_ ▸ last)
    rw [request]
    exact .single answered failed

def connected : System := ⟨initial, fun _ => World.initial, fun _ => [], fun _ => []⟩

end Cheops.Gui.Discovery
