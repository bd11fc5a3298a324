import Cheops.Event.Send
import Cheops.OsScan.Mailbox

/-! # Replies to requests (`event.c`)

A request keeps a pointer to the agent that it came from, and may outlive it.  `event_send` looks
for the pointer on the list of agents (`chk_agent`): an agent that has been freed is not there,
unless `malloc` has given its block to another agent.

A pointer is kept here as the number of the connection whose agent it was taken from; the ghost
`addr` gives the address that it holds.
-/

namespace Cheops.Agents

open Cheops.Lib Cheops.Event

/-! ## The list of agents -/

/-- An agent on the list `agents`.  `number` is a ghost: the connection that it was made for. -/
structure Connection extends Peer where
  s : Nat
  number : Nat
deriving DecidableEq, Repr

def chkAgent (agents : List Connection) (a : Nat) : Option Connection :=
  agents.find? (·.addr = a)

/-- Who keeps the pointer: a `ping_q`, a `map_request` or a `probe_user_data`. -/
inductive Kind where
  | discover
  | map
  | probe
deriving DecidableEq, Repr

structure Pending where
  kind : Kind
  agent : Nat
deriving DecidableEq, Repr

/-- A ghost, for a call of `event_send`: the connection of the request that it answers, whether
    that is still open, the connection whose socket is written to, and what is put there. -/
structure Sent where
  request : Nat
  connected : Bool
  socket : Option Nat
  bytes : List UInt8

/-- `sockets` are the connections at the descriptors that are open. -/
structure State where
  agents : List Connection
  sockets : Nat → Option Nat
  addr : Nat → Nat
  accepted : Nat
  pending : List Pending
  osscan : OsScan.State
  sent : List Sent

/-- `event_send` for a pointer to the agent of `agent`, with the answer to a request of
    `request`. -/
def State.send (st : State) (request agent : Nat) (h : Mem) (written : Int) : State :=
  let a := st.addr agent
  { st with
    sent := st.sent ++
      [{ request
         connected := request ∈ st.agents.map (·.number)
         socket := (chkAgent st.agents a).bind fun c => st.sockets c.s
         bytes := (eventSend (st.agents.map (·.toPeer)) a h written).2 }] }

/-- `event_destroy_agent`, for an agent on the list. -/
def State.destroy (st : State) (c : Connection) : State :=
  { st with
    agents := st.agents.eraseP (·.addr = c.addr)
    sockets := Function.update st.sockets c.s none }

/-- `new_agent` in a block from `malloc`, for a connection that was accepted. -/
def State.accept (st : State) (block type fd : Nat) : State :=
  { st with
    agents := ⟨⟨block, type⟩, fd, st.accepted⟩ :: st.agents
    sockets := Function.update st.sockets fd (some st.accepted)
    addr := Function.update st.addr st.accepted block
    accepted := st.accepted + 1 }

/-! ## Runs -/

inductive Label where
  | accept (block : Nat)
  | close
  | request
  | reply
  | finish
  | osscan (action : OsScan.Action)
deriving DecidableEq, Repr

variable (L : OsScan.Libc)

/-- `malloc` gives a block that is not allocated, and the kernel a descriptor that is not open. -/
inductive Step : State → Label → State → Prop
  | accept {st : State} {block : Nat} (type fd : Nat) (free : ∀ c ∈ st.agents, c.addr ≠ block)
      (closed : st.sockets fd = none) :
      Step st (.accept block) (st.accept block type fd)
  | close {st : State} {c : Connection} (listed : c ∈ st.agents) : Step st .close (st.destroy c)
  | request {st : State} {c : Connection} (kind : Kind) (listed : c ∈ st.agents) :
      Step st .request { st with pending := st.pending ++ [⟨kind, c.number⟩] }
  | reply {st : State} {p : Pending} (h : Mem) (written : Int) (pending : p ∈ st.pending) :
      Step st .reply (st.send p.agent p.agent h written)
  | finish {st : State} {p : Pending} (pending : p ∈ st.pending) :
      Step st .finish { st with pending := st.pending.erase p }
  | osRequest {st : State} {c : Connection} {q : OsScan.OsDetectQueue} {osscan : OsScan.State}
      (listed : c ∈ st.agents) (step : OsScan.Step L st.osscan .request osscan)
      (queued : osscan.osDetectQ = st.osscan.osDetectQ ++ [q]) (agent : q.agent = c.number) :
      Step st (.osscan .request) { st with osscan }
  | osscan {st : State} {action : OsScan.Action} {osscan : OsScan.State}
      (step : OsScan.Step L st.osscan action osscan) (inner : action ≠ .request ∧ action ≠ .send) :
      Step st (.osscan action) { st with osscan }
  /-- The event is the one that was encoded last. -/
  | osSend {st : State} {r : OsScan.Reply} {osscan : OsScan.State} {written : Int}
      (step : OsScan.Step L st.osscan .send osscan) (last : st.osscan.encoded.getLast? = some r) :
      Step st (.osscan .send)
        { st.send r.agent st.osscan.agentToSend st.osscan.ebufOs written with osscan }

/-- Connections are numbered from 1, so that no pointer to an agent is `NULL`. -/
def initial (ebuf : Mem) : State where
  agents := []
  sockets _ := none
  addr _ := 0
  accepted := 1
  pending := []
  osscan := OsScan.initial ebuf
  sent := []

/-- What is sent for a request goes to its own socket, or nowhere if that is closed. -/
structure Sent.Own (x : Sent) : Prop where
  socket : x.socket = if x.connected then some x.request else none
  dropped : x.connected = false → x.bytes = []

/-! ## Pointers that are kept -/

def request : OsScan.Worker → Option OsScan.OsDetectQueue
  | .asleep | .awake => none
  | .scanning q | .scanned q _ | .encoded q | .eventStored q | .agentStored q => some q

inductive Scanning (s : OsScan.State) (n : Nat) : Prop
  | queued {q : OsScan.OsDetectQueue} (member : q ∈ s.osDetectQ) (agent : q.agent = n)
  | dequeued {q : OsScan.OsDetectQueue} (worker : request s.worker = some q) (agent : q.agent = n)
  | mailed (full : s.osReadLocked = false ∨ s.main = .sending) (agent : s.agentToSend = n)

def State.Holds (st : State) (n : Nat) : Prop :=
  (∃ p ∈ st.pending, p.agent = n) ∨ Scanning st.osscan n

/-- No agent is put where a request points to, and no scan is encoded while the mailbox is full. -/
def Careful (st : State) (label : Label) : Prop :=
  (∀ block, label = .accept block → ∀ n, st.Holds n → st.addr n ≠ block) ∧
    (label = .osscan .encode → st.osscan.Free)

section scanning

variable {L} {s s' : OsScan.State} {action : OsScan.Action} {n : Nat}

theorem request_of_filling {w : OsScan.Worker} {q : OsScan.OsDetectQueue}
    (filling : w.filling = some q) : request w = some q := by
  cases w with
  | encoded | eventStored | agentStored => exact filling
  | _ => cases filling

/-- What a step does to the pointers: none is kept that was not kept before. -/
theorem Scanning.mono (scanning : Scanning s' n) (queue : ∀ q ∈ s'.osDetectQ, q ∈ s.osDetectQ)
    (worker : ∀ q, request s'.worker = some q → request s.worker = some q ∨ q ∈ s.osDetectQ)
    (mail : s'.osReadLocked = false ∨ s'.main = .sending →
      (s.osReadLocked = false ∨ s.main = .sending) ∧ s'.agentToSend = s.agentToSend ∨
        ∃ q, request s.worker = some q ∧ s'.agentToSend = q.agent) : Scanning s n := by
  cases scanning with
  | queued member agent => exact .queued (queue _ member) agent
  | dequeued taken agent =>
    rcases worker _ taken with taken | queued
    · exact .dequeued taken agent
    · exact .queued queued agent
  | mailed full agent =>
    rcases mail full with ⟨full, same⟩ | ⟨q, taken, same⟩
    · exact .mailed full (same.symm.trans agent)
    · exact .dequeued taken (same.symm.trans agent)

/-- A step keeps no pointer that was not kept before, unless it is a request. -/
theorem Scanning.step (mailbox : OsScan.Mailbox s) (step : OsScan.Step L s action s')
    (scanning : Scanning s' n) : Scanning s n ∨ action = .request ∧
      ∀ q, s'.osDetectQ = s.osDetectQ ++ [q] → q.agent = n := by
  cases step with
  | @request e ports agent q₀ outside string accepted =>
    cases scanning with
    | @queued q member agent =>
      rcases List.mem_append.mp member with member | new
      · exact .inl (.queued member agent)
      · cases List.mem_singleton.mp new
        refine .inr ⟨rfl, fun q' same => ?_⟩
        cases List.append_cancel_left same
        exact agent
    | dequeued worker agent => exact .inl (.dequeued worker agent)
    | mailed full agent => exact .inl (.mailed (full.imp_right fun h => by cases h) agent)
  | post posting =>
    exact .inl (scanning.mono (fun _ => id) (fun _ => .inl) fun full =>
      .inl ⟨full.imp_right fun h => by (cases h), rfl⟩)
  | busy outside locked => exact .inl scanning
  | trylock outside unlocked =>
    exact .inl (scanning.mono (fun _ => id) (fun _ => .inl) fun _ => .inl ⟨.inl unlocked, rfl⟩)
  | send sending event =>
    exact .inl (scanning.mono (fun _ => id) (fun _ => .inl) fun _ => .inl ⟨.inr sending, rfl⟩)
  | wake asleep posted | dequeueNothing awake empty | scanFailed scanning' =>
    exact .inl (scanning.mono (fun _ => id) nofun fun full => .inl ⟨full, rfl⟩)
  | dequeue awake queued =>
    refine .inl (scanning.mono ?_ ?_ fun full => .inl ⟨full, rfl⟩)
    · intro q member
      rw [queued]
      exact .tail _ member
    · intro q taken
      cases taken
      rw [queued]
      exact .inr (.head _)
  | scanned worker | encode worker written | storeEvent worker =>
    refine .inl (scanning.mono (fun _ => id) (fun q taken => .inl ?_) fun full => .inl ⟨full, rfl⟩)
    rw [worker]
    exact taken
  | storeAgent stored =>
    refine .inl (scanning.mono (fun _ => id) (fun q taken => .inl ?_) fun _ => .inr ⟨_, ?_, rfl⟩)
    · rw [stored]
      exact taken
    · rw [stored]
      rfl
  | @unlock q stored =>
    have filling : s.worker.filling = some q := by rw [stored]; rfl
    refine .inl (scanning.mono (fun _ => id) nofun fun _ => .inr ⟨q, ?_, ?_⟩)
    · exact request_of_filling filling
    · cases mailbox with
      | empty _ worker => exact absurd filling (by simp [worker])
      | full _ worker => exact absurd filling (by simp [worker])
      | filling _ _ contents _ =>
        simp only [OsScan.State.Stored, stored, OsScan.State.recipient] at contents
        exact contents.2

end scanning

/-! ## The invariant -/

structure State.Knows (st : State) (c : Connection) : Prop where
  addr : st.addr c.number = c.addr
  socket : st.sockets c.s = some c.number
  accepted : c.number < st.accepted

structure State.Inv (st : State) : Prop where
  addrs : (st.agents.map (·.addr)).Nodup
  numbers : (st.agents.map (·.number)).Nodup
  knows : ∀ c ∈ st.agents, st.Knows c
  /-- An agent that stands where a request points to is the agent of the request. -/
  holds : ∀ n, st.Holds n → n < st.accepted ∧ ∀ c ∈ st.agents, c.addr = st.addr n → c.number = n
  mailbox : OsScan.Mailbox st.osscan
  sent : ∀ x ∈ st.sent, x.Own

variable {st st' : State} {L} {c : Connection}

theorem initial_inv (ebuf : Mem) : (initial ebuf).Inv where
  addrs := .nil
  numbers := .nil
  knows := nofun
  holds n h := by
    rcases h with ⟨p, member, -⟩ | scanning
    · cases member
    · cases scanning with
      | queued member => cases member
      | dequeued worker => cases worker
      | mailed full => rcases full with full | full <;> cases full
  mailbox := OsScan.initial_mailbox ebuf
  sent := nofun

theorem chkAgent_listed (inv : st.Inv) (listed : c ∈ st.agents) :
    chkAgent st.agents c.addr = some c := by
  cases found : chkAgent st.agents c.addr with
  | none =>
    have absent := List.find?_eq_none.mp found c listed
    simp at absent
  | some d =>
    have addr : d.addr = c.addr := by simpa using List.find?_some found
    exact congrArg some (List.inj_on_of_nodup_map inv.addrs (List.mem_of_find?_eq_some found) listed
      addr)

/-- `event_send` finds the agent of the request, or none. -/
theorem send_own {n : Nat} {h : Mem} {written : Int} (inv : st.Inv) (holds : st.Holds n) :
    ∀ x ∈ (st.send n n h written).sent, x.Own := by
  intro x member
  rcases List.mem_append.mp member with member | new
  · exact inv.sent x member
  cases List.mem_singleton.mp new
  obtain ⟨-, own⟩ := inv.holds n holds
  by_cases connected : n ∈ st.agents.map (·.number)
  · obtain ⟨c, listed, rfl⟩ := List.mem_map.mp connected
    have knows := inv.knows c listed
    refine ⟨?_, fun closed => ?_⟩
    · simp only [connected, decide_true, if_true]
      rw [knows.addr, chkAgent_listed inv listed]
      exact knows.socket
    · exact absurd connected (of_decide_eq_false closed)
  · have absent : ∀ c ∈ st.agents, c.addr ≠ st.addr n := fun c listed same =>
      connected (List.mem_map.mpr ⟨c, listed, own c listed same⟩)
    have none : chkAgent st.agents (st.addr n) = none := by
      rw [chkAgent, List.find?_eq_none]
      intro c listed
      simpa using absent c listed
    refine ⟨?_, fun _ => ?_⟩
    · simp only [connected, decide_false]
      rw [none]
      rfl
    · have unlisted : (st.agents.map (·.toPeer)).find? (·.addr = st.addr n) = Option.none := by
        rw [List.find?_eq_none]
        intro peer member
        obtain ⟨c, listed, rfl⟩ := List.mem_map.mp member
        simpa using absent c listed
      simp only [eventSend, unlisted]

theorem State.Inv.send {n : Nat} {h : Mem} {written : Int} (inv : st.Inv) (holds : st.Holds n) :
    (st.send n n h written).Inv := by
  refine ⟨inv.addrs, inv.numbers, fun c listed => ?_, inv.holds, inv.mailbox, send_own inv holds⟩
  obtain ⟨addr, socket, accepted⟩ := inv.knows c listed
  exact ⟨addr, socket, accepted⟩

/-- Fewer agents, and the same requests. -/
theorem State.Inv.destroy (inv : st.Inv) (listed : c ∈ st.agents) : (st.destroy c).Inv := by
  have fewer : (st.destroy c).agents.Sublist st.agents := List.eraseP_sublist
  have other {d : Connection} (member : d ∈ (st.destroy c).agents) : d.number ≠ c.number := by
    intro same
    have eq := List.inj_on_of_nodup_map inv.numbers (fewer.subset member) listed same
    subst eq
    obtain ⟨pre, post, absent, split, rest⟩ : ∃ pre post, (∀ x ∈ pre, x.addr ≠ d.addr) ∧
        st.agents = pre ++ d :: post ∧ (st.destroy d).agents = pre ++ post := by
      obtain ⟨e, pre, post, absent, found, split, rest⟩ :=
        List.exists_of_eraseP (p := fun x => decide (x.addr = d.addr)) listed (by simp)
      have here : e ∈ st.agents := split ▸ List.mem_append_right _ (.head _)
      cases List.inj_on_of_nodup_map inv.addrs here listed (by simpa using found)
      exact ⟨pre, post, by simpa using absent, split, rest⟩
    have nodup := inv.numbers
    rw [split, List.map_append, List.map_cons] at nodup
    rw [rest] at member
    refine (List.nodup_cons.mp (List.nodup_middle.mp nodup)).1 ?_
    rw [← List.map_append]
    exact List.mem_map_of_mem member
  refine ⟨inv.addrs.sublist (fewer.map _), inv.numbers.sublist (fewer.map _), ?_, ?_, inv.mailbox,
    inv.sent⟩
  · intro d member
    have knows := inv.knows d (fewer.subset member)
    refine ⟨knows.addr, ?_, knows.accepted⟩
    simp only [State.destroy]
    rw [Function.update_of_ne, knows.socket]
    intro same
    have socket := (inv.knows c listed).socket
    rw [← same, knows.socket] at socket
    exact other member (Option.some.inj socket)
  · intro n holds
    obtain ⟨accepted, own⟩ := inv.holds n holds
    exact ⟨accepted, fun d member => own d (fewer.subset member)⟩

theorem State.Inv.accept {block type fd : Nat} (inv : st.Inv)
    (free : ∀ c ∈ st.agents, c.addr ≠ block) (closed : st.sockets fd = none)
    (careful : ∀ n, st.Holds n → st.addr n ≠ block) :
    (st.accept block type fd).Inv := by
  have old {d : Connection} (member : d ∈ st.agents) : d.number ≠ st.accepted :=
    Nat.ne_of_lt (inv.knows d member).accepted
  refine ⟨?_, ?_, ?_, ?_, inv.mailbox, inv.sent⟩
  · refine List.nodup_cons.mpr ⟨fun member => ?_, inv.addrs⟩
    obtain ⟨d, listed, same⟩ := List.mem_map.mp member
    exact free d listed same
  · refine List.nodup_cons.mpr ⟨fun member => ?_, inv.numbers⟩
    obtain ⟨d, listed, same⟩ := List.mem_map.mp member
    exact old listed same
  · intro d member
    simp only [State.accept] at member ⊢
    cases member with
    | head => exact ⟨Function.update_self _ _ _, Function.update_self _ _ _, Nat.lt_succ_self _⟩
    | tail _ member =>
      obtain ⟨addr, socket, accepted⟩ := inv.knows d member
      have other : d.s ≠ fd := by
        intro same
        rw [← same, socket] at closed
        cases closed
      exact ⟨(Function.update_of_ne (old member) _ _).trans addr,
        (Function.update_of_ne other _ _).trans socket, Nat.lt_succ_of_lt accepted⟩
  · intro n holds
    obtain ⟨accepted, own⟩ := inv.holds n holds
    refine ⟨Nat.lt_succ_of_lt accepted, fun d member => ?_⟩
    simp only [State.accept] at member ⊢
    rw [Function.update_of_ne (Nat.ne_of_lt accepted)]
    cases member with
    | head => exact fun same => absurd same.symm (careful n holds)
    | tail _ member => exact own d member

/-- The requests keep other pointers; the agents are the same. -/
theorem State.Inv.holding {pending : List Pending} {osscan : OsScan.State} (inv : st.Inv)
    (mailbox : OsScan.Mailbox osscan)
    (holds : ∀ n, State.Holds { st with pending, osscan } n →
      st.Holds n ∨ ∃ c ∈ st.agents, c.number = n) :
    State.Inv { st with pending, osscan } := by
  refine ⟨inv.addrs, inv.numbers, fun c listed => ?_, fun n held => ?_, mailbox, inv.sent⟩
  · obtain ⟨addr, socket, accepted⟩ := inv.knows c listed
    exact ⟨addr, socket, accepted⟩
  · rcases holds n held with held | ⟨c, listed, rfl⟩
    · exact inv.holds n held
    · have knows := inv.knows c listed
      refine ⟨knows.accepted, fun d member same => ?_⟩
      exact congrArg _ (List.inj_on_of_nodup_map inv.addrs member listed (same.trans knows.addr))

theorem State.Inv.step {label : Label} (inv : st.Inv) (careful : Careful st label)
    (step : Step L st label st') : st'.Inv := by
  have mail {action : OsScan.Action} {osscan : OsScan.State} (label' : label = .osscan action)
      (step : OsScan.Step L st.osscan action osscan) : OsScan.Mailbox osscan :=
    inv.mailbox.step step fun encode => careful.2 (by rw [label', encode])
  cases step with
  | accept type fd free closed => exact inv.accept free closed (careful.1 _ rfl)
  | close listed => exact inv.destroy listed
  | @request c kind listed =>
    refine inv.holding inv.mailbox fun n held => ?_
    rcases held with ⟨p, member, agent⟩ | scanning
    · rcases List.mem_append.mp member with member | new
      · exact .inl (.inl ⟨p, member, agent⟩)
      · cases List.mem_singleton.mp new
        exact .inr ⟨c, listed, agent⟩
    · exact .inl (.inr scanning)
  | reply h written pending => exact inv.send (.inl ⟨_, pending, rfl⟩)
  | finish pending =>
    refine inv.holding inv.mailbox fun n held => .inl ?_
    rcases held with ⟨p, member, agent⟩ | scanning
    · exact .inl ⟨p, List.mem_of_mem_erase member, agent⟩
    · exact .inr scanning
  | @osRequest c q osscan listed step queued agent =>
    refine inv.holding (mail rfl step) fun n held => ?_
    rcases held with held | scanning
    · exact .inl (.inl held)
    · rcases scanning.step inv.mailbox step with scanning | ⟨-, new⟩
      · exact .inl (.inr scanning)
      · exact .inr ⟨c, listed, agent.symm.trans (new q queued)⟩
  | osscan step inner =>
    refine inv.holding (mail rfl step) fun n held => .inl ?_
    rcases held with held | scanning
    · exact .inl held
    · rcases scanning.step inv.mailbox step with scanning | ⟨request, -⟩
      · exact .inr scanning
      · exact absurd request inner.1
  | @osSend r osscan written step last =>
    have mailbox := mail rfl step
    cases step with
    | send sending event =>
      cases inv.mailbox with
      | empty free => exact absurd sending free.2
      | filling free => exact absurd sending free.2
      | full _ _ _ encoded =>
        have agent : r.agent = st.osscan.agentToSend := by
          rw [encoded, List.getLast?_concat] at last
          cases last
          rfl
        rw [agent]
        refine (inv.send (.inr (.mailed (.inr sending) rfl))).holding mailbox fun n held => .inl ?_
        rcases held with held | scanning
        · exact .inl held
        · refine .inr (scanning.mono (fun _ => id) (fun _ => .inl) fun _ => ?_)
          exact .inl ⟨.inr sending, rfl⟩

/-- In every run of which all steps are careful, what is sent for a request goes to the socket of
    its connection, or nowhere if that is closed. -/
theorem replies_own {ebuf : Mem} {history : List Label}
    (run : Run (Guarded Careful (Step L)) (initial ebuf) history st) : ∀ x ∈ st.sent, x.Own :=
  (run.state_invariant (initial_inv ebuf) fun _ _ _ inv step => inv.step step.1 step.2).sent

/-- A request, another connection, and the reply. -/
theorem replies_own_two :
    ∃ st : State, st.sent.map (·.socket) = [some 1] ∧ ∀ x ∈ st.sent, x.Own := by
  have idle (n : Nat) : ¬ Scanning (OsScan.initial fun _ => 0) n := by
    intro scanning
    cases scanning with
    | queued member => cases member
    | dequeued worker => cases worker
    | mailed full => rcases full with full | full <;> cases full
  have quiet {st st' : State} {label : Label} (step : Step OsScan.bareLibc st label st')
      (other : ∀ block, label ≠ .accept block) (noScan : label ≠ .osscan .encode) :
      Guarded Careful (Step OsScan.bareLibc) st label st' :=
    ⟨⟨fun block here => absurd here (other block), fun here => absurd here noScan⟩, step⟩
  refine ⟨_, ?_, @replies_own OsScan.bareLibc _ (fun _ => 0) _ <|
    .cons (l := .accept 100) ⟨⟨?_, nofun⟩, .accept 2 5 (by decide) rfl⟩ <|
    .cons (quiet (.request .discover (.head _)) nofun nofun) <|
    .cons (l := .accept 200) ⟨⟨?_, nofun⟩, .accept 2 6 (by decide) rfl⟩ <|
    .cons (quiet (.reply (fun _ => 0) 12 (.head _)) nofun nofun) .refl⟩
  · rfl
  · rintro block same n (⟨p, member, -⟩ | scanning)
    · cases member
    · exact absurd scanning (idle n)
  · rintro block same n (⟨p, member, rfl⟩ | scanning)
    · cases same
      cases List.mem_singleton.mp member
      decide
    · exact absurd scanning (idle n)

/-- A discovery whose client closes its connection.  The next client gets the block of its agent,
    and the reply. -/
theorem reply_to_other : ∃ history st, Run (Step OsScan.bareLibc) (initial fun _ => 0) history st ∧
    ∃ x ∈ st.sent, x.request = 1 ∧ x.connected = false ∧ x.socket = some 2 ∧ x.bytes.length = 12 ∧
      ¬ x.Own := by
  refine ⟨_, _,
    .cons (l := .accept 100) (.accept 2 5 (by decide) rfl) <|
    .cons (.request .discover (.head _)) <| .cons (.close (.head _)) <|
    .cons (l := .accept 100) (.accept 2 5 (by decide) rfl) <|
    .cons (.reply (fun _ => 0) 12 (.head _)) .refl,
    _, .head _, rfl, rfl, rfl, rfl, ?_⟩
  intro own
  cases own.socket

end Cheops.Agents
