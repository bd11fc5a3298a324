import Cheops.Event.Stream
import Cheops.Io.Wait
import Cheops.Lib.Run

/-! # Agents and the poll table (`event.c`)

An accepted connection has an agent on the list `agents`, and an entry in the poll table whose
callback is `handle_agent`.  Most of the exits of `handle_agent` that return 0 destroy the agent,
and leave its entry to the loop that called them.  The exit for an event that is too large
only returns 0.
-/

namespace Cheops.Agents

open Cheops.Lib Cheops.Event Cheops.Io

/-! ## The program -/

/-- The callbacks in the table; `handleConnect` is `handle_unix_connect` or
    `handle_ipv4_connect`, and `other` is a probe or a raw socket. -/
inductive Callback where
  | handleConnect
  | handleAgent
  | other
deriving DecidableEq, Repr

/-- An agent on the list: its address, its `id` and what it has received.  `listens` is a ghost:
    it is not a connection, but accepts them. -/
structure Client where
  addr : Nat
  id : Option Nat
  listens : Bool
  agent : Event.Agent

structure Added where
  fd : Int
  events : Nat
  data : Nat
  cell : Option Nat

/-- What a callback is given: by `accept`, by `malloc` for an agent and for the cell of its entry,
    by `read`; the entries that the handlers add; and what another callback returns. -/
structure Input where
  accepted : Option Int
  block : Option (Nat × Mem)
  cell : Option Nat
  read : ReadResult
  added : List Added
  ret : Bool

/-- The program without the table.  `inputs` are those of the callbacks that are still to run,
    and `world` is what the handlers work on.  `fault` records that an agent was used that is not
    allocated. -/
structure Program (ω : Type) where
  agents : List Client
  world : ω
  inputs : List Input
  exited : Bool
  fault : Bool

variable {ω : Type}

abbrev Table (ω : Type) := Poll Callback × Program ω

def clientAt (agents : List Client) (a : Nat) : Option Client := agents.find? (·.addr = a)

/-- `handle_unix_connect` and `handle_ipv4_connect`. -/
def handleConnect (s : Slot Callback) (i : Input) (p : Table ω) : Bool × Table ω :=
  if s.data = 0 then (false, p)
  else
    match clientAt p.2.agents s.data with
    | none => (true, p.1, { p.2 with fault := true })
    | some a =>
      if a.agent.s ≠ s.fd then (false, p)
      else
        match i.accepted, i.block with
        | some fd, some (block, memory) =>
          let (id, io) := cheopsIoAdd fd Callback.handleAgent 1 block i.cell p.1
          (true, io, { p.2 with agents := ⟨block, id, false, newAgent fd memory⟩ :: p.2.agents })
        | _, _ => (true, p)

/-- `event_destroy_agent`, for an agent on the list. -/
def eventDestroyAgent (a : Client) (p : Table ω) : Table ω :=
  let agents := p.2.agents.eraseP (·.addr = a.addr)
  match a.id with
  | some id => ((cheopsIoRemove id p.1).2, { p.2 with agents })
  | none => (p.1, { p.2 with agents })

def addAll (added : List Added) (io : Poll Callback) : Poll Callback :=
  added.foldl (fun io x => (cheopsIoAdd x.fd Callback.other x.events x.data x.cell io).2) io

/-- The error bits of `revents`. -/
def failing (events : UInt16) : Bool :=
  events &&& (CHEOPS_IO_ERR ||| CHEOPS_IO_HUP ||| CHEOPS_IO_NVAL) ≠ 0

def replace (agents : List Client) (a : Client) : List Client :=
  agents.map fun b => if b.addr = a.addr then a else b

/-- `handle_agent`, as the loop calls it. -/
def handleAgentAt (S : Server ω) (s : Slot Callback) (i : Input) (p : Table ω) : Bool × Table ω :=
  if s.data = 0 then (false, p)
  else
    match clientAt p.2.agents s.data with
    | none => (true, p.1, { p.2 with fault := true })
    | some a =>
      let events := UInt16.ofNat s.revents
      let o := handleAgent S a.addr s.fd events i.read a.agent p.2.world
      let io := if o.dispatched = [] then p.1 else addAll i.added p.1
      let q := (io, { p.2 with
        agents := replace p.2.agents { a with agent := o.agent }, world := o.world })
      match o.verdict with
      | .keep => (true, q)
      | .drop => (false, q)
      | .destroyed =>
        (false, eventDestroyAgent (if failing events then { a with id := none } else a) q)
      | .exited => (true, q.1, { q.2 with exited := true })

/-- The loop calls the callback of `s`.  One for which there is no input does nothing. -/
def invoke (S : Server ω) (s : Slot Callback) (p : Table ω) : Bool × Table ω :=
  match p.2.inputs with
  | [] => (true, p)
  | i :: inputs =>
    let p := (p.1, { p.2 with inputs })
    match s.callback with
    | .handleConnect => handleConnect s i p
    | .handleAgent => handleAgentAt S s i p
    | .other => (i.ret, p)

/-! ## What is to hold -/

/-- The list and the table agree: every connection has one entry, with its cell; and every entry
    for a connection has one that is on the list. -/
structure Agrees (io : Poll Callback) (agents : List Client) : Prop where
  polled : ∀ c ∈ agents, c.listens = false → ∃ i < io.fdcnt,
    (io.slot i).callback = .handleAgent ∧ (io.slot i).data = c.addr ∧ c.id = some (io.slot i).id ∧
      io.cell (io.slot i).id = some i ∧ ∀ j < io.fdcnt, (io.slot j).callback = .handleAgent →
        (io.slot j).data = c.addr → j = i
  known : ∀ i < io.fdcnt, (io.slot i).callback = .handleAgent →
    ∃ c ∈ agents, c.listens = false ∧ c.addr = (io.slot i).data

def entryKeys (io : Poll Callback) : List (Nat × Option Nat × Int) :=
  (io.table.filter (·.callback = .handleAgent)).map fun r => (r.data, some r.id, r.fd)

def clientKeys (agents : List Client) : List (Nat × Option Nat × Int) :=
  (agents.filter (!·.listens)).map fun c => (c.addr, c.id, c.agent.s)

structure Inv (p : Table ω) : Prop where
  table : p.1.WellFormed
  addrs : (p.2.agents.map (·.addr)).Nodup
  nonzero : ∀ a ∈ p.2.agents, a.addr ≠ 0
  keys : (entryKeys p.1).Perm (clientKeys p.2.agents)
  ready : ∀ a ∈ p.2.agents, a.agent.Ready
  connects : ∀ r ∈ p.1.table, r.callback = .handleConnect →
    ∃ a ∈ p.2.agents, a.listens ∧ a.addr = r.data
  sound : p.2.fault = false

variable {p : Table ω}

theorem Inv.agrees (inv : Inv p) : Agrees p.1 p.2.agents := by
  have entry {i : Nat} (h : i < p.1.fdcnt) (callback : (p.1.slot i).callback = .handleAgent) :
      ((p.1.slot i).data, some (p.1.slot i).id, (p.1.slot i).fd) ∈ clientKeys p.2.agents := by
    refine inv.keys.subset (List.mem_map.mpr ⟨_, List.mem_filter.mpr ⟨slot_mem_table h, ?_⟩, rfl⟩)
    exact decide_eq_true callback
  have client {k : Nat × Option Nat × Int} (member : k ∈ clientKeys p.2.agents) :
      ∃ c ∈ p.2.agents, c.listens = false ∧ (c.addr, c.id, c.agent.s) = k := by
    obtain ⟨c, member, same⟩ := List.mem_map.mp member
    obtain ⟨member, connection⟩ := List.mem_filter.mp member
    exact ⟨c, member, by simpa using connection, same⟩
  constructor
  · intro c member connection
    have key : (c.addr, c.id, c.agent.s) ∈ entryKeys p.1 :=
      inv.keys.symm.subset
        (List.mem_map.mpr ⟨c, List.mem_filter.mpr ⟨member, by simp [connection]⟩, rfl⟩)
    obtain ⟨r, found, same⟩ := List.mem_map.mp key
    obtain ⟨found, callback⟩ := List.mem_filter.mp found
    obtain ⟨i, h, rfl⟩ := mem_table.mp found
    simp only [Prod.mk.injEq] at same
    obtain ⟨data, id, -⟩ := same
    refine ⟨i, h, of_decide_eq_true callback, data, id.symm, inv.table.cell i h, ?_⟩
    intro j h' callback' data'
    obtain ⟨d, member', -, same'⟩ := client (entry h' callback')
    simp only [Prod.mk.injEq] at same'
    obtain ⟨addr, id', -⟩ := same'
    cases List.inj_on_of_nodup_map inv.addrs member' member (addr.trans data')
    exact inv.table.index h' h (Option.some.inj (id'.symm.trans id.symm))
  · intro i h callback
    obtain ⟨c, member, connection, same⟩ := client (entry h callback)
    exact ⟨c, member, connection, congrArg Prod.fst same⟩

/-! ## Adding and removing entries -/

variable {io : Poll Callback}

theorem entryKeys_add (fd : Int) (callback : Callback) (events data : Nat) (cell : Option Nat)
    (io : Poll Callback) :
    entryKeys (cheopsIoAdd fd callback events data cell io).2 = entryKeys io ++
      if callback = .handleAgent then (cell.map fun id => (data, some id, fd)).toList else [] := by
  rw [entryKeys, cheopsIoAdd_table, List.filter_append, List.map_append, entryKeys]
  cases cell with
  | none => simp
  | some id =>
    by_cases agent : callback = .handleAgent
    · simp [agent]
    · simp [agent]

theorem entryKeys_shrink {x : Nat} (h : x < io.fdcnt) :
    (entryKeys (ioShrink x io) ++
      if (io.slot x).callback = .handleAgent then
        [((io.slot x).data, some (io.slot x).id, (io.slot x).fd)] else []).Perm (entryKeys io) := by
  have perm := ((ioShrink_table h).filter (·.callback = .handleAgent)).map
    fun r => (r.data, some r.id, r.fd)
  refine List.Perm.trans ?_ perm
  by_cases agent : (io.slot x).callback = .handleAgent
  · rw [if_pos agent, List.filter_cons_of_pos (by simpa using agent)]
    exact List.perm_append_singleton _ _
  · rw [if_neg agent, List.filter_cons_of_neg (by simpa using agent), List.append_nil]
    exact .rfl

structure AllFresh (io : Poll Callback) (added : List Added) : Prop where
  nodup : (added.filterMap (·.cell)).Nodup
  free : ∀ q ∈ added.filterMap (·.cell), io.cell q = none

theorem AllFresh.cons {x : Added} {xs : List Added} (fresh : AllFresh io (x :: xs)) :
    (∀ q ∈ x.cell, io.cell q = none) ∧
      AllFresh (cheopsIoAdd x.fd Callback.other x.events x.data x.cell io).2 xs := by
  obtain ⟨nodup, free⟩ := fresh
  cases cell : x.cell with
  | none =>
    rw [List.filterMap_cons_none cell] at nodup free
    exact ⟨nofun, nodup, fun q member => free q member⟩
  | some id =>
    rw [List.filterMap_cons_some cell] at nodup free
    obtain ⟨other, nodup⟩ := List.nodup_cons.mp nodup
    refine ⟨fun q same => free q (by cases same; exact .head _), nodup, fun q member => ?_⟩
    refine cheopsIoAdd_cell (free q (.tail _ member)) (fun same => ?_) _ _ _ _
    cases same
    exact other member

theorem addAll_keeps {added : List Added} (table : io.WellFormed) (fresh : AllFresh io added) :
    (addAll added io).WellFormed ∧ io.Grows (addAll added io) ∧
      entryKeys (addAll added io) = entryKeys io ∧
      ∀ r ∈ (addAll added io).table, r ∈ io.table ∨ r.callback = .other := by
  induction added generalizing io with
  | nil => exact ⟨table, .refl io, rfl, fun r => .inl⟩
  | cons x xs ih =>
    obtain ⟨free, rest⟩ := fresh.cons
    obtain ⟨table', grows, keys, entries⟩ := ih (table.add free) rest
    refine ⟨table', (cheopsIoAdd_grows _ _ _ _ _ io).trans grows, ?_, fun r member => ?_⟩
    · refine keys.trans ((entryKeys_add ..).trans ?_)
      rw [if_neg nofun, List.append_nil]
    · rcases entries r member with member | other
      · rw [cheopsIoAdd_table] at member
        rcases List.mem_append.mp member with member | new
        · exact .inl member
        · obtain ⟨id, -, rfl⟩ : ∃ id, x.cell = some id ∧
              (⟨io.registered, x.fd, .other, x.events, x.data, id⟩ : Registration Callback) =
                r := by
            simpa [Option.mem_toList, Option.map_eq_some_iff] using new
          exact .inr rfl
      · exact .inr other

/-! ## What keeps the invariant -/

section keeps

variable {q : Program ω} {x : Nat} {c : Client}

/-- What the loop remembers does not matter. -/
theorem Inv.remembered (inv : Inv (io, q)) (current : Int) (remove : Bool) :
    Inv ({ io with currentIoc := current, removeCurrentIoc := remove }, q) :=
  ⟨inv.table.remembered current remove, inv.addrs, inv.nonzero, inv.keys, inv.ready, inv.connects,
    inv.sound⟩

theorem Inv.inputs (inv : Inv (io, q)) (inputs : List Input) (exited : Bool) (world : ω) :
    Inv (io, { q with inputs, exited, world }) :=
  ⟨inv.table, inv.addrs, inv.nonzero, inv.keys, inv.ready, inv.connects, inv.sound⟩

theorem clientAt_mem {agents : List Client} {a : Nat} (found : clientAt agents a = some c) :
    c ∈ agents ∧ c.addr = a :=
  ⟨List.mem_of_find?_eq_some found, by simpa using List.find?_some found⟩

theorem clientAt_listed {agents : List Client} (addrs : (agents.map (·.addr)).Nodup)
    (listed : c ∈ agents) : clientAt agents c.addr = some c := by
  cases found : clientAt agents c.addr with
  | none =>
    have absent := List.find?_eq_none.mp found c listed
    simp at absent
  | some d =>
    obtain ⟨member, addr⟩ := clientAt_mem found
    exact congrArg some (List.inj_on_of_nodup_map addrs member listed addr)

/-- The entry of a connection is that of its agent. -/
theorem Inv.client (inv : Inv (io, q)) (h : x < io.fdcnt)
    (callback : (io.slot x).callback = .handleAgent) :
    ∃ c, clientAt q.agents (io.slot x).data = some c ∧ c.listens = false ∧
      c.id = some (io.slot x).id ∧ c.agent.s = (io.slot x).fd := by
  have key : ((io.slot x).data, some (io.slot x).id, (io.slot x).fd) ∈ clientKeys q.agents := by
    refine inv.keys.subset (List.mem_map.mpr ⟨_, List.mem_filter.mpr ⟨slot_mem_table h, ?_⟩, rfl⟩)
    exact decide_eq_true callback
  obtain ⟨c, member, same⟩ := List.mem_map.mp key
  obtain ⟨member, connection⟩ := List.mem_filter.mp member
  simp only [Prod.mk.injEq] at same
  obtain ⟨addr, id, s⟩ := same
  exact ⟨c, addr ▸ clientAt_listed inv.addrs member, by simpa using connection, id, s⟩

theorem eraseP_perm {agents : List Client} (addrs : (agents.map (·.addr)).Nodup)
    (listed : c ∈ agents) : (c :: agents.eraseP (·.addr = c.addr)).Perm agents := by
  obtain ⟨d, pre, post, -, found, split, rest⟩ :=
    List.exists_of_eraseP (p := fun d => decide (d.addr = c.addr)) listed (by simp)
  have member : d ∈ agents := split ▸ List.mem_append_right _ (.head _)
  cases List.inj_on_of_nodup_map addrs member listed (by simpa using found)
  rw [rest, split]
  exact List.perm_middle.symm

/-- An entry goes that is not one of a connection. -/
theorem Inv.shrink (inv : Inv (io, q)) (h : x < io.fdcnt)
    (callback : (io.slot x).callback ≠ .handleAgent) : Inv (ioShrink x io, q) := by
  have keys := entryKeys_shrink h
  rw [if_neg callback, List.append_nil] at keys
  refine ⟨inv.table.shrink h, inv.addrs, inv.nonzero, keys.trans inv.keys, inv.ready, ?_, inv.sound⟩
  exact fun r member => inv.connects r ((mem_ioShrink_table inv.table h).mp member).1

/-- A connection goes, with its entry. -/
theorem Inv.close (inv : Inv (io, q)) (h : x < io.fdcnt)
    (callback : (io.slot x).callback = .handleAgent)
    (found : clientAt q.agents (io.slot x).data = some c) :
    Inv (ioShrink x io, { q with agents := q.agents.eraseP (·.addr = c.addr) }) := by
  obtain ⟨c', found', connection, id, s⟩ := inv.client h callback
  cases found.symm.trans found'
  obtain ⟨listed, addr⟩ := clientAt_mem found
  have perm := eraseP_perm inv.addrs listed
  have fewer : (q.agents.eraseP (·.addr = c.addr)).Sublist q.agents := List.eraseP_sublist
  refine ⟨inv.table.shrink h, inv.addrs.sublist (fewer.map _),
    fun a member => inv.nonzero a (fewer.subset member), ?_,
    fun a member => inv.ready a (fewer.subset member), ?_, inv.sound⟩
  · have entries := entryKeys_shrink h
    rw [if_pos callback, ← addr, ← id, ← s] at entries
    have clients :
        (clientKeys (c :: q.agents.eraseP (·.addr = c.addr))).Perm (clientKeys q.agents) :=
      (perm.filter _).map _
    rw [clientKeys, List.filter_cons_of_pos (by simp [connection]), List.map_cons] at clients
    have whole := (List.perm_append_singleton _ _).symm.trans
      (entries.trans (inv.keys.trans clients.symm))
    exact whole.cons_inv
  · intro r member connect
    obtain ⟨a, there, listens, data⟩ :=
      inv.connects r ((mem_ioShrink_table inv.table h).mp member).1 connect
    refine ⟨a, ?_, listens, data⟩
    rcases List.mem_cons.mp (perm.mem_iff.mpr there) with rfl | kept
    · rw [connection] at listens
      cases listens
    · exact kept

theorem replace_self {agents : List Client} (addrs : (agents.map (·.addr)).Nodup)
    (listed : c ∈ agents) : replace agents c = agents := by
  rw [replace, List.map_congr_left (g := id), List.map_id]
  intro b member
  split
  next same => exact (List.inj_on_of_nodup_map addrs member listed same).symm
  next => rfl

/-- The agent of a connection has received something. -/
theorem Inv.received {agent : Event.Agent} (inv : Inv (io, q)) (listed : c ∈ q.agents)
    (s : agent.s = c.agent.s) (ready : agent.Ready) :
    Inv (io, { q with agents := replace q.agents { c with agent } }) := by
  have same {b : Client} (member : b ∈ q.agents) (addr : b.addr = c.addr) : b = c :=
    List.inj_on_of_nodup_map inv.addrs member listed addr
  have addrs : (replace q.agents { c with agent }).map (·.addr) = q.agents.map (·.addr) := by
    rw [replace, List.map_map]
    refine List.map_congr_left fun b member => ?_
    simp only [Function.comp_apply]
    split
    next addr => exact addr.symm
    next => rfl
  have keys : clientKeys (replace q.agents { c with agent }) = clientKeys q.agents := by
    simp only [clientKeys, replace, List.filter_map, List.map_map]
    rw [List.filter_congr (q := fun b => !b.listens)]
    · refine List.map_congr_left fun b member => ?_
      simp only [Function.comp_apply]
      split
      next addr =>
        cases same (List.mem_filter.mp member).1 addr
        simp only [s]
      next => rfl
    · intro b member
      simp only [Function.comp_apply]
      split
      next addr => rw [same member addr]
      next => rfl
  have others {b : Client} (member : b ∈ replace q.agents { c with agent }) :
      b = { c with agent } ∨ b ∈ q.agents := by
    obtain ⟨d, there, rfl⟩ := List.mem_map.mp member
    split
    · exact .inl rfl
    · exact .inr there
  refine ⟨inv.table, addrs ▸ inv.addrs, ?_, keys ▸ inv.keys, ?_, ?_, inv.sound⟩
  · intro b member
    rcases others member with rfl | member
    · exact inv.nonzero c listed
    · exact inv.nonzero b member
  · intro b member
    rcases others member with rfl | member
    · exact ready
    · exact inv.ready b member
  · intro r member connect
    obtain ⟨a, there, listens, data⟩ := inv.connects r member connect
    refine ⟨_, List.mem_map.mpr ⟨a, there, rfl⟩, ?_⟩
    split
    next addr =>
      cases same there addr
      exact ⟨listens, data⟩
    next => exact ⟨listens, data⟩

end keeps

/-! ## One callback -/

/-- What the environment gives: `malloc` gives blocks that are not allocated, and `read` no more
    than was asked for. -/
def Granted (s : Slot Callback) (i : Input) (p : Table ω) : Prop :=
  (∀ b ∈ i.block, b.1 ≠ 0 ∧ ∀ a ∈ p.2.agents, a.addr ≠ b.1) ∧
  (∀ q ∈ i.cell, p.1.cell q = none) ∧ AllFresh p.1 i.added ∧
  ∀ a ∈ clientAt p.2.agents s.data, ∀ bs, i.read = .bytes bs → bs.length ≤ a.agent.free

/-- `malloc` has a cell for the entry of a new agent; and what is read holds no message that is
    too large. -/
def Fitting (s : Slot Callback) (i : Input) (p : Table ω) : Prop :=
  match s.callback with
  | .handleConnect => i.block ≠ none → i.cell ≠ none
  | .handleAgent => ∀ a ∈ clientAt p.2.agents s.data, ∀ bs, i.read = .bytes bs →
      failing (.ofNat s.revents) = false → ¬ a.agent.TooLarge bs
  | .other => True

variable {S : Server ω} {s : Slot Callback} {i : Input}

/-- How `handle_agent` ends for an agent of the table, if no message is too large. -/
theorem handleAgent_ends {a : Event.Agent} (events : UInt16) (addr : Nat) (w : ω) (ready : a.Ready)
    (fits : ∀ bs, i.read = .bytes bs → bs.length ≤ a.free)
    (small : ∀ bs, i.read = .bytes bs → failing events = false → ¬ a.TooLarge bs) :
    let o := handleAgent S addr a.s events i.read a w
    (o.verdict = .destroyed ∨ failing events = false ∧ o.verdict = .exited) ∧ o.agent = a ∧
      o.dispatched = [] ∨
    failing events = false ∧ o.verdict = .keep ∧ o.agent.s = a.s ∧ o.agent.Ready := by
  intro o
  cases quiet : failing events with
  | true =>
    have errors : events &&& (CHEOPS_IO_ERR ||| CHEOPS_IO_HUP ||| CHEOPS_IO_NVAL) ≠ 0 :=
      of_decide_eq_true quiet
    have stop : o = { verdict := .destroyed, agent := a, world := w, dispatched := [] } := by
      simp only [o, handleAgent, ne_eq, not_true_eq_false, if_false, if_pos errors]
    rw [stop]
    exact .inl ⟨.inl rfl, rfl, rfl⟩
  | false =>
    have errors : events &&& (CHEOPS_IO_ERR ||| CHEOPS_IO_HUP ||| CHEOPS_IO_NVAL) = 0 := by
      simpa [failing] using quiet
    have reads : o = handleAgent S addr a.s 1 i.read a w := handleAgent_reads addr w i.read errors
    have plain : ¬ (1 &&& (CHEOPS_IO_ERR ||| CHEOPS_IO_HUP ||| CHEOPS_IO_NVAL) ≠ 0) := by decide
    by_cases full : a.free = 0
    · have stop : o = { verdict := .exited, agent := a, world := w, dispatched := [] } := by
        rw [reads]
        simp only [handleAgent, ne_eq, not_true_eq_false, if_false, if_neg plain, if_pos full]
      rw [stop]
      exact .inl ⟨.inr ⟨rfl, rfl⟩, rfl, rfl⟩
    · have stop (nothing : i.read = .failed ∨ i.read = .bytes []) :
          o = { verdict := .destroyed, agent := a, world := w, dispatched := [] } := by
        rw [reads]
        rcases nothing with nothing | nothing <;>
          simp only [handleAgent, ne_eq, not_true_eq_false, if_false, if_neg plain, if_neg full,
            nothing]
      cases read : i.read with
      | failed =>
        rw [stop (.inl read)]
        exact .inl ⟨.inl rfl, rfl, rfl⟩
      | bytes bs =>
        by_cases empty : bs = []
        · rw [stop (.inr (empty ▸ read))]
          exact .inl ⟨.inl rfl, rfl, rfl⟩
        · obtain ⟨socket, ⟨large, -⟩ | ⟨-, keep, ready'⟩⟩ :=
            handleAgent_read (S := S) addr w ready empty (fits bs read)
          · exact absurd large (small bs read quiet)
          · rw [reads, read]
            exact .inr ⟨rfl, keep, socket, ready'⟩

/-- The loop removes the entry after a callback that returned 0 and removed nothing else. -/
theorem returned_false {x : Nat} {q : Program ω} (io : Poll Callback) :
    returned x (false, io, q) = ({ ioShrink x io with currentIoc := -1 }, q) := rfl

theorem returned_true {x : Nat} {q : Program ω} (io : Poll Callback)
    (kept : io.removeCurrentIoc = false) :
    returned x (true, io, q) = ({ io with currentIoc := -1 }, q) := by
  rw [returned, settle_nonzero kept]

section turn

variable {q : Program ω} {x : Nat}

theorem Inv.leave (inv : Inv (io, q)) : Inv ({ io with currentIoc := -1 }, q) :=
  inv.remembered (-1) io.removeCurrentIoc

/-- A connection is accepted, and gets a cell. -/
theorem Inv.accept {fd : Int} {block id : Nat} {memory : Mem} (inv : Inv (io, q))
    (nonzero : block ≠ 0) (free : ∀ a ∈ q.agents, a.addr ≠ block) (fresh : io.cell id = none) :
    Inv ((cheopsIoAdd fd Callback.handleAgent 1 block (some id) io).2,
      { q with agents := ⟨block, some id, false, newAgent fd memory⟩ :: q.agents }) where
  table := inv.table.add fun p same => by cases same; exact fresh
  addrs := by
    refine List.nodup_cons.mpr ⟨fun member => ?_, inv.addrs⟩
    obtain ⟨a, listed, same⟩ := List.mem_map.mp member
    exact free a listed same
  nonzero a member := by
    cases member with
    | head => exact nonzero
    | tail _ member => exact inv.nonzero a member
  keys := by
    simp only [entryKeys_add, if_true]
    refine (List.perm_append_singleton _ _).trans ?_
    simp only [clientKeys, List.filter_cons, Bool.not_false, if_true, List.map_cons]
    exact inv.keys.cons _
  ready a member := by
    cases member with
    | head => exact fun _ => rfl
    | tail _ member => exact inv.ready a member
  connects r member connect := by
    rw [cheopsIoAdd_table] at member
    rcases List.mem_append.mp member with member | new
    · obtain ⟨a, listed, listens, data⟩ := inv.connects r member connect
      exact ⟨a, .tail _ listed, listens, data⟩
    · cases List.mem_singleton.mp new
      cases connect
  sound := inv.sound

/-- The entries that the handlers add. -/
theorem Inv.added {added : List Added} (inv : Inv (io, q)) (fresh : AllFresh io added) :
    Inv (addAll added io, q) := by
  obtain ⟨table, -, keys, entries⟩ := addAll_keeps inv.table fresh
  refine ⟨table, inv.addrs, inv.nonzero, keys ▸ inv.keys, inv.ready, ?_, inv.sound⟩
  intro r member connect
  rcases entries r member with member | other
  · exact inv.connects r member connect
  · rw [other] at connect
    cases connect

/-- `handle_connect` is called for an entry of the table. -/
theorem Inv.handleConnect (inv : Inv (io, q)) (h : x < io.fdcnt) (slot : io.slot x = s)
    (callback : s.callback = .handleConnect) (kept : io.removeCurrentIoc = false)
    (granted : Granted s i (io, q)) (cells : i.block ≠ none → i.cell ≠ none) :
    Inv (returned x (handleConnect s i (io, q))) := by
  subst slot
  obtain ⟨blocks, fresh, -, -⟩ := granted
  obtain ⟨a, listed, -, addr⟩ := inv.connects _ (slot_mem_table h) callback
  have found : clientAt q.agents (io.slot x).data = some a :=
    addr ▸ clientAt_listed inv.addrs listed
  have gone : Inv (returned x (false, io, q)) := by
    rw [returned_false]
    exact (inv.shrink h (by rw [callback]; nofun)).leave
  have stays : Inv (returned x (true, io, q)) := by
    rw [returned_true io kept]
    exact inv.leave
  unfold Agents.handleConnect
  simp only [found]
  split
  · exact gone
  split
  · exact gone
  split
  next fd block memory accepted given =>
    cases cell : i.cell with
    | none => exact absurd cell (cells (by rw [given]; nofun))
    | some id =>
      obtain ⟨nonzero, free⟩ := blocks _ given
      rw [returned_true _ (by exact kept)]
      exact (inv.accept nonzero free (fresh id cell)).leave
  next => exact stays

/-- `handle_agent` is called for an entry of the table. -/
theorem Inv.handleAgentAt (inv : Inv (io, q)) (h : x < io.fdcnt) (slot : io.slot x = s)
    (callback : s.callback = .handleAgent) (current : io.currentIoc = x)
    (kept : io.removeCurrentIoc = false) (granted : Granted s i (io, q))
    (small : ∀ a ∈ clientAt q.agents s.data, ∀ bs, i.read = .bytes bs →
      failing (.ofNat s.revents) = false → ¬ a.agent.TooLarge bs) :
    Inv (returned x (handleAgentAt S s i (io, q))) := by
  subst slot
  obtain ⟨-, -, fresh, fits⟩ := granted
  obtain ⟨c, found, -, id, socket⟩ := inv.client h callback
  obtain ⟨listed, addr⟩ := clientAt_mem found
  have nonzero : (io.slot x).data ≠ 0 := addr ▸ inv.nonzero c listed
  have same : replace q.agents { c with agent := c.agent } = q.agents :=
    replace_self inv.addrs listed
  unfold Agents.handleAgentAt
  simp only [found, if_neg nonzero, ← socket]
  rcases handleAgent_ends (S := S) (i := i) (.ofNat (io.slot x).revents) c.addr q.world
    (inv.ready c listed) (fits c found) (small c found) with
    ⟨destroyed | ⟨-, exited⟩, agent, dispatched⟩ | ⟨-, keep, socket', ready⟩
  · simp only [destroyed, agent, dispatched, if_true, same]
    cases failing (.ofNat (io.slot x).revents) with
    | true =>
      rw [if_pos rfl]
      exact ((inv.close h callback found).inputs _ _ _).leave
    | false =>
      have removed :
          (cheopsIoRemove (io.slot x).id io).2 = { io with removeCurrentIoc := true } := by
        rcases inv.table.remove_cases h with ⟨-, removed⟩ | ⟨other, -⟩
        · exact removed
        · exact absurd current other
      have inv' : Inv ({ io with removeCurrentIoc := true }, q) := inv.remembered _ _
      rw [if_neg Bool.false_ne_true]
      simp only [eventDestroyAgent, id, removed]
      exact ((inv'.close h callback found).inputs _ _ _).leave
  · simp only [exited, agent, dispatched, if_true, same]
    rw [returned_true io kept]
    exact (inv.inputs _ _ _).leave
  · simp only [keep]
    have received := (inv.received listed socket' ready).inputs q.inputs q.exited
      (handleAgent S c.addr c.agent.s (.ofNat (io.slot x).revents) i.read c.agent q.world).world
    split
    · rw [returned_true io kept]
      exact received.leave
    · have grows := (addAll_keeps inv.table fresh).2.1
      rw [returned_true _ (grows.remove.trans kept)]
      exact (received.added fresh).leave

/-- One turn of the loop. -/
theorem Inv.turn (inv : Inv (io, q)) (h : x < io.fdcnt)
    (input : (io.slot x).revents ≠ 0 → ∀ i ∈ q.inputs.head?,
      Granted (io.slot x) i (io, q) ∧ Fitting (io.slot x) i (io, q)) :
    Inv (ioTurn (invoke S) x (io, q)) := by
  by_cases ready : (io.slot x).revents = 0
  · rw [ioTurn, if_pos ready]
    exact inv
  rw [ioTurn_ready inv.table _ _ h ready]
  have calling : Inv (io.calling x, q) := inv.remembered _ _
  unfold invoke
  cases inputs : q.inputs with
  | nil =>
    simp only
    rw [returned_true _ rfl]
    exact calling.leave
  | cons i rest =>
    obtain ⟨⟨blocks, cells, ⟨nodup, free⟩, fits⟩, fitting⟩ := input ready i (by rw [inputs]; rfl)
    have granted : Granted (io.slot x) i (io.calling x, { q with inputs := rest }) :=
      ⟨blocks, cells, ⟨nodup, free⟩, fits⟩
    have calling' : Inv (io.calling x, { q with inputs := rest }) := calling.inputs rest _ _
    unfold Fitting at fitting
    cases callback : (io.slot x).callback with
    | handleConnect =>
      simp only [callback] at fitting ⊢
      exact calling'.handleConnect h rfl callback rfl granted fitting
    | handleAgent =>
      simp only [callback] at fitting ⊢
      exact calling'.handleAgentAt h rfl callback rfl rfl granted fitting
    | other =>
      simp only
      cases i.ret with
      | true =>
        rw [returned_true _ rfl]
        exact calling'.leave
      | false =>
        rw [returned_false]
        have slots : (io.calling x).slot = io.slot := rfl
        exact (calling'.shrink h (by rw [slots, callback]; nofun)).leave

end turn

/-! ## Runs -/

/-- What happens between two calls of `cheops_io_wait`, and what a call is given. -/
inductive LoopEvent where
  | listen (fd : Int) (block : Nat) (memory : Mem) (cell : Option Nat)
  | opened (entry : Added)
  | expire (id : Nat)
  | wait (res : Int) (revents : Nat → Nat) (inputs : List Input)

/-- The program at the turn at index `x` of a call. -/
def atTurn (S : Server ω) (revents : Nat → Nat) (inputs : List Input) (p : Table ω) (x : Nat) :
    Table ω :=
  turned (invoke S) (p.1.polled revents, { p.2 with inputs }) x

def EachTurn (C : Slot Callback → Input → Table ω → Prop) (turn : Nat → Table ω) : Prop :=
  ∀ x < (turn x).1.fdcnt, ((turn x).1.slot x).revents ≠ 0 →
    ∀ i ∈ (turn x).2.inputs.head?, C ((turn x).1.slot x) i (turn x)

/-- `event_create_agent`, a timer that adds an entry as `ping_send` does, one that removes an entry
    of a probe, and `cheops_io_wait`. -/
inductive PollStep (S : Server ω) : Table ω → LoopEvent → Table ω → Prop
  | listen {p : Table ω} {fd : Int} {block : Nat} {memory : Mem} {cell : Option Nat}
      (nonzero : block ≠ 0) (free : ∀ a ∈ p.2.agents, a.addr ≠ block)
      (fresh : ∀ q ∈ cell, p.1.cell q = none) :
      PollStep S p (.listen fd block memory cell)
        (let (id, io) := cheopsIoAdd fd Callback.handleConnect 1 block cell p.1
        (io, { p.2 with agents := ⟨block, id, true, newAgent fd memory⟩ :: p.2.agents }))
  | opened {p : Table ω} {x : Added} (fresh : ∀ q ∈ x.cell, p.1.cell q = none) :
      PollStep S p (.opened x) (addAll [x] p.1, p.2)
  | expire {p : Table ω} {r : Registration Callback} (listed : r ∈ p.1.table)
      (other : r.callback = .other) :
      PollStep S p (.expire r.id) ((cheopsIoRemove r.id p.1).2, p.2)
  | wait {p p' : Table ω} {res : Int} {revents : Nat → Nat} {inputs : List Input} {turns : Nat}
      (granted : EachTurn Granted (atTurn S revents inputs p))
      (ends : cheopsIoWait (invoke S) turns res revents (p.1, { p.2 with inputs }) = some p') :
      PollStep S p (.wait res revents inputs) p'

/-- `malloc` has a cell for every agent that is accepted, and no message is too large. -/
def Fits (S : Server ω) (p : Table ω) : LoopEvent → Prop
  | .wait res revents inputs => 0 < res → EachTurn Fitting (atTurn S revents inputs p)
  | _ => True

def start (slot : Nat → Slot Callback) (world : ω) : Table ω :=
  (Poll.start slot, { agents := [], world, inputs := [], exited := false, fault := false })

theorem start_inv (slot : Nat → Slot Callback) (world : ω) : Inv (start slot world) where
  table := .start slot
  addrs := .nil
  nonzero := nofun
  keys := .nil
  ready := nofun
  connects := nofun
  sound := rfl

theorem Inv.polled (inv : Inv p) (revents : Nat → Nat) (inputs : List Input) :
    Inv (p.1.polled revents, { p.2 with inputs }) := by
  have table := inv.table.polled revents
  have keys : entryKeys (p.1.polled revents) = entryKeys p.1 := by
    rw [entryKeys, polled_table, entryKeys]
  refine ⟨table, inv.addrs, inv.nonzero, keys ▸ inv.keys, inv.ready, ?_, inv.sound⟩
  intro r member
  exact inv.connects r (polled_table p.1 revents ▸ member)

/-- An agent that listens is put on the list, whether it gets a cell or not. -/
theorem Inv.listen {fd : Int} {block : Nat} {memory : Mem} {cell : Option Nat} (inv : Inv p)
    (nonzero : block ≠ 0) (free : ∀ a ∈ p.2.agents, a.addr ≠ block)
    (fresh : ∀ q ∈ cell, p.1.cell q = none) :
    Inv ((cheopsIoAdd fd Callback.handleConnect 1 block cell p.1).2,
      { p.2 with agents := ⟨block, cell, true, newAgent fd memory⟩ :: p.2.agents }) where
  table := inv.table.add fresh
  addrs := by
    refine List.nodup_cons.mpr ⟨fun member => ?_, inv.addrs⟩
    obtain ⟨a, listed, same⟩ := List.mem_map.mp member
    exact free a listed same
  nonzero a member := by
    cases member with
    | head => exact nonzero
    | tail _ member => exact inv.nonzero a member
  keys := by
    simp only [entryKeys_add, clientKeys, List.filter_cons, Bool.not_true]
    rw [if_neg nofun, List.append_nil, if_neg Bool.false_ne_true]
    exact inv.keys
  ready a member := by
    cases member with
    | head => exact fun _ => rfl
    | tail _ member => exact inv.ready a member
  connects r member connect := by
    rw [cheopsIoAdd_table] at member
    rcases List.mem_append.mp member with member | new
    · obtain ⟨a, listed, listens, data⟩ := inv.connects r member connect
      exact ⟨a, .tail _ listed, listens, data⟩
    · refine ⟨_, .head _, rfl, ?_⟩
      obtain ⟨id, -, rfl⟩ : ∃ id, cell = some id ∧
          (⟨p.1.registered, fd, .handleConnect, 1, block, id⟩ : Registration Callback) = r := by
        simpa [Option.mem_toList, Option.map_eq_some_iff] using new
      rfl
  sound := inv.sound

theorem Inv.atTurn {revents : Nat → Nat} {inputs : List Input} (inv : Inv p)
    (idle : p.1.currentIoc = -1) (granted : EachTurn Granted (atTurn S revents inputs p))
    (fitting : EachTurn Fitting (atTurn S revents inputs p)) (x : Nat) :
    Inv (atTurn S revents inputs p x) ∧ (atTurn S revents inputs p x).1.currentIoc = -1 := by
  induction x with
  | zero => exact ⟨inv.polled revents inputs, idle⟩
  | succ x ih =>
    obtain ⟨inv', idle'⟩ := ih
    by_cases h : x < (Agents.atTurn S revents inputs p x).1.fdcnt
    · have next : Agents.atTurn S revents inputs p (x + 1) =
          ioTurn (invoke S) x (Agents.atTurn S revents inputs p x) := turned_succ h
      rw [next]
      refine ⟨inv'.turn h fun ready i first =>
        ⟨granted x h ready i first, fitting x h ready i first⟩, ?_⟩
      by_cases ready : ((Agents.atTurn S revents inputs p x).1.slot x).revents = 0
      · rw [ioTurn, if_pos ready]
        exact idle'
      · rw [show Agents.atTurn S revents inputs p x =
          ((Agents.atTurn S revents inputs p x).1, (Agents.atTurn S revents inputs p x).2) from rfl,
          ioTurn_ready inv'.table _ _ h ready]
        rfl
    · have same : Agents.atTurn S revents inputs p (x + 1) = Agents.atTurn S revents inputs p x :=
        turned_ended h 1
      rw [same]
      exact ⟨inv', idle'⟩

theorem Inv.step {p' : Table ω} {event : LoopEvent} (inv : Inv p) (idle : p.1.currentIoc = -1)
    (fits : Fits S p event) (step : PollStep S p event p') :
    Inv p' ∧ p'.1.currentIoc = -1 := by
  cases step with
  | listen nonzero free fresh =>
    simp only [cheopsIoAdd_fst]
    exact ⟨inv.listen nonzero free fresh, (cheopsIoAdd_grows _ _ _ _ _ p.1).current.trans idle⟩
  | @opened x fresh =>
    have free : AllFresh p.1 [x] := by
      cases cell : x.cell with
      | none => exact ⟨by simp [cell], by simp [cell]⟩
      | some q => exact ⟨by simp [cell], by simpa [cell] using fresh q cell⟩
    exact ⟨inv.added free, (cheopsIoAdd_grows _ _ _ _ _ p.1).current.trans idle⟩
  | expire listed other =>
    obtain ⟨i, h, rfl⟩ := mem_table.mp listed
    rcases inv.table.remove_cases h with ⟨current, -⟩ | ⟨-, removed⟩
    · omega
    · rw [removed]
      refine ⟨inv.shrink h ?_, (ioShrink_currentIoc i p.1).trans idle⟩
      rw [show (p.1.slot i).callback = .other from other]
      nofun
  | @wait _ res revents inputs turns granted ends =>
    unfold cheopsIoWait at ends
    by_cases positive : 0 < res
    · simp only [if_pos positive] at ends
      have left := ioLoop_eq_turned (x := 0) ends
      rw [Nat.zero_add] at left
      rw [left]
      exact inv.atTurn idle granted (fits positive) turns
    · simp only [if_neg positive] at ends
      cases ends
      exact ⟨inv.polled revents inputs, idle⟩

/-- In every run in which each agent that is accepted gets a cell and no message is too large, the
    list of agents and the poll table agree. -/
theorem agents_polled {slot : Nat → Slot Callback} {world : ω} {history : List LoopEvent}
    (run : Run (Guarded (Fits S) (PollStep S)) (start slot world) history p) :
    Agrees p.1 p.2.agents := by
  have kept : Inv p ∧ p.1.currentIoc = -1 := by
    refine run.state_invariant (I := fun p => Inv p ∧ p.1.currentIoc = -1)
      ⟨start_inv slot world, rfl⟩ ?_
    exact fun _ _ _ inv step => inv.1.step inv.2 step.1 step.2
  exact kept.1.agrees

/-! ### A client that is given up -/

theorem wait_ends {revents : Nat → Nat} {inputs : List Input} {n : Nat}
    (ended : ¬ n < (atTurn S revents inputs p n).1.fdcnt) :
    cheopsIoWait (invoke S) n 1 revents (p.1, { p.2 with inputs }) =
      some (atTurn S revents inputs p n) := by
  have loop := ioLoop_turned (x := 0) (k := n) (p := (p.1.polled revents, { p.2 with inputs }))
    (by rw [Nat.zero_add]; exact ended)
  rw [Nat.zero_add] at loop
  exact loop

theorem eachTurn_of_ended {C : Slot Callback → Input → Table ω → Prop} {revents : Nat → Nat}
    {inputs : List Input} {n : Nat} (ended : ¬ n < (atTurn S revents inputs p n).1.fdcnt)
    (each : ∀ x < n, ((atTurn S revents inputs p x).1.slot x).revents ≠ 0 →
      ∀ i ∈ (atTurn S revents inputs p x).2.inputs.head?,
        C ((atTurn S revents inputs p x).1.slot x) i (atTurn S revents inputs p x)) :
    EachTurn C (atTurn S revents inputs p) := by
  intro x h
  refine each x ?_
  by_contra behind
  obtain ⟨k, rfl⟩ := Nat.exists_eq_add_of_le (Nat.le_of_not_lt behind)
  rw [show atTurn S revents inputs p (n + k) = atTurn S revents inputs p n from
    turned_ended ended k] at h
  omega

def countingServer : Server Nat where
  authenticating := false
  handlers _ := some fun _ _ _ flags w => (flags, w + 1)
  authRegistered := rfl
  eventSend _ _ w := w

def emptySlot : Slot Callback := ⟨⟨0, 0, .other, 0, 0, 0⟩, 0⟩

def only (n i : Nat) : Nat := if i = n then 1 else 0

def accepts : Input := ⟨some 5, some (200, fun _ => 0), some 1001, .failed, [], true⟩

def reads (bs : List UInt8) : Input := ⟨none, none, none, .bytes bs, [], true⟩

def listening : Table Nat :=
  let p := start (fun _ => emptySlot) 0
  let (id, io) := cheopsIoAdd 3 Callback.handleConnect 1 100 (some 1000) p.1
  (io, { p.2 with agents := ⟨100, id, true, newAgent 3 fun _ => 0⟩ :: p.2.agents })

def pinging : Table Nat := (addAll [⟨4, 1, 0, some 1002⟩] listening.1, listening.2)

def accepted : Table Nat := atTurn countingServer (only 0) [accepts] pinging 3

theorem pinging_run : Run (PollStep countingServer) (start (fun _ => emptySlot) 0)
    [.listen 3 100 (fun _ => 0) (some 1000), .opened ⟨4, 1, 0, some 1002⟩] pinging := by
  have first : PollStep countingServer (start (fun _ => emptySlot) 0)
      (.listen 3 100 (fun _ => 0) (some 1000)) listening :=
    .listen (by decide) nofun (fun _ _ => rfl)
  have second : PollStep countingServer listening (.opened ⟨4, 1, 0, some 1002⟩) pinging := by
    refine .opened ?_
    rintro _ ⟨⟩
    rfl
  exact (Run.single first).snoc second

theorem accepted_granted :
    EachTurn Granted (atTurn countingServer (only 0) [accepts] pinging) := by
  refine eachTurn_of_ended (n := 3) (by decide) fun x h ready i first => ?_
  match x with
  | 0 =>
    cases first
    refine ⟨?_, ?_, ⟨.nil, nofun⟩, nofun⟩
    · rintro _ ⟨⟩
      decide
    · rintro _ ⟨⟩
      rfl
  | 1 => exact absurd rfl ready
  | 2 => exact absurd rfl ready

theorem accepted_step : PollStep countingServer pinging (.wait 1 (only 0) [accepts]) accepted :=
  .wait accepted_granted (wait_ends (by decide))

theorem accepted_fits : Fits countingServer pinging (.wait 1 (only 0) [accepts]) := by
  refine fun _ => eachTurn_of_ended (n := 3) (by decide) fun x h ready i first => ?_
  match x with
  | 0 =>
    cases first
    exact nofun
  | 1 => exact absurd rfl ready
  | 2 => exact absurd rfl ready

/-- Where only the last entry is ready, the loop comes to it with the table as it was. -/
theorem eachTurn_last {C : Slot Callback → Input → Table ω → Prop} {p : Table ω} {i : Input}
    {n : Nat} (size : p.1.fdcnt = n + 1)
    (fewer : ¬ n + 1 < (atTurn S (only n) [i] p (n + 1)).1.fdcnt)
    (last : C { p.1.slot n with revents := 1 } i
      (p.1.polled (only n), { p.2 with inputs := [i] })) :
    EachTurn C (atTurn S (only n) [i] p) := by
  have before (x : Nat) (le : x ≤ n) :
      atTurn S (only n) [i] p x = (p.1.polled (only n), { p.2 with inputs := [i] }) := by
    induction x with
    | zero => rfl
    | succ x ih =>
      have same := ih (by omega)
      have inside : x < (atTurn S (only n) [i] p x).1.fdcnt := by
        rw [same]
        exact size ▸ (by omega : x < n + 1)
      have quiet : ((atTurn S (only n) [i] p x).1.slot x).revents = 0 := by
        rw [same, Poll.polled]
        dsimp only
        rw [if_pos (by omega)]
        exact if_neg (by omega)
      refine (turned_succ inside).trans ?_
      exact (if_pos quiet).trans same
  refine eachTurn_of_ended fewer fun x h ready j first => ?_
  rw [before x (by omega)] at ready first ⊢
  have slot : (p.1.polled (only n)).slot x = { p.1.slot x with revents := only n x } := by
    rw [Poll.polled]
    exact if_pos (by omega)
  rw [slot] at ready ⊢
  by_cases here : x = n
  case pos =>
    cases first
    subst here
    rw [only, if_pos rfl]
    exact last
  case neg => exact absurd (if_neg here) ready

/-- Nothing is too large where whole events have come. -/
theorem not_tooLarge {a : Event.Agent} {bs : List UInt8} (empty : a.writePtr = 0)
    (whole : eventFraming.rest bs = []) : ¬ a.TooLarge bs := by
  rintro ⟨-, large⟩
  have none : a.buffered = [] := by
    rw [Agent.buffered, empty]
    rfl
  rw [none, List.nil_append, whole] at large
  exact absurd large.1 (by decide)

def message : List UInt8 := [0, 0, 0, 16, 0, 12, 0, 1, 0, 0, 0, 0, 0, 0, 0, 0]

def answered : Table Nat := atTurn countingServer (only 2) [reads message] accepted 3

def closed : Table Nat := atTurn countingServer (only 2) [reads []] answered 3

theorem rest_nil : eventFraming.rest [] = [] := by
  have size : eventFraming.size [] = none := rfl
  refine Framing.rest_of_incomplete fun n some => ?_
  rw [size] at some
  cases some

theorem rest_message : eventFraming.rest message = [] := by
  have size : eventFraming.size message = some 16 := by decide +kernel
  rw [Framing.rest_of_size size (by decide), show message.drop 16 = [] from rfl, rest_nil]

/-- A step in which what the last of three connections has sent is read, with whole events. -/
theorem reads_step {p : Table Nat} {bs : List UInt8} (size : p.1.fdcnt = 3)
    (fewer : (atTurn countingServer (only 2) [reads bs] p 3).1.fdcnt ≤ 3)
    (empty : ∀ a ∈ clientAt p.2.agents (p.1.slot 2).data, a.agent.writePtr = 0)
    (fits : bs.length ≤ AGENT_RECV_BUFFER_LENGTH) (whole : eventFraming.rest bs = [])
    (connection : (p.1.slot 2).callback = .handleAgent) :
    Guarded (Fits countingServer) (PollStep countingServer) p (.wait 1 (only 2) [reads bs])
      (atTurn countingServer (only 2) [reads bs] p 3) := by
  have ended := Nat.not_lt.mpr fewer
  refine ⟨fun _ => eachTurn_last size ended ?_,
    .wait (eachTurn_last size ended ⟨nofun, nofun, ⟨.nil, nofun⟩, ?_⟩) (wait_ends ended)⟩
  · rw [Fitting]
    dsimp only
    rw [connection]
    intro a found _ same _
    cases same
    exact not_tooLarge (empty a found) whole
  · intro a found _ same
    cases same
    have := empty a found
    unfold Agent.free
    omega

/-- A connection is accepted, sends an event and is closed. -/
theorem agents_polled_accepted :
    Agrees answered.1 answered.2.agents ∧ answered.2.agents.map (·.addr) = [200, 100] ∧
      answered.2.world = 1 ∧ Agrees closed.1 closed.2.agents ∧
      closed.2.agents.map (·.addr) = [100] := by
  have first : Run (Guarded (Fits countingServer) (PollStep countingServer))
      (start (fun _ => emptySlot) 0) _ pinging := pinging_run.guarded (by simp [Fits])
  have run := (first.snoc ⟨accepted_fits, accepted_step⟩).snoc
    (reads_step (by decide) (by decide +kernel) (by decide) (by decide) rest_message (by decide))
  refine ⟨agents_polled run, by decide +kernel, by decide +kernel, agents_polled (run.snoc
    (reads_step (by decide +kernel) (by decide +kernel) (by decide +kernel) (by decide) rest_nil
      (by decide +kernel))), by decide +kernel⟩

/-- The first bytes of an event that is 65537 bytes long. -/
def announces : Input := reads [0, 1, 0, 1]

/-- The client announces an event that is too large.  Its agent stays on the list and its entry is
    removed. -/
theorem agent_not_polled : ∃ history p,
    Run (PollStep countingServer) (start (fun _ => emptySlot) 0) history p ∧
      ¬ Agrees p.1 p.2.agents := by
  have granted : EachTurn Granted (atTurn countingServer (only 2) [announces] accepted) := by
    refine eachTurn_last (by decide) (by decide) ⟨nofun, nofun, ⟨.nil, nofun⟩, ?_⟩
    rintro _ ⟨⟩ _ ⟨⟩
    decide
  refine ⟨_, _, (pinging_run.snoc accepted_step).snoc
    (.wait granted (wait_ends (n := 3) (by decide))), fun agrees => ?_⟩
  have table : (atTurn countingServer (only 2) [announces] accepted 3).1.fdcnt = 2 ∧
      ∀ i < 2, ((atTurn countingServer (only 2) [announces] accepted 3).1.slot i).callback ≠
        .handleAgent := by
    decide
  have listed : (200, false) ∈
      (atTurn countingServer (only 2) [announces] accepted 3).2.agents.map
        fun c => (c.addr, c.listens) := by
    decide
  obtain ⟨c, member, same⟩ := List.mem_map.mp listed
  obtain ⟨i, h, callback, -⟩ := agrees.polled c member (congrArg Prod.snd same)
  rw [table.1] at h
  exact table.2 i h callback

end Cheops.Agents
