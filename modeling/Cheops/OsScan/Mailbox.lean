import Cheops.Lib.Run
import Cheops.OsScan.Request

/-! # OS scans: the mailbox between two threads (`agent-osscan.c`)

The worker thread encodes a reply into `ebuf_os`, stores its address and its agent in
`event_to_send` and `agent_to_send`, and unlocks `os_read_mutex`.  The main thread's timer
tries that mutex and, when it gets it, sends what the mailbox holds.  A step is a section
under one mutex, or one assignment outside of them.

Nothing keeps the worker from encoding the next reply while the mailbox is still full.  As
long as it does not happen, every reply is sent once (`replies_exactlyOnce`); the step at which
it happens loses a reply (`encode_overwrites`).
-/

namespace Cheops.OsScan

open Cheops.Lib Cheops.Event

/-! ## The two threads -/

/-- What `event_to_send` can point to. -/
inductive EventPtr where
  | null
  | ehOs
deriving DecidableEq, Repr

/-- Where `dequeue_osscan` stands. -/
inductive Worker where
  | asleep
  | awake
  | scanning (q : OsDetectQueue)
  | scanned (q : OsDetectQueue) (n : NmapScan)
  | encoded (q : OsDetectQueue)
  | eventStored (q : OsDetectQueue)
  | agentStored (q : OsDetectQueue)
deriving DecidableEq, Repr

/-- Where the main thread stands: outside of this file, before `sem_post`, or in
    `osscan_timer` behind `pthread_mutex_trylock`. -/
inductive MainThread where
  | outside
  | posting
  | sending
deriving DecidableEq, Repr

structure Reply where
  bytes : List UInt8
  agent : Nat
deriving DecidableEq, Repr

/-- The shared variables and the two threads.  `encoded` and `sent` are ghosts: the replies
    `send_osscan_reply` has encoded and those given to `event_send`. -/
structure State where
  osDetectQ : List OsDetectQueue
  osDetectGoSem : Nat
  ebufOs : Mem
  eventToSend : EventPtr
  agentToSend : Nat
  osReadLocked : Bool
  worker : Worker
  main : MainThread
  encoded : List Reply
  sent : List Reply

/-- After `init_osscan`. -/
def initial (ebuf : Mem) : State where
  osDetectQ := []
  osDetectGoSem := 0
  ebufOs := ebuf
  eventToSend := .null
  agentToSend := 0
  osReadLocked := true
  worker := .asleep
  main := .outside
  encoded := []
  sent := []

def State.event (s : State) : List UInt8 := slice s.ebufOs 0 (hdrLen s.ebufOs)

inductive Action where
  | request
  | post
  | trylock
  | send
  | wake
  | dequeue
  | scan
  | encode
  | storeEvent
  | storeAgent
  | unlock
deriving DecidableEq, Repr

variable (L : Libc)

inductive Step : State → Action → State → Prop
  | request {s : State} {e : Mem} {ports : List UInt8} {agent : Nat} {q : OsDetectQueue}
      (outside : s.main = .outside) (string : IsCString e sizeofOsScanE ports)
      (accepted : handleOsscanRequest e ports agent = some q) :
      Step s .request { s with osDetectQ := s.osDetectQ ++ [q], main := .posting }
  | post {s : State} (posting : s.main = .posting) :
      Step s .post { s with osDetectGoSem := s.osDetectGoSem + 1, main := .outside }
  | busy {s : State} (outside : s.main = .outside) (locked : s.osReadLocked = true) :
      Step s .trylock s
  | trylock {s : State} (outside : s.main = .outside) (unlocked : s.osReadLocked = false) :
      Step s .trylock { s with osReadLocked := true, main := .sending }
  | send {s : State} (sending : s.main = .sending) (event : s.eventToSend = .ehOs) :
      Step s .send { s with sent := s.sent ++ [⟨s.event, s.agentToSend⟩], main := .outside }
  | wake {s : State} {n : Nat} (asleep : s.worker = .asleep) (posted : s.osDetectGoSem = n + 1) :
      Step s .wake { s with osDetectGoSem := n, worker := .awake }
  | dequeue {s : State} {q : OsDetectQueue} {rest : List OsDetectQueue}
      (awake : s.worker = .awake) (queued : s.osDetectQ = q :: rest) :
      Step s .dequeue { s with osDetectQ := rest, worker := .scanning q }
  | dequeueNothing {s : State} (awake : s.worker = .awake) (empty : s.osDetectQ = []) :
      Step s .dequeue { s with worker := .asleep }
  | scanned {s : State} {q : OsDetectQueue} {n : NmapScan} (scanning : s.worker = .scanning q) :
      Step s .scan { s with worker := .scanned q n }
  | scanFailed {s : State} {q : OsDetectQueue} (scanning : s.worker = .scanning q) :
      Step s .scan { s with worker := .asleep }
  | encode {s : State} {q : OsDetectQueue} {n : NmapScan} {ebuf : Mem}
      (scanned : s.worker = .scanned q n)
      (written : ebuf = store s.ebufOs 0 (osscanReply L n q.np)) :
      Step s .encode
        { s with
          ebufOs := ebuf
          encoded := s.encoded ++ [⟨slice ebuf 0 (hdrLen ebuf), q.agent⟩]
          worker := .encoded q }
  | storeEvent {s : State} {q : OsDetectQueue} (encoded : s.worker = .encoded q) :
      Step s .storeEvent { s with eventToSend := .ehOs, worker := .eventStored q }
  | storeAgent {s : State} {q : OsDetectQueue} (stored : s.worker = .eventStored q) :
      Step s .storeAgent { s with agentToSend := q.agent, worker := .agentStored q }
  | unlock {s : State} {q : OsDetectQueue} (stored : s.worker = .agentStored q) :
      Step s .unlock { s with osReadLocked := false, worker := .asleep }

/-! ## The mailbox -/

def Worker.filling : Worker → Option OsDetectQueue
  | .encoded q | .eventStored q | .agentStored q => some q
  | _ => none

/-- The mailbox is empty: its flag is down, and nothing is being taken out of it. -/
def State.Free (s : State) : Prop := s.osReadLocked = true ∧ s.main ≠ .sending

/-- The agent that the event in `ebuf_os` will be sent to. -/
def State.recipient (s : State) : Nat :=
  match s.worker.filling with
  | some q => q.agent
  | none => s.agentToSend

def State.Stored (s : State) : Prop :=
  match s.worker with
  | .encoded _ => True
  | .eventStored _ => s.eventToSend = .ehOs
  | _ => s.eventToSend = .ehOs ∧ s.agentToSend = s.recipient

inductive Mailbox (s : State) : Prop
  | empty (free : s.Free) (worker : s.worker.filling = none) (sent : s.encoded = s.sent)
  | filling (free : s.Free) (worker : s.worker.filling ≠ none) (stored : s.Stored)
      (pending : s.encoded = s.sent ++ [⟨s.event, s.recipient⟩])
  | full (flag : s.osReadLocked = false ↔ s.main ≠ .sending) (worker : s.worker.filling = none)
      (event : s.eventToSend = .ehOs)
      (pending : s.encoded = s.sent ++ [⟨s.event, s.agentToSend⟩])

variable {L}

/-- A step that touches neither the mailbox nor the replies, and leaves the worker outside of
    `send_osscan_reply`. -/
theorem Mailbox.frame {s s' : State} (h : Mailbox s) (hebuf : s'.ebufOs = s.ebufOs)
    (hevent : s'.eventToSend = s.eventToSend) (hagent : s'.agentToSend = s.agentToSend)
    (hlocked : s'.osReadLocked = s.osReadLocked)
    (hmain : s'.main = .sending ↔ s.main = .sending)
    (hworker : s'.worker = s.worker ∨ s.worker.filling = none ∧ s'.worker.filling = none)
    (hencoded : s'.encoded = s.encoded) (hsent : s'.sent = s.sent) : Mailbox s' := by
  have hmessage : s'.event = s.event := by simp only [State.event, hebuf]
  have hfree : s.Free → s'.Free := fun hfree => by
    simpa only [State.Free, hlocked, ne_eq, hmain] using hfree
  have hfilling : s'.worker.filling = s.worker.filling := by
    rcases hworker with h | ⟨h, h'⟩
    · rw [h]
    · rw [h, h']
  cases h with
  | empty free worker sent =>
    exact .empty (hfree free) (hfilling.trans worker) (by rw [hencoded, hsent, sent])
  | filling free worker stored pending =>
    obtain hsame : s'.worker = s.worker := hworker.resolve_right fun h => worker h.1
    refine .filling (hfree free) (hfilling ▸ worker) ?_ ?_
    · simpa only [State.Stored, State.recipient, hsame, hevent, hagent] using stored
    · simpa only [hencoded, hsent, hmessage, State.recipient, hsame, hagent] using pending
  | full flag worker event pending =>
    refine .full (by rw [hlocked, ne_eq, hmain]; exact flag) (hfilling.trans worker)
      (hevent.trans event) ?_
    rw [hencoded, hsent, hmessage, hagent, pending]

/-- One step keeps the mailbox in order, if no reply is encoded while it is full. -/
theorem Mailbox.step {s s' : State} {action : Action} (h : Mailbox s)
    (hstep : Step L s action s') (hencode : action = .encode → s.Free) : Mailbox s' := by
  cases hstep with
  | request outside | post posting | busy outside locked | wake asleep posted
  | dequeue awake queued | dequeueNothing awake empty | scanned scanning | scanFailed scanning =>
    refine h.frame rfl rfl rfl rfl ?_ ?_ rfl rfl <;> simp_all [Worker.filling]
  | trylock outside unlocked =>
    cases h with
    | empty free => exact absurd free.1 (by simp [unlocked])
    | filling free => exact absurd free.1 (by simp [unlocked])
    | full flag worker event pending => exact .full (by simp) worker event pending
  | send sending event =>
    cases h with
    | empty free => exact absurd sending free.2
    | filling free => exact absurd sending free.2
    | full flag worker event pending =>
      have locked : s.osReadLocked = true := by simpa [sending] using flag
      exact .empty ⟨locked, by simp⟩ worker pending
  | @encode q n ebuf scanned written =>
    obtain free := hencode rfl
    cases h with
    | empty _ worker sent =>
      refine .filling free (by simp [Worker.filling]) trivial ?_
      simp [State.recipient, Worker.filling, State.event, sent]
    | filling _ worker => exact absurd (by rw [scanned]; rfl) worker
    | full flag => exact absurd (flag.mpr free.2) (by simp [free.1])
  | @storeEvent q encoded =>
    cases h with
    | empty _ worker => simp [encoded, Worker.filling] at worker
    | filling free worker stored pending =>
      refine .filling free (by simp [Worker.filling]) rfl ?_
      simpa [State.recipient, Worker.filling, encoded, State.event] using pending
    | full _ worker => simp [encoded, Worker.filling] at worker
  | @storeAgent q stored =>
    cases h with
    | empty _ worker => simp [stored, Worker.filling] at worker
    | filling free worker event pending =>
      refine .filling free (by simp [Worker.filling]) ⟨?_, rfl⟩ ?_
      · simpa [State.Stored, stored] using event
      · simpa [State.recipient, Worker.filling, stored, State.event] using pending
    | full _ worker => simp [stored, Worker.filling] at worker
  | @unlock q stored =>
    cases h with
    | empty _ worker => simp [stored, Worker.filling] at worker
    | filling free worker contents pending =>
      obtain ⟨event, agent⟩ : s.eventToSend = .ehOs ∧ s.agentToSend = s.recipient := by
        simpa only [State.Stored, stored] using contents
      refine .full (by simp [free.2]) rfl event ?_
      rw [← agent] at pending
      exact pending
    | full _ worker => simp [stored, Worker.filling] at worker

theorem initial_mailbox (ebuf : Mem) : Mailbox (initial ebuf) :=
  .empty ⟨rfl, by simp [initial]⟩ rfl rfl

/-! ## Replies are sent once -/

/-- Every reply encoded so far has been given to `event_send` once, in order, with its bytes and
    its agent; the last may still be in `ebuf_os`, on its way to its agent.  `event_send` gives
    away that one, and a turn of `osscan_timer` gets there once the worker is done with it. -/
structure ExactlyOnce (L : Libc) (s : State) : Prop where
  order : s.encoded = s.sent ∨ s.encoded = s.sent ++ [⟨s.event, s.recipient⟩]
  onWay : s.encoded ≠ s.sent →
    s.worker.filling ≠ none ∨ s.osReadLocked = false ∨ s.main = .sending
  sends : ∀ s', Step L s .send s' → s'.encoded = s'.sent
  tick : s.osReadLocked = false → s.main = .outside →
    ∃ s' s'', Step L s .trylock s' ∧ Step L s' .send s'' ∧ s''.sent = s.encoded

theorem Mailbox.exactlyOnce {s : State} (h : Mailbox s) : ExactlyOnce L s := by
  have hsends : ∀ s', Step L s .send s' → s'.encoded = s'.sent := by
    intro s' hstep
    cases hstep with
    | send sending event =>
      cases h with
      | empty free => exact absurd sending free.2
      | filling free => exact absurd sending free.2
      | full _ _ _ pending => exact pending
  cases h with
  | empty free _ sent =>
    exact ⟨.inl sent, fun hne => absurd sent hne, hsends, fun hflag => by simp [free.1] at hflag⟩
  | filling free worker _ pending =>
    exact ⟨.inr pending, fun _ => .inl worker, hsends, fun hflag => by simp [free.1] at hflag⟩
  | full flag worker event pending =>
    have hrecipient : s.recipient = s.agentToSend := by rw [State.recipient, worker]
    refine ⟨.inr (hrecipient ▸ pending), fun _ => .inr ?_, hsends, fun hflag houtside => ?_⟩
    · by_cases hmain : s.main = .sending
      · exact .inr hmain
      · exact .inl (flag.mpr hmain)
    · exact ⟨_, _, .trylock houtside hflag, .send rfl event, pending.symm⟩

/-- In every run in which no reply is encoded before `event_send` is done with the last one. -/
theorem replies_exactlyOnce {ebuf : Mem} {history : List Action} {s : State}
    (run : Run (Guarded (fun s action => action = .encode → s.Free) (Step L)) (initial ebuf)
      history s) : ExactlyOnce L s :=
  (run.state_invariant (initial_mailbox ebuf) fun _ _ _ h hstep =>
    h.step hstep.2 hstep.1).exactlyOnce

/-- A reply encoded too early takes the place of the last one. -/
theorem encode_overwrites {s s' : State} (h : Mailbox s) (hstep : Step L s .encode s')
    (hfree : ¬ s.Free) : ¬ ExactlyOnce L s' := by
  cases hstep with
  | encode scanned written =>
    cases h with
    | empty free => exact absurd free hfree
    | filling free => exact absurd free hfree
    | full _ _ _ pending =>
      intro h
      rcases h.order with horder | horder
      all_goals
        have hlen := congrArg List.length horder
        simp [pending] at hlen

/-! ### Two requests -/

def bareRequest : Mem := fun i => if i = 8 then 1 else 0

def bareEntry (agent : Nat) : OsDetectQueue where
  name := text "0.0.0.0"
  np := [1, 0, 0, 0, 0, 0, 0, 0]
  agent := agent
  flags := 0
  ports := []

def noHost : NmapScan := ⟨[], [], none, none, none⟩

def bareLibc : Libc := ⟨fun _ => 0, fun _ => 0⟩

theorem bareRequest_accepted :
    handleOsscanRequest bareRequest [] 1 = some (bareEntry 1) ∧
    handleOsscanRequest bareRequest [] 2 = some (bareEntry 2) := by
  decide +kernel

/-- Two requests, each served and answered before the next is served. -/
theorem replies_exactlyOnce_two :
    ∃ s, s.encoded.map (·.agent) = [1, 2] ∧ s.sent.map (·.agent) = [1, 2] ∧
      ExactlyOnce bareLibc s := by
  have quiet {s s' : State} {action : Action} (hstep : Step bareLibc s action s')
      (h : action ≠ .encode) :
      Guarded (fun s action => action = .encode → s.Free) (Step bareLibc) s action s' :=
    ⟨fun heq => absurd heq h, hstep⟩
  have bare : IsCString bareRequest sizeofOsScanE [] := by decide
  refine ⟨_, ?_, ?_, @replies_exactlyOnce bareLibc (fun _ => 0) _ _ <|
    .cons (quiet (.request rfl bare bareRequest_accepted.1) nofun) <|
    .cons (quiet (.post rfl) nofun) <|
    .cons (quiet (.wake rfl rfl) nofun) <| .cons (quiet (.dequeue rfl rfl) nofun) <|
    .cons (quiet (.scanned (n := noHost) rfl) nofun) <|
    .cons ⟨fun _ => ⟨rfl, by decide⟩, .encode rfl rfl⟩ <|
    .cons (quiet (.storeEvent rfl) nofun) <| .cons (quiet (.storeAgent rfl) nofun) <|
    .cons (quiet (.unlock rfl) nofun) <| .cons (quiet (.trylock rfl rfl) nofun) <|
    .cons (quiet (.send rfl rfl) nofun) <|
    .cons (quiet (.request rfl bare bareRequest_accepted.2) nofun) <|
    .cons (quiet (.post rfl) nofun) <|
    .cons (quiet (.wake rfl rfl) nofun) <| .cons (quiet (.dequeue rfl rfl) nofun) <|
    .cons (quiet (.scanned (n := noHost) rfl) nofun) <|
    .cons ⟨fun _ => ⟨rfl, by decide⟩, .encode rfl rfl⟩ <|
    .cons (quiet (.storeEvent rfl) nofun) <| .cons (quiet (.storeAgent rfl) nofun) <|
    .cons (quiet (.unlock rfl) nofun) <| .cons (quiet (.trylock rfl rfl) nofun) <|
    .cons (quiet (.send rfl rfl) nofun) .refl⟩
  all_goals rfl

/-- Two requests served within one period of the timer: the first client gets no reply. -/
theorem reply_lost :
    ∃ history s, Run (Step bareLibc) (initial fun _ => 0) history s ∧
      s.encoded.map (·.agent) = [1, 2] ∧ s.sent.map (·.agent) = [2] ∧ s.worker = .asleep ∧
      s.osDetectQ = [] ∧ ¬ ExactlyOnce bareLibc s := by
  have bare : IsCString bareRequest sizeofOsScanE [] := by decide
  refine ⟨_, _,
    .cons (.request rfl bare bareRequest_accepted.1) <| .cons (.post rfl) <|
    .cons (.request rfl bare bareRequest_accepted.2) <| .cons (.post rfl) <|
    .cons (.wake rfl rfl) <| .cons (.dequeue rfl rfl) <| .cons (.scanned (n := noHost) rfl) <|
    .cons (.encode rfl rfl) <| .cons (.storeEvent rfl) <| .cons (.storeAgent rfl) <|
    .cons (.unlock rfl) <| .cons (.wake rfl rfl) <| .cons (.dequeue rfl rfl) <|
    .cons (.scanned (n := noHost) rfl) <| .cons (.encode rfl rfl) <| .cons (.storeEvent rfl) <|
    .cons (.storeAgent rfl) <| .cons (.unlock rfl) <| .cons (.trylock rfl rfl) <|
    .cons (.send rfl rfl) .refl, rfl, rfl, rfl, rfl, fun h => ?_⟩
  rcases h.order with horder | horder
  all_goals
    have hagents := congrArg (List.map (·.agent)) horder
    revert hagents
    decide +kernel

end Cheops.OsScan
