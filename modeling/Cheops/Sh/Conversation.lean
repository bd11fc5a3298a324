import Cheops.Event.Login
import Cheops.Sh.Login

/-! # The shell and the agent (`cheops-sh-guts.c`, `event.c`)

The shell and an agent that wants a login, with the events that are under way between them.  Lines
are typed, both sides take the events in the order in which they have been sent, and the other parts
of the agent send events whenever they like.

`login_answers` says that no login is lost and none is answered twice or out of turn, and that the
agent refuses nothing of a shell that has been told that its login was good.
-/

namespace Cheops.Sh

open Cheops.Lib Cheops.Event Cheops.Fields Cheops.Misc

variable {σ : Type}

/-! ## The agent -/

/-- What the functions of the agent change: the events that they send on the connection, and
    everything else. -/
abbrev World (σ : Type) := σ × List (List UInt8)

def eventSend (_ : Nat) (bs : List UInt8) (w : World σ) : World σ := (w.1, w.2 ++ [bs])

/-- `ntohs(h->type)` of a message, and `ntohl(e->auth_request_r.authenticated)`. -/
def messageType (m : List UInt8) : Nat := beNat ((m.drop 6).take 2)
def authenticated (m : List UInt8) : Nat := beNat ((m.drop 12).take 4)

def isAnswer (m : List UInt8) : Bool := messageType m == REPLY_AUTH_REQUEST

/-- Events are added to those that have been sent, and no answers to logins are among them. -/
def SendsOn (w w' : World σ) : Prop := ∃ out, w'.2 = w.2 ++ out ∧ ∀ m ∈ out, isAnswer m = false

/-- The handlers of the agent.  `send_auth_request_reply` is not called in them. -/
structure Handlers (σ : Type) extends AgentHandlers (World σ) where
  sends : ∀ p ∈ agentHandlers toAgentHandlers, ∀ id h e w, SendsOn w (p.2 id h e w)

/-- The agent, after `authenticate_clients(1)`. -/
def server (C : Accounts) (H : Handlers σ) : Server (World σ) :=
  agentServer C.passwords eventSend H.toAgentHandlers true

/-- What `handle_auth_request` makes of a name and a password. -/
def Accounts.accepts (C : Accounts) (user pass : List UInt8) : Bool :=
  match C.getpwnam user with
  | none => false
  | some pwName =>
    match C.getspnam pwName with
    | none => false
    | some spPwdp => spPwdp == C.crypt pass spPwdp

def verdict (C : Accounts) (e : Mem) : Nat :=
  if Accounts.accepts C (cstring (username e) 0) (cstring (password e) 0) then 1 else 0

/-! ## The connection -/

/-- The shell, the flags that the agent keeps for the connection, the rest of the agent, and the
    events under way. -/
structure Connection (σ : Type) where
  shell : Shell
  agent : UInt32
  rest : σ
  toAgent : List (List UInt8)
  toShell : List (List UInt8)

/-- `handle_ipv4_connect` sends an answer before any login, `handle_unix_connect` does not. -/
def connect (ipv4 : Bool) (rest : σ) : Connection σ where
  shell := initial
  agent := 0
  rest := rest
  toAgent := []
  toShell := if ipv4 then [authRequestReply 0] else []

def Shell.receive (o : ByteOrder) (m : List UInt8) (sh : Shell) : Shell :=
  if messageType m = 102 then addToDiscoveredList (o.num ((m.drop 12).take 4)) sh else sh

inductive Label where
  | typed (line : List UInt8)
  | told (authenticated : Nat)
  | received
  | disposed (d : Dispatch)
  | elsewhere

/-- A line is typed; the shell or the agent takes the next event; or the agent sends one.  The
    message of the agent is at the start of a buffer, with anything behind it. -/
inductive Converses (o : ByteOrder) (C : Accounts) (H : Handlers σ) :
    Connection σ → Label → Connection σ → Prop
  | typed {c env line es sh'} (step : Step o c.shell (.line env line, es) sh') :
      Converses o C H c (.typed line)
        { c with shell := sh', toAgent := c.toAgent ++ es.map (SentEvent.bytes o) }
  | told {c m ms i es sh'} (next : c.toShell = m :: ms) (answer : isAnswer m = true)
      (reply : if authenticated m ≠ 0 then i = .authenticated
        else ∃ username password sends, i = .refused username password sends)
      (step : Step o c.shell (i, es) sh') :
      Converses o C H c (.told (authenticated m))
        { c with shell := sh', toShell := ms, toAgent := c.toAgent ++ es.map (SentEvent.bytes o) }
  | received {c m ms} (next : c.toShell = m :: ms) (other : isAnswer m = false) :
      Converses o C H c .received { c with shell := c.shell.receive o m, toShell := ms }
  | disposed {c m ms id a} (next : c.toAgent = m :: ms) (stands : StandsAt a.buffer 0 m)
      (flags : a.flags = c.agent) :
      Converses o C H c (.disposed (dispatch (server C H) id a (c.rest, [])).1)
        { c with
          agent := (dispatch (server C H) id a (c.rest, [])).2.1
          rest := (dispatch (server C H) id a (c.rest, [])).2.2.1
          toAgent := ms
          toShell := c.toShell ++ (dispatch (server C H) id a (c.rest, [])).2.2.2 }
  | elsewhere {c rest out} (other : ∀ m ∈ out, isAnswer m = false) :
      Converses o C H c .elsewhere { c with rest := rest, toShell := c.toShell ++ out }

/-! ## The messages -/

theorem messageType_eventHdr (len hlen type flags : Nat) (body : List UInt8) :
    messageType (eventHdr len hlen type flags ++ body) = type % 2 ^ 16 := by
  have front : (toBe 4 len ++ toBe 2 hlen).length = 6 := by simp
  rw [messageType, eventHdr, List.append_assoc, List.append_assoc, List.drop_left' front,
    List.take_left' length_toBe, beNat_toBe]
  rfl

theorem isAnswer_error (error : Nat) (c : List UInt8) :
    isAnswer (cheopsErrorEvent error c) = false := by
  unfold isAnswer cheopsErrorEvent
  rw [List.append_assoc, List.append_assoc, messageType_eventHdr]
  rfl

theorem isAnswer_authRequestReply (n : Nat) : isAnswer (authRequestReply n) = true := by
  unfold isAnswer authRequestReply
  rw [messageType_eventHdr]
  rfl

theorem authenticated_authRequestReply (n : Nat) :
    authenticated (authRequestReply n) = n % 2 ^ 32 := by
  have header : (eventHdr 16 sizeofEventHdr REPLY_AUTH_REQUEST 0).length = 12 := by
    simp [eventHdr]
  rw [authenticated, authRequestReply, List.drop_left' header,
    List.take_of_length_le (by rw [length_toBe]), beNat_toBe]
  rfl

section Agent

variable {C : Accounts} {H : Handlers σ} {w w' : World σ} {id : Nat} {a : Agent}

theorem SendsOn.refl (w : World σ) : SendsOn w w := ⟨[], by simp, by simp⟩

theorem sendsOn_unsupported (h : Mem) (w : World σ) :
    SendsOn w (unsupportedReply (server C H) id h w) := by
  unfold unsupportedReply
  split
  · refine ⟨[_], rfl, fun m member => ?_⟩
    rw [List.mem_singleton.mp member]
    exact isAnswer_error _ _
  · exact .refl w

/-- The table has the handlers that are registered. -/
theorem server_handlers {type : Nat} {handler : Handler (World σ)}
    (other : type ≠ EVENT_AUTH_REQUEST)
    (found : (server C H).handlers type = some handler) :
    ∃ f : PlainHandler (World σ), (type, f) ∈ agentHandlers H.toAgentHandlers ∧
      handler = f.handler := by
  have table : (server C H).handlers type =
      ((agentHandlers H.toAgentHandlers).find? fun p => decide (p.1 = type)).map fun p =>
        p.2.handler := by
    unfold server
    rw [agentServer_handlers]
    by_cases known : type ∈ [REPLY_ERROR, EVENT_DISCOVER_IPV4, EVENT_OS_SCAN, EVENT_SET_SETTINGS,
      EVENT_MAP_ICMP, EVENT_PROBE]
    case pos =>
      simp only [List.mem_cons, List.not_mem_nil, or_false] at known
      rcases known with rfl | rfl | rfl | rfl | rfl | rfl
      all_goals rfl
    case neg =>
      simp only [List.mem_cons, List.not_mem_nil, or_false, not_or] at known
      obtain ⟨h₁, h₂, h₃, h₄, h₅, h₆⟩ := known
      have absent : ((agentHandlers H.toAgentHandlers).find? fun p => decide (p.1 = type)) =
          none := by
        simp [agentHandlers, Ne.symm h₁, Ne.symm h₂, Ne.symm h₃, Ne.symm h₄, Ne.symm h₅,
          Ne.symm h₆]
      rw [absent]
      change (if type = EVENT_PROBE then _ else if type = EVENT_MAP_ICMP then _
        else if type = EVENT_SET_SETTINGS then _ else if type = EVENT_DISCOVER_IPV4 then _
        else if type = EVENT_OS_SCAN then _ else if type = REPLY_ERROR then _
        else if type = EVENT_AUTH_REQUEST then _ else Option.none) = _
      simp [h₁, h₂, h₃, h₄, h₅, h₆, other]
  rw [table] at found
  obtain ⟨⟨t, f⟩, first, rfl⟩ := Option.map_eq_some_iff.mp found
  obtain rfl : t = type := by simpa using List.find?_some first
  exact ⟨f, List.mem_of_find?_eq_some first, rfl⟩

/-- A login is answered, and the flags are set if it is good. -/
theorem handleAuthRequest_answer (h e : Mem) (flags : UInt32) (w : World σ) :
    handleAuthRequest C.passwords eventSend id h e flags w =
      (if verdict C e = 1 then flags ||| AGENT_FLAGS_LOGGED_IN else flags,
        (w.1, w.2 ++ [authRequestReply (verdict C e)])) := by
  unfold handleAuthRequest verdict Accounts.accepts Accounts.passwords eventSend
  simp only
  cases C.getpwnam (cstring (username e) 0) with
  | none => rfl
  | some pwName =>
    cases known : C.getspnam pwName with
    | none => simp [known]
    | some spPwdp =>
      simp only [known]
      by_cases same : spPwdp = C.crypt (cstring (password e) 0) spPwdp
      · rw [if_pos same, ← same]
        simp
      · rw [if_neg same]
        simp [same]

/-- A login is always handled. -/
theorem dispatch_auth (small : ¬ hdrHlen a.buffer > hdrLen a.buffer)
    (type : hdrType a.buffer = EVENT_AUTH_REQUEST) (w : World σ) :
    dispatch (server C H) id a w =
      (a.disposed .handled,
        handleAuthRequest C.passwords eventSend id a.buffer a.event a.flags w) := by
  have handler : (server C H).handlers EVENT_AUTH_REQUEST =
      some (handleAuthRequest C.passwords eventSend) := agentServer_auth
  unfold dispatch
  rw [if_neg (by rw [type]; decide), if_neg small, type]
  split
  · rw [handler]
  · rw [if_pos rfl]
    have entry : ((server C H).handlers EVENT_AUTH_REQUEST).get (server C H).authRegistered =
        handleAuthRequest C.passwords eventSend := by
      apply Option.some.inj
      rw [Option.some_get, handler]
    rw [entry]

/-- Another event leaves the flags alone. -/
theorem dispatch_other (C : Accounts) (H : Handlers σ) (id : Nat)
    (type : hdrType a.buffer ≠ EVENT_AUTH_REQUEST) (w : World σ) :
    (dispatch (server C H) id a w).1.type ≠ EVENT_AUTH_REQUEST ∧
      (dispatch (server C H) id a w).2.1 = a.flags ∧
      SendsOn w (dispatch (server C H) id a w).2.2 := by
  unfold dispatch
  split
  · exact ⟨type, rfl, .refl w⟩
  split
  · exact ⟨type, rfl, .refl w⟩
  split
  · split
    next handler found =>
      obtain ⟨f, member, rfl⟩ := server_handlers type found
      exact ⟨type, rfl, H.sends _ member _ _ _ _⟩
    next => exact ⟨type, rfl, sendsOn_unsupported _ w⟩
  · exact ⟨type, rfl, sendsOn_unsupported _ w⟩

/-- Nothing is refused of somebody who has logged in. -/
theorem dispatch_logged (S : Server (World σ)) (logged : LoggedIn a.flags) (w : World σ) :
    (dispatch S id a w).1.disposal ≠ .refused := by
  unfold dispatch
  split
  · simp [Agent.disposed]
  split
  · simp [Agent.disposed]
  split
  · split <;> simp [Agent.disposed]
  next closed => exact absurd (.inl logged) closed

end Agent

/-! ## Runs -/

def told (history : List Label) : List Nat :=
  history.filterMap fun
    | .told n => some n
    | _ => none

def logins (history : List Label) : List Mem :=
  history.filterMap fun
    | .disposed d =>
      if d.disposal = .handled ∧ d.type = EVENT_AUTH_REQUEST then some d.event else none
    | _ => none

def loginsOf (es : List SentEvent) : List SentEvent := es.filter (·.type == EVENT_AUTH_REQUEST)

def answersOf (ms : List (List UInt8)) : List Nat := (ms.filter isAnswer).map authenticated

/-- The logins of the shell that have been handled, with the events that the agent has found, and
    those that are under way. -/
structure Queue (o : ByteOrder) (history : List Label) (c : Connection σ)
    (gone pending : List SentEvent) : Prop where
  sent : c.shell.sent = gone ++ pending
  toAgent : c.toAgent = pending.map (SentEvent.bytes o)
  handled : List.Forall₂ (fun e s => StandsAt e 0 s.event) (logins history) (loginsOf gone)

structure Inv (o : ByteOrder) (C : Accounts) (ipv4 : Bool) (history : List Label)
    (c : Connection σ) : Prop where
  answers : told history ++ answersOf c.toShell =
    (if ipv4 then [0] else []) ++ (logins history).map (verdict C)
  flags : LoggedIn c.agent ↔ ∃ e ∈ logins history, verdict C e = 1
  requests : ∀ e ∈ c.shell.sent, Request e.type e.event.length
  queue : ∃ gone pending, Queue o history c gone pending

variable {o : ByteOrder} {C : Accounts} {H : Handlers σ} {ipv4 : Bool}
  {history pre post : List Label} {c c' : Connection σ} {l : Label}
  {gone pending es : List SentEvent}

theorem told_append (first second : List Label) :
    told (first ++ second) = told first ++ told second := List.filterMap_append

theorem logins_append (first second : List Label) :
    logins (first ++ second) = logins first ++ logins second := List.filterMap_append

theorem answersOf_append (ms ms' : List (List UInt8)) :
    answersOf (ms ++ ms') = answersOf ms ++ answersOf ms' := by
  unfold answersOf
  rw [List.filter_append, List.map_append]

theorem answersOf_nil_of {out : List (List UInt8)} (other : ∀ m ∈ out, isAnswer m = false) :
    answersOf out = [] := by
  unfold answersOf
  rw [List.filter_eq_nil_iff.mpr fun m member => by rw [other m member]; exact Bool.false_ne_true]
  rfl

theorem init_inv (rest : σ) : Inv o C ipv4 [] (connect ipv4 rest) where
  answers := by
    cases ipv4 with
    | false => rfl
    | true =>
      change [authenticated (authRequestReply 0)] = _
      rw [authenticated_authRequestReply]
      rfl
  flags := by simpa [logins, connect] using not_loggedIn_zero
  requests := by simp [connect, initial]
  queue := ⟨[], [], rfl, rfl, .nil⟩

/-- The shell sends events, and no login has been handled. -/
theorem Inv.sends (inv : Inv o C ipv4 history c) {sh' : Shell} {i : Input}
    (hstep : Step o c.shell (i, es) sh') (quiet : logins [l] = [])
    (answers : told [l] ++ answersOf c'.toShell = answersOf c.toShell)
    (shell : c'.shell = sh') (agent : c'.agent = c.agent)
    (toAgent : c'.toAgent = c.toAgent ++ es.map (SentEvent.bytes o)) :
    Inv o C ipv4 (history ++ [l]) c' := by
  obtain ⟨-, run, sent⟩ := hstep
  obtain ⟨-, es', sends⟩ := step_sends run
  obtain rfl : es' = es := List.append_cancel_left (sends.sent.symm.trans sent)
  obtain ⟨gone, pending, queue⟩ := inv.queue
  constructor
  · rw [told_append, logins_append, quiet, List.append_nil, List.append_assoc, answers]
    exact inv.answers
  · rw [logins_append, quiet, List.append_nil, agent]
    exact inv.flags
  · rw [shell, sent]
    intro e member
    rcases List.mem_append.mp member with early | late
    · exact inv.requests e early
    · exact sends.requests e late
  · refine ⟨gone, pending ++ es', ?_, ?_, ?_⟩
    · rw [shell, sent, queue.sent, List.append_assoc]
    · rw [toAgent, queue.toAgent, List.map_append]
    · rw [logins_append, quiet, List.append_nil]
      exact queue.handled

/-- The agent sends other events than answers, and the shell may take one. -/
theorem Inv.other (inv : Inv o C ipv4 history c) (quiet : logins [l] = []) (none : told [l] = [])
    (answers : answersOf c'.toShell = answersOf c.toShell)
    (sent : c'.shell.sent = c.shell.sent) (agent : c'.agent = c.agent)
    (queue : ∃ gone pending, Queue o history c' gone pending) :
    Inv o C ipv4 (history ++ [l]) c' := by
  obtain ⟨gone, pending, queue⟩ := queue
  constructor
  · rw [told_append, logins_append, quiet, none, List.append_nil, List.append_nil, answers]
    exact inv.answers
  · rw [logins_append, quiet, List.append_nil, agent]
    exact inv.flags
  · rw [sent]
    exact inv.requests
  · refine ⟨gone, pending, queue.sent, queue.toAgent, ?_⟩
    rw [logins_append, quiet, List.append_nil]
    exact queue.handled

theorem Queue.next {m : List UInt8} {ms : List (List UInt8)}
    (queue : Queue o history c gone pending) (next : c.toAgent = m :: ms) :
    ∃ e rest, pending = e :: rest ∧ m = e.bytes o ∧ ms = rest.map (SentEvent.bytes o) := by
  rw [queue.toAgent] at next
  cases pending with
  | nil => cases next
  | cons e rest =>
    obtain ⟨rfl, rfl⟩ := List.cons.inj next
    exact ⟨e, rest, rfl, rfl, rfl⟩

theorem receive_sent (o : ByteOrder) (m : List UInt8) (sh : Shell) :
    (sh.receive o m).sent = sh.sent := by
  unfold Shell.receive addToDiscoveredList
  split_ifs <;> rfl

theorem Inv.step (inv : Inv o C ipv4 history c) (hstep : Converses o C H c l c') :
    Inv o C ipv4 (history ++ [l]) c' := by
  obtain ⟨gone, pending, queue⟩ := inv.queue
  cases hstep with
  | typed hstep => exact inv.sends hstep rfl rfl rfl rfl rfl
  | @told m ms _ _ _ next answer _ hstep =>
    refine inv.sends hstep rfl ?_ rfl rfl rfl
    unfold answersOf
    rw [next, List.filter_cons_of_pos answer]
    rfl
  | @received m ms next other =>
    refine inv.other rfl rfl ?_ (receive_sent o m c.shell) rfl ⟨gone, pending, ?_, queue.toAgent,
      queue.handled⟩
    · unfold answersOf
      rw [next, List.filter_cons_of_neg (by simp [other])]
    · exact (receive_sent o m c.shell).trans queue.sent
  | @elsewhere rest out other =>
    refine inv.other rfl rfl ?_ rfl rfl ⟨gone, pending, queue.sent, queue.toAgent, queue.handled⟩
    rw [answersOf_append, answersOf_nil_of other, List.append_nil]
  | @disposed m ms id a next stands flags =>
    obtain ⟨e, rest, rfl, rfl, rfl⟩ := queue.next next
    have request : Request e.type e.event.length := inv.requests e (by simp [queue.sent])
    obtain ⟨len, hlen, type, event⟩ := standsAt_bytes stands
    rw [Nat.mod_eq_of_lt request.1] at type
    by_cases login : e.type = EVENT_AUTH_REQUEST
    case pos =>
      rw [login] at type
      have size := request.2 login
      have whole : ¬ hdrHlen a.buffer > hdrLen a.buffer := by
        rw [len, hlen, size, sizeofEventHdr]
        decide
      have event : StandsAt a.event 0 e.event := event
      have one : logins [.disposed (a.disposed .handled)] = [a.event] := by
        simp [logins, Agent.disposed, type]
      have reply : answersOf [authRequestReply (verdict C a.event)] = [verdict C a.event] := by
        unfold answersOf verdict
        rw [List.filter_cons_of_pos (isAnswer_authRequestReply _), List.filter_nil,
          List.map_singleton, authenticated_authRequestReply]
        split <;> rfl
      simp only [dispatch_auth whole type, handleAuthRequest_answer, List.nil_append]
      constructor
      · have none : told [.disposed (a.disposed .handled)] = [] := rfl
        rw [told_append, none, List.append_nil, logins_append, one, List.map_append,
          List.map_singleton, answersOf_append, reply, ← List.append_assoc (told history),
          inv.answers, List.append_assoc]
      · rw [logins_append, one, flags]
        simp only [List.mem_append, List.mem_singleton, or_and_right, exists_or, exists_eq_left,
          ← inv.flags]
        split
        next good => exact ⟨fun _ => .inr good, fun _ => loggedIn_or _⟩
        next bad => simp [bad]
      · exact inv.requests
      · refine ⟨gone ++ [e], rest, by simp [queue.sent], rfl, ?_⟩
        rw [logins_append, one, loginsOf, List.filter_append]
        refine List.rel_append queue.handled ?_
        rw [List.filter_cons_of_pos (by simp [login])]
        exact .cons event .nil
    case neg =>
      rw [← type] at login
      obtain ⟨kind, kept, out, sent, others⟩ :=
        dispatch_other C H id login (c.rest, [])
      refine inv.other ?_ rfl ?_ rfl (kept.trans flags) ⟨gone ++ [e], rest, ?_, rfl, ?_⟩
      · simp [logins, kind]
      · rw [answersOf_append, sent, List.nil_append, answersOf_nil_of others, List.append_nil]
      · simp [queue.sent]
      · rw [loginsOf, List.filter_append, List.filter_cons_of_neg (by simpa [← type] using login),
          List.filter_nil, List.append_nil]
        exact queue.handled

theorem run_inv {rest : σ} (run : Run (Converses o C H) (connect ipv4 rest) history c) :
    Inv o C ipv4 history c :=
  run.invariant (init_inv rest) fun _ _ _ _ _ inv hstep => inv.step hstep

/-- Every answer of the agent is to the login whose turn it is, the first one apart, with which
    `handle_ipv4_connect` greets the shell; the logins are handled in the order in which the shell
    has sent them.  From the answer to a good login on, the agent refuses none of its events. -/
theorem login_answers {rest : σ} (run : Run (Converses o C H) (connect ipv4 rest) history c) :
    (told history ++ answersOf c.toShell =
      (if ipv4 then [0] else []) ++ (logins history).map (verdict C)) ∧
    (∃ gone pending, c.shell.sent = gone ++ pending ∧ c.toAgent = pending.map (SentEvent.bytes o) ∧
      List.Forall₂ (fun e s => StandsAt e 0 s.event) (logins history) (loginsOf gone)) ∧
    ∀ pre d post, history = pre ++ .disposed d :: post → (∃ n ∈ told pre, n ≠ 0) →
      d.disposal ≠ .refused := by
  have inv := run_inv run
  obtain ⟨gone, pending, queue⟩ := inv.queue
  refine ⟨inv.answers, ⟨gone, pending, queue.sent, queue.toAgent, queue.handled⟩, ?_⟩
  rintro pre d post rfl ⟨n, member, good⟩
  obtain ⟨t, t', before, hstep⟩ := run.split
  have inv := run_inv before
  have logged : LoggedIn t.agent := by
    rw [inv.flags]
    have all : n ∈ (if ipv4 then [0] else []) ++ (logins pre).map (verdict C) := by
      rw [← inv.answers]
      exact List.mem_append_left _ member
    rcases List.mem_append.mp all with greeting | answer
    · split at greeting
      · exact absurd (List.mem_singleton.mp greeting) good
      · cases greeting
    · obtain ⟨e, handled, rfl⟩ := List.mem_map.mp answer
      refine ⟨e, handled, ?_⟩
      unfold verdict at good ⊢
      split
      · rfl
      next no => exact absurd (if_neg no) good
  cases hstep with
  | disposed _ _ flags => exact dispatch_logged _ (flags ▸ logged) _

def rootAccount : Accounts where
  getpwnam user := if user = text "root" then some user else none
  getspnam _ := some (text "hash")
  crypt pass salt := if pass = text "pass" then salt else []

def idleHandlers : Handlers Unit where
  handleError _ _ _ w := w
  handleOsscanRequest _ _ _ w := w
  handleDiscoverRequest _ _ _ w := w
  handleSetSettings _ _ _ w := w
  handleMapIcmpRequest _ _ _ w := w
  handleProbeRequest _ _ _ w := w
  sends p member _ _ _ w := by
    simp only [agentHandlers, List.mem_cons, List.not_mem_nil, or_false] at member
    rcases member with rfl | rfl | rfl | rfl | rfl | rfl
    all_goals exact .refl w

def rootRequest : SentEvent := authRequest (text "root") (text "pass") fun _ => 0

def rootAgent : Agent where
  s := 4
  buffer := store (fun _ => 0) 0 (rootRequest.bytes .little)
  writePtr := 82
  expectedLength := 82
  flags := 0

def rootDispatch : Dispatch × UInt32 × World Unit :=
  dispatch (server rootAccount idleHandlers) 0 rootAgent ((), [])

/-- The shell when it has asked for the name and the password, the request when it has been
    answered, and the answer when it has been taken. -/
def rootAsked : Connection Unit where
  shell := sendAuthRequest (text "root") (text "pass") true initial
  agent := 0
  rest := ()
  toAgent := [rootRequest.bytes .little]
  toShell := []

def rootAnswered : Connection Unit :=
  { rootAsked with
    agent := rootDispatch.2.1
    rest := rootDispatch.2.2.1
    toAgent := []
    toShell := [] ++ rootDispatch.2.2.2 }

def rootTold : Connection Unit := { rootAnswered with toShell := [] }

theorem root_run : Run (Converses .little rootAccount idleHandlers) (connect true ())
    [.told 0, .disposed rootDispatch.1, .told 1] rootTold := by
  have no : authenticated (authRequestReply 0) = 0 := authenticated_authRequestReply 0
  have yes : authenticated (authRequestReply 1) = 1 := authenticated_authRequestReply 1
  have answered : rootDispatch.2.2.2 = [authRequestReply 1] := by decide +kernel
  have asked : Step .little initial (.refused (text "root") (text "pass") true, [rootRequest])
      (sendAuthRequest (text "root") (text "pass") true initial) := ⟨rfl, rfl, rfl⟩
  have quiet : Step .little rootAnswered.shell (.authenticated, []) rootAnswered.shell :=
    ⟨rfl, rfl, (List.append_nil _).symm⟩
  have first : Converses .little rootAccount idleHandlers (connect true ())
      (.told (authenticated (authRequestReply 0))) rootAsked :=
    .told (c := connect true ()) rfl (isAnswer_authRequestReply 0)
      (by rw [no, if_neg (by decide)]; exact ⟨_, _, _, rfl⟩) asked
  have second : Converses .little rootAccount idleHandlers rootAsked (.disposed rootDispatch.1)
      rootAnswered :=
    .disposed (c := rootAsked) (a := rootAgent) rfl
      (show StandsAt (store (fun _ => 0) 0 _) 0 _ from standsAt_store) rfl
  have third : Converses .little rootAccount idleHandlers rootAnswered
      (.told (authenticated (authRequestReply 1))) { rootAnswered with
        toShell := [], toAgent := rootAnswered.toAgent ++ [].map (SentEvent.bytes .little) } :=
    .told (c := rootAnswered) answered (isAnswer_authRequestReply 1)
      (by rw [yes, if_pos (by decide)]) quiet
  rw [no] at first
  rw [yes] at third
  exact .snoc (.snoc (.snoc .refl first) second) third

def hostRequest : SentEvent :=
  ⟨EVENT_DISCOVER_IPV4, 0, [1, 0, 0, 10, 1, 0, 0, 10] ++ List.replicate 16 0⟩

def hostTyped : Connection Unit :=
  { rootTold with
    shell := (Command.run .little oneHost 2 [text "h"] rootTold.shell .discover).2
    toAgent := [hostRequest.bytes .little] }

def hostAgent : Agent where
  s := 4
  buffer := store (fun _ => 0) 0 (hostRequest.bytes .little)
  writePtr := 36
  expectedLength := 36
  flags := rootDispatch.2.1

def hostDispatch : Dispatch × UInt32 × World Unit :=
  dispatch (server rootAccount idleHandlers) 0 hostAgent (rootDispatch.2.2.1, [])

def hostServed : Connection Unit :=
  { hostTyped with
    agent := hostDispatch.2.1
    rest := hostDispatch.2.2.1
    toAgent := []
    toShell := [] ++ hostDispatch.2.2.2 }

def hostLabels : List Label :=
  [.told 0, .disposed rootDispatch.1, .told 1] ++ [.typed (text "discover h")] ++
    [.disposed hostDispatch.1]

theorem host_run : Run (Converses .little rootAccount idleHandlers) (connect true ()) hostLabels
    hostServed := by
  have line := step_line .little oneHost (text "discover h") .discover 2 (text "discover")
    [text "h"] (by decide +kernel) (by decide) (by decide) (by decide) rootTold.shell
  have sends : Step .little rootTold.shell (.line oneHost (text "discover h"), [hostRequest])
      hostTyped.shell := ⟨rfl, line, by decide +kernel⟩
  have typed : Converses .little rootAccount idleHandlers rootTold (.typed (text "discover h"))
      hostTyped := .typed sends
  have served : Converses .little rootAccount idleHandlers hostTyped (.disposed hostDispatch.1)
      hostServed :=
    .disposed (c := hostTyped) (a := hostAgent) rfl
      (show StandsAt (store (fun _ => 0) 0 _) 0 _ from standsAt_store) rfl
  exact (root_run.snoc typed).snoc served

/-- Root logs in, and the request that follows is not refused. -/
theorem login_answers_root :
    (told hostLabels ++ answersOf hostServed.toShell =
      [0] ++ (logins hostLabels).map (verdict rootAccount)) ∧
    (∃ gone pending, hostServed.shell.sent = gone ++ pending ∧
      hostServed.toAgent = pending.map (SentEvent.bytes .little) ∧
      List.Forall₂ (fun e s => StandsAt e 0 s.event) (logins hostLabels) (loginsOf gone)) ∧
    hostDispatch.1.disposal ≠ .refused := by
  obtain ⟨answers, queue, accepted⟩ := login_answers host_run
  exact ⟨answers, queue, accepted _ hostDispatch.1 [] rfl ⟨1, by decide, by decide⟩⟩

end Cheops.Sh
