import Cheops.Event.Basic

/-! # The handlers of the agent (`event.c`, `cheops-agent.c`)

`event_register_handler` fills the table `handle_agent` dispatches by, and
`register_agent_handlers` calls it for the handlers of the agent.  What these handlers do to
the rest of the program is left open here, but for `handle_auth_request`, the only one that
writes to the flags of an agent.
-/

namespace Cheops.Event

open Cheops.Lib

variable {ω : Type}

def EVENT_DISCOVER_IPV4 : Nat := 2
def EVENT_OS_SCAN : Nat := 3
def EVENT_SET_SETTINGS : Nat := 4
def EVENT_MAP_ICMP : Nat := 6
def EVENT_PROBE : Nat := 7

/-! ## `handle_auth_request` -/

/-- The C library's password functions.  `getpwnam` gives the `pw_name` and `getspnam` the
    `sp_pwdp` of what they find; user and password are memory, as the client sent them. -/
structure Passwords where
  getpwnam : Mem → Option (List UInt8)
  getspnam : List UInt8 → Option (List UInt8)
  crypt : Mem → List UInt8 → List UInt8

/-- `e->auth_request_e.username` and `e->auth_request_e.password`. -/
def username (e : Mem) : Mem := e
def password (e : Mem) : Mem := fun i => e (35 + i)

/-- The event `send_auth_request_reply` sends. -/
def authRequestReply (authenticated : Nat) : List UInt8 :=
  eventHdr 16 sizeofEventHdr REPLY_AUTH_REQUEST 0 ++ toBe 4 authenticated

def handleAuthRequest (C : Passwords) (eventSend : Nat → List UInt8 → ω → ω) : Handler ω :=
  fun id _ e flags w =>
    match C.getpwnam (username e) with
    | none => (flags, eventSend id (authRequestReply 0) w)
    | some pwName =>
      match C.getspnam pwName with
      | none => (flags, eventSend id (authRequestReply 0) w)
      | some spPwdp =>
        if spPwdp = C.crypt (password e) spPwdp then
          (flags ||| AGENT_FLAGS_LOGGED_IN, eventSend id (authRequestReply 1) w)
        else (flags, eventSend id (authRequestReply 0) w)

def Authentic (C : Passwords) (e : Mem) : Prop :=
  ∃ pwName, C.getpwnam (username e) = some pwName ∧
    ∃ spPwdp, C.getspnam pwName = some spPwdp ∧ C.crypt (password e) spPwdp = spPwdp

def LoggedIn (flags : UInt32) : Prop := flags &&& AGENT_FLAGS_LOGGED_IN ≠ 0

theorem loggedIn_or (flags : UInt32) : LoggedIn (flags ||| AGENT_FLAGS_LOGGED_IN) := by
  intro h
  have hbit := congrArg (fun x => x.toBitVec.getLsbD 0) h
  simp [AGENT_FLAGS_LOGGED_IN] at hbit

theorem not_loggedIn_zero : ¬ LoggedIn 0 := by simp [LoggedIn]

/-- After `handle_auth_request` an agent is logged in if it was, or if the request was good. -/
theorem handleAuthRequest_loggedIn {C : Passwords} {eventSend : Nat → List UInt8 → ω → ω}
    {id : Nat} {h e : Mem} {flags : UInt32} {w : ω} :
    LoggedIn (handleAuthRequest C eventSend id h e flags w).1 ↔
      LoggedIn flags ∨ Authentic C e := by
  unfold handleAuthRequest Authentic
  cases hpw : C.getpwnam (username e) with
  | none => simp
  | some pwName =>
    cases hsp : C.getspnam pwName with
    | none => simp [hsp]
    | some spPwdp =>
      simp only [Option.some.injEq, exists_eq_left', hsp, eq_comm (a := C.crypt _ _)]
      split
      next heq => exact ⟨fun _ => .inr heq, fun _ => loggedIn_or flags⟩
      next hne => simp [hne]

/-! ## Registering -/

abbrev PlainHandler (ω : Type) := Nat → Mem → Mem → ω → ω

def PlainHandler.handler (f : PlainHandler ω) : Handler ω :=
  fun id h e flags w => (flags, f id h e w)

/-- The static variables `initalized` and `handlers`. -/
structure Registry (ω : Type) where
  initalized : Bool
  handlers : Nat → Option (Handler ω)

def emptyRegistry : Registry ω := { initalized := false, handlers := fun _ => none }

/-- `event_register_handler`, once it is initialized. -/
def Registry.enter (type : Nat) (h : Handler ω) (replace : Bool) (r : Registry ω) :
    Int × Registry ω :=
  if type < MAX_EVENT then
    if replace = true ∨ (r.handlers type).isNone then
      (0, { r with handlers := fun t => if t = type then some h else r.handlers t })
    else (0, r)
  else (-1, r)

/-- `event_register_handler`; its first call enters `handle_auth_request`. -/
def eventRegisterHandler (auth : Handler ω) (type : Nat) (h : Handler ω) (replace : Bool)
    (r : Registry ω) : Int × Registry ω :=
  let r := if r.initalized then r
    else (Registry.enter EVENT_AUTH_REQUEST auth true { r with initalized := true }).2
  r.enter type h replace

/-- The functions in `agent_handlers`. -/
structure AgentHandlers (ω : Type) where
  handleError : PlainHandler ω
  handleOsscanRequest : PlainHandler ω
  handleDiscoverRequest : PlainHandler ω
  handleSetSettings : PlainHandler ω
  handleMapIcmpRequest : PlainHandler ω
  handleProbeRequest : PlainHandler ω

def agentHandlers (H : AgentHandlers ω) : List (Nat × PlainHandler ω) :=
  [(REPLY_ERROR, H.handleError), (EVENT_OS_SCAN, H.handleOsscanRequest),
   (EVENT_DISCOVER_IPV4, H.handleDiscoverRequest), (EVENT_SET_SETTINGS, H.handleSetSettings),
   (EVENT_MAP_ICMP, H.handleMapIcmpRequest), (EVENT_PROBE, H.handleProbeRequest)]

def registerAgentHandlers (auth : Handler ω) (H : AgentHandlers ω) (r : Registry ω) :
    Registry ω :=
  (agentHandlers H).foldl (fun r h => (eventRegisterHandler auth h.1 h.2.handler false r).2) r

/-- Logins go to `auth`, and other events to handlers that leave the flags alone. -/
structure Registry.LoginsTo (auth : Handler ω) (r : Registry ω) : Prop where
  initalized : r.initalized = true
  auth : r.handlers EVENT_AUTH_REQUEST = some auth
  plain : ∀ type h, type ≠ EVENT_AUTH_REQUEST → r.handlers type = some h →
    ∃ f : PlainHandler ω, h = f.handler

theorem Registry.LoginsTo.enter {auth : Handler ω} {r : Registry ω} (hr : r.LoginsTo auth)
    (type : Nat) (f : PlainHandler ω) :
    (r.enter type f.handler false).2.LoginsTo auth := by
  unfold Registry.enter
  split
  · split
    next hfree =>
      have hne : type ≠ EVENT_AUTH_REQUEST := by
        rintro rfl
        simp [hr.auth] at hfree
      refine ⟨hr.initalized, by simp only [if_neg hne.symm, hr.auth], fun t h ht heq => ?_⟩
      simp only at heq
      split at heq
      · exact ⟨f, by simpa using heq.symm⟩
      · exact hr.plain t h ht heq
    next => exact hr
  · exact hr

/-- The registration that the first call begins with. -/
theorem loginsTo_first (auth : Handler ω) :
    (Registry.enter EVENT_AUTH_REQUEST auth true
      { (emptyRegistry : Registry ω) with initalized := true }).2.LoginsTo auth := by
  refine ⟨rfl, rfl, fun t h ht heq => ?_⟩
  have hnone : (Registry.enter EVENT_AUTH_REQUEST auth true
      { (emptyRegistry : Registry ω) with initalized := true }).2.handlers t = none := if_neg ht
  rw [hnone] at heq
  cases heq

/-- A call keeps it so, and the first one makes it so. -/
theorem eventRegisterHandler_loginsTo {auth : Handler ω} {r : Registry ω}
    (hr : r = emptyRegistry ∨ r.LoginsTo auth) (type : Nat) (f : PlainHandler ω) :
    (eventRegisterHandler auth type f.handler false r).2.LoginsTo auth := by
  unfold eventRegisterHandler
  rcases hr with rfl | hr
  · exact (loginsTo_first auth).enter type f
  · simp only [hr.initalized, if_true]
    exact hr.enter type f

theorem registerAgentHandlers_loginsTo (auth : Handler ω) (H : AgentHandlers ω) :
    (registerAgentHandlers auth H emptyRegistry).LoginsTo auth := by
  have hlater : ∀ (hs : List (Nat × PlainHandler ω)) (r : Registry ω), r.LoginsTo auth →
      (hs.foldl (fun r h => (eventRegisterHandler auth h.1 h.2.handler false r).2) r).LoginsTo
        auth := by
    intro hs
    induction hs with
    | nil => exact fun r hr => hr
    | cons h hs ih => exact fun r hr => ih _ (eventRegisterHandler_loginsTo (.inr hr) _ _)
  rw [registerAgentHandlers, agentHandlers, List.foldl_cons]
  exact hlater _ _ (eventRegisterHandler_loginsTo (.inl rfl) _ _)

/-- The server of the agent, after `authenticate_clients` and `register_agent_handlers`. -/
def agentServer (C : Passwords) (eventSend : Nat → List UInt8 → ω → ω) (H : AgentHandlers ω)
    (authenticating : Bool) : Server ω where
  authenticating := authenticating
  handlers := (registerAgentHandlers (handleAuthRequest C eventSend) H emptyRegistry).handlers
  authRegistered := by
    rw [(registerAgentHandlers_loginsTo (handleAuthRequest C eventSend) H).auth]; rfl
  eventSend := eventSend

section agentServer

variable {C : Passwords} {eventSend : Nat → List UInt8 → ω → ω} {H : AgentHandlers ω}
  {authenticating : Bool}

theorem agentServer_handlers :
    (agentServer C eventSend H authenticating).handlers =
      (registerAgentHandlers (handleAuthRequest C eventSend) H emptyRegistry).handlers := by
  simp only [agentServer]

theorem agentServer_auth :
    (agentServer C eventSend H authenticating).handlers EVENT_AUTH_REQUEST =
      some (handleAuthRequest C eventSend) := by
  rw [agentServer_handlers]
  exact (registerAgentHandlers_loginsTo _ H).auth

theorem agentServer_plain {type : Nat} {h : Handler ω} (htype : type ≠ EVENT_AUTH_REQUEST)
    (hhandler : (agentServer C eventSend H authenticating).handlers type = some h) :
    ∃ f : PlainHandler ω, h = f.handler := by
  rw [agentServer_handlers] at hhandler
  exact (registerAgentHandlers_loginsTo _ H).plain type h htype hhandler

end agentServer

end Cheops.Event
