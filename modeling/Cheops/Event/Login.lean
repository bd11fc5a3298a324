import Cheops.Event.Register
import Cheops.Lib.Precedence
import Cheops.Lib.Run

/-! # Nobody is served before logging in

With `authenticate_clients(1)`, the agent serves any number of connections, and what their
clients send reaches it in any order.  A message that is not a login is handled only if a
good login on the same connection was handled before it (`handled_after_login`).

Within one call of `handle_agent` the flags of the agent carry this from message to message;
between calls they are part of the agent, and no other connection writes to them.
-/

namespace Cheops.Event

open Cheops.Lib

variable {ω : Type} {C : Passwords} {send : Nat → List UInt8 → ω → ω} {H : AgentHandlers ω}

/-! ## One message -/

def Login (C : Passwords) (d : Dispatch) : Prop :=
  d.disposal = .handled ∧ d.type = EVENT_AUTH_REQUEST ∧ Authentic C d.event

def Served (d : Dispatch) : Prop := d.disposal = .handled ∧ d.type ≠ EVENT_AUTH_REQUEST

theorem dispatch_login (send : Nat → List UInt8 → ω → ω) (id : Nat) (a : Agent) (w : ω) :
    (Served (dispatch (agentServer C send H true) id a w).1 → LoggedIn a.flags) ∧
    (LoggedIn (dispatch (agentServer C send H true) id a w).2.1 ↔
      LoggedIn a.flags ∨ Login C (dispatch (agentServer C send H true) id a w).1) := by
  rcases dispatch_cases (agentServer C send H true) id a w with
    ⟨disposal, w', hne, h⟩ | ⟨handler, hhandler, hopen, h⟩
  · rw [h]
    simp only [Served, Login, Agent.disposed, hne, false_and, or_false]
    exact ⟨False.elim, trivial⟩
  · rw [h]
    simp only [Served, Login, Agent.disposed, true_and]
    by_cases htype : hdrType a.buffer = EVENT_AUTH_REQUEST
    · obtain rfl : handleAuthRequest C send = handler := by
        rw [htype, agentServer_auth] at hhandler
        exact Option.some.inj hhandler
      refine ⟨fun hne => absurd htype hne, ?_⟩
      rw [handleAuthRequest_loggedIn]
      simp only [htype, true_and]
    · obtain ⟨f, rfl⟩ := agentServer_plain htype hhandler
      refine ⟨fun _ => ?_, by simp [PlainHandler.handler, htype]⟩
      rcases hopen with hauth | hlogged | hauth
      · cases hauth
      · exact hlogged
      · exact absurd hauth htype

/-! ## One call of `handle_agent` -/

/-- What one call does for a connection: nothing is served before a login, and the connection
    ends up logged in if it was or if it has logged in. -/
structure LoginFirst (C : Passwords) (a : Agent) (o : Outcome ω) : Prop where
  served : Preceded (Login C) Served (LoggedIn a.flags) o.dispatched
  flags : LoggedIn o.agent.flags ↔ LoggedIn a.flags ∨ ∃ d ∈ o.dispatched, Login C d

theorem LoginFirst.nothing {a : Agent} {o : Outcome ω} (hflags : o.agent.flags = a.flags)
    (hdispatched : o.dispatched = []) : LoginFirst C a o := by
  constructor
  · rw [hdispatched]; trivial
  · rw [hdispatched, hflags]; simp

theorem process_loginFirst (send : Nat → List UInt8 → ω → ω) (id : Nat) (a : Agent) (w : ω) :
    LoginFirst C a (process (agentServer C send H true) id a w) := by
  induction hlen : a.writePtr using Nat.strongRecOn generalizing a w with
  | _ len ih =>
    by_cases hmsg : a.HasMessage
    · obtain ⟨hserved, hflags⟩ := dispatch_login (C := C) (H := H) send id a w
      cases hagain : again (a.shift (dispatch (agentServer C send H true) id a w).2.1) a.behind with
      | none =>
        rw [process_drop hmsg hagain]
        refine ⟨⟨hserved, trivial⟩, ?_⟩
        simp only [Agent.shift, hflags, List.mem_singleton, exists_eq_left]
      | some a' =>
        have hrest := ih _ (hlen ▸ shift_again_lt hmsg hagain) a'
          (dispatch (agentServer C send H true) id a w).2.2 rfl
        have ha' : LoggedIn a'.flags ↔
            LoggedIn a.flags ∨ Login C (dispatch (agentServer C send H true) id a w).1 := by
          rw [again_flags hagain]
          exact hflags
        rw [process_again hmsg hagain]
        refine ⟨⟨hserved, hrest.served.imp ha'.mp⟩, ?_⟩
        simp only [hrest.flags, ha', List.exists_mem_cons_iff, or_assoc]
    · rw [process_none hmsg]
      exact .nothing rfl rfl

theorem handleAgent_loginFirst (id : Nat) (fd : Int) (events : UInt16) (read : ReadResult)
    (a : Agent) (w : ω) :
    LoginFirst C a (handleAgent (agentServer C send H true) id fd events read a w) := by
  rcases handleAgent_cases (agentServer C send H true) id fd events read a w with
    ⟨hdispatched, hflags⟩ | ⟨a', hflags, h⟩
  · exact .nothing hflags hdispatched
  · have hprocess := process_loginFirst (C := C) (H := H) send id a' w
    rw [h]
    exact ⟨hflags ▸ hprocess.served, hflags ▸ hprocess.flags⟩

/-! ## Runs of the agent -/

/-- The program: the agents `handle_agent` is registered for, the number of connections
    accepted so far, whether the process runs, and everything else. -/
structure Program (ω : Type) where
  agents : Nat → Option Agent
  connections : Nat
  running : Bool
  world : ω

def Program.initial (w : ω) : Program ω where
  agents := fun _ => none
  connections := 0
  running := true
  world := w

def Program.setAgent (p : Program ω) (id : Nat) (a : Option Agent) : Program ω :=
  { p with agents := fun i => if i = id then a else p.agents i }

inductive Happening where
  | accepted
  | received (id : Nat) (dispatched : List Dispatch)
  | elsewhere

/-- One turn of the main loop: a connection is accepted, `handle_agent` is called for one, a
    connection is closed, or the program does something else. -/
inductive Step (S : Server ω) : Program ω → Happening → Program ω → Prop
  | accepted {p : Program ω} {s : Int} {block : Mem} (running : p.running = true) :
      Step S p .accepted
        { p.setAgent p.connections (some (newAgent s block)) with
          connections := p.connections + 1
          world := if S.authenticating then S.eventSend p.connections (authRequestReply 0) p.world
            else p.world }
  | received {p : Program ω} {id : Nat} {a : Agent} {fd : Int} {events : UInt16}
      {read : ReadResult} (running : p.running = true) (registered : p.agents id = some a)
      (fits : ∀ bs, read = .bytes bs → bs.length ≤ a.free) :
      Step S p (.received id (handleAgent S id fd events read a p.world).dispatched)
        { p.setAgent id
            (if (handleAgent S id fd events read a p.world).verdict = .keep then
              some (handleAgent S id fd events read a p.world).agent else none) with
          running := decide ((handleAgent S id fd events read a p.world).verdict ≠ .exited)
          world := (handleAgent S id fd events read a p.world).world }
  | closed {p : Program ω} {id : Nat} (running : p.running = true) :
      Step S p .elsewhere (p.setAgent id none)
  | elsewhere {p : Program ω} {w : ω} (running : p.running = true) :
      Step S p .elsewhere { p with world := w }

def Happening.trace : Happening → List (Nat × Dispatch)
  | .received id dispatched => dispatched.map (id, ·)
  | .accepted | .elsewhere => []

def trace (history : List Happening) : List (Nat × Dispatch) := history.flatMap Happening.trace

theorem trace_snoc (history : List Happening) (l : Happening) :
    trace (history ++ [l]) = trace history ++ l.trace := by simp [trace]

def LoginOn (C : Passwords) (c : Nat) (x : Nat × Dispatch) : Prop := x.1 = c ∧ Login C x.2
def ServedOn (c : Nat) (x : Nat × Dispatch) : Prop := x.1 = c ∧ Served x.2

/-- Connection `c`: it is served after its login only, and its agent is logged in exactly if
    it has had one. -/
structure Gated (C : Passwords) (c : Nat) (history : List Happening) (p : Program ω) : Prop where
  served : Preceded (LoginOn C c) (ServedOn c) False (trace history)
  flags : ∀ a, p.agents c = some a →
    (LoggedIn a.flags ↔ ∃ x ∈ trace history, LoginOn C c x)
  later : p.connections ≤ c → p.agents c = none ∧ ∀ x ∈ trace history, x.1 ≠ c

/-- A step that disposes of no message and leaves agent `c` alone or without registration. -/
theorem Gated.quiet {c : Nat} {history : List Happening} {l : Happening} {p p' : Program ω}
    (h : Gated C c history p) (hl : l.trace = [])
    (hc : p'.agents c = p.agents c ∨ p'.agents c = none)
    (hconn : p.connections ≤ p'.connections) : Gated C c (history ++ [l]) p' := by
  constructor
  · rw [trace_snoc, hl, List.append_nil]; exact h.served
  · intro a ha
    rw [trace_snoc, hl, List.append_nil]
    rcases hc with hc | hc
    · exact h.flags a (hc ▸ ha)
    · rw [hc] at ha; cases ha
  · intro hlater
    rw [trace_snoc, hl, List.append_nil]
    obtain ⟨hnone, htrace⟩ := h.later (Nat.le_trans hconn hlater)
    exact ⟨by rcases hc with hc | hc <;> simp [hc, hnone], htrace⟩

/-- A call of `handle_agent` for the connection itself. -/
theorem Gated.own {c : Nat} {history : List Happening} {p p' : Program ω} {a : Agent}
    {o : Outcome ω} (h : Gated C c history p) (ha : p.agents c = some a) (ho : LoginFirst C a o)
    (ha' : ∀ a', p'.agents c = some a' → a' = o.agent)
    (hconn : p'.connections = p.connections) :
    Gated C c (history ++ [.received c o.dispatched]) p' := by
  have hflags := h.flags a ha
  constructor
  · rw [trace_snoc, Happening.trace, preceded_append, preceded_map]
    simp only [LoginOn, ServedOn, true_and, false_or]
    exact ⟨h.served, ho.served.imp hflags.mp⟩
  · intro a' hsome
    rw [ha' a' hsome, ho.flags, hflags, trace_snoc, Happening.trace]
    constructor
    · rintro (⟨x, hx, hlogin⟩ | ⟨d, hd, hlogin⟩)
      · exact ⟨x, List.mem_append_left _ hx, hlogin⟩
      · exact ⟨(c, d), List.mem_append_right _ (List.mem_map_of_mem hd), rfl, hlogin⟩
    · rintro ⟨x, hx, hlogin⟩
      rcases List.mem_append.mp hx with hx | hx
      · exact .inl ⟨x, hx, hlogin⟩
      · obtain ⟨d, hd, rfl⟩ := List.mem_map.mp hx
        exact .inr ⟨d, hd, hlogin.2⟩
  · intro hlater
    rw [(h.later (hconn ▸ hlater)).1] at ha
    cases ha

/-- A call of `handle_agent` for another connection. -/
theorem Gated.other {c id : Nat} {history : List Happening} {p p' : Program ω}
    {dispatched : List Dispatch} (h : Gated C c history p) (hne : id ≠ c)
    (hc : p'.agents c = p.agents c) (hconn : p'.connections = p.connections) :
    Gated C c (history ++ [.received id dispatched]) p' := by
  have hnew : ∀ x ∈ dispatched.map (id, ·), x.1 ≠ c := by
    intro x hx
    obtain ⟨d, -, rfl⟩ := List.mem_map.mp hx
    exact hne
  constructor
  · rw [trace_snoc, Happening.trace, preceded_append]
    exact ⟨h.served, preceded_of_forall_not fun x hx hserved => hnew x hx hserved.1⟩
  · intro a ha
    rw [h.flags a (hc ▸ ha), trace_snoc, Happening.trace]
    refine ⟨fun ⟨x, hx, hlogin⟩ => ⟨x, List.mem_append_left _ hx, hlogin⟩, ?_⟩
    rintro ⟨x, hx, hlogin⟩
    rcases List.mem_append.mp hx with hx | hx
    · exact ⟨x, hx, hlogin⟩
    · exact absurd hlogin.1 (hnew x hx)
  · intro hlater
    obtain ⟨hnone, htrace⟩ := h.later (hconn ▸ hlater)
    refine ⟨hc.trans hnone, fun x hx => ?_⟩
    rw [trace_snoc, Happening.trace] at hx
    exact (List.mem_append.mp hx).elim (htrace x) (hnew x)

theorem Gated.step {c : Nat} {history : List Happening} {l : Happening} {p p' : Program ω}
    (h : Gated C c history p) (hstep : Step (agentServer C send H true) p l p') :
    Gated C c (history ++ [l]) p' := by
  cases hstep with
  | @closed id running =>
    refine h.quiet rfl ?_ (Nat.le_refl _)
    by_cases hc : c = id
    · exact .inr (if_pos hc)
    · exact .inl (if_neg hc)
  | elsewhere running => exact h.quiet rfl (.inl rfl) (Nat.le_refl _)
  | accepted running =>
    by_cases hc : c = p.connections
    · obtain ⟨-, htrace⟩ := h.later (Nat.le_of_eq hc.symm)
      constructor
      · rw [trace_snoc]
        simpa [Happening.trace] using h.served
      · intro a ha
        obtain rfl := Option.some.inj ((if_pos hc).symm.trans ha)
        rw [trace_snoc, Happening.trace, List.append_nil]
        refine ⟨fun hlogged => absurd hlogged not_loggedIn_zero, ?_⟩
        rintro ⟨x, hx, hlogin⟩
        exact absurd hlogin.1 (htrace x hx)
      · intro hlater
        simp only at hlater
        omega
    · exact h.quiet rfl (.inl (if_neg hc)) (Nat.le_succ _)
  | @received id a fd events read running registered fits =>
    by_cases hc : c = id
    · subst hc
      refine h.own registered (handleAgent_loginFirst c fd events read a p.world)
        (fun a' ha' => ?_) rfl
      have ha' := (if_pos rfl).symm.trans ha'
      split at ha'
      · exact (Option.some.inj ha').symm
      · cases ha'
    · exact h.other (Ne.symm hc) (if_neg hc) rfl

theorem Gated.run {c : Nat} {history : List Happening} {p : Program ω} {w : ω}
    (run : Run (Step (agentServer C send H true)) (.initial w) history p) :
    Gated C c history p := by
  refine run.invariant (I := fun history p => Gated C c history p) ?_
    fun _ _ _ _ _ h hstep => h.step hstep
  exact ⟨trivial, fun a ha => (by cases ha), fun _ => ⟨rfl, by simp [trace]⟩⟩

/-- In every run of an agent that authenticates its clients: whoever is served on connection
    `c` has logged in on `c` before, and a good login on `c` is the only way to the flag that
    says so. -/
theorem handled_after_login {history : List Happening} {p : Program ω} {w : ω}
    (run : Run (Step (agentServer C send H true)) (.initial w) history p) (c : Nat) :
    (∀ pre d post, trace history = pre ++ (c, d) :: post →
      d.disposal = .handled → d.type ≠ EVENT_AUTH_REQUEST →
      ∃ d', (c, d') ∈ pre ∧ Login C d') ∧
    (∀ a, p.agents c = some a → LoggedIn a.flags → ∃ d', (c, d') ∈ trace history ∧ Login C d') := by
  have h : Gated C c history p := .run run
  have hlogin {l : List (Nat × Dispatch)} (hl : ∃ x ∈ l, LoginOn C c x) :
      ∃ d', (c, d') ∈ l ∧ Login C d' := by
    obtain ⟨⟨_, d'⟩, hmem, rfl, hd'⟩ := hl
    exact ⟨d', hmem, hd'⟩
  constructor
  · intro pre d post hsplit hhandled htype
    have := preceded_iff.mp h.served pre (c, d) post hsplit ⟨rfl, hhandled, htype⟩
    exact hlogin (by simpa using this)
  · exact fun a ha hlogged => hlogin ((h.flags a ha).mp hlogged)

def rootOnly : Passwords where
  getpwnam user := if slice user 0 5 = text "root\x00" then some (text "root") else none
  getspnam _ := some (text "hash")
  crypt pass salt := if slice pass 0 5 = text "pass\x00" then salt else []

def rootServer : Server Unit :=
  agentServer rootOnly (fun _ _ w => w)
    ⟨fun _ _ _ w => w, fun _ _ _ w => w, fun _ _ _ w => w, fun _ _ _ w => w, fun _ _ _ w => w,
      fun _ _ _ w => w⟩ true

/-- A login of root and a change of the settings, in one read. -/
def rootEvents : List UInt8 :=
  eventHdr 82 12 EVENT_AUTH_REQUEST 0 ++ text "root" ++ List.replicate 31 0 ++ text "pass" ++
    List.replicate 31 0 ++ eventHdr 12 12 EVENT_SET_SETTINGS 0

def rootOutcome : Outcome Unit :=
  handleAgent rootServer 0 4 1 (.bytes rootEvents) (newAgent 4 fun _ => 0) ()

/-- Both of root's events are handled, the second because of the first. -/
theorem handled_after_login_root :
    rootOutcome.dispatched.map (fun d => (d.disposal, d.type)) =
      [(.handled, EVENT_AUTH_REQUEST), (.handled, EVENT_SET_SETTINGS)] ∧
    ∀ pre d post, trace [.accepted, .received 0 rootOutcome.dispatched] = pre ++ (0, d) :: post →
      d.disposal = .handled → d.type ≠ EVENT_AUTH_REQUEST →
      ∃ d', (0, d') ∈ pre ∧ Login rootOnly d' := by
  have accepted := @Step.accepted Unit rootServer (.initial ()) 4 (fun _ => 0) rfl
  exact ⟨by decide +kernel, (handled_after_login (.snoc (.snoc .refl accepted)
    (.received rfl rfl fun bs hbs => by cases hbs; decide +kernel)) 0).1⟩

end Cheops.Event
