import Cheops.Event.Stream
import Cheops.Lib.Run

/-! # Automatic errors between two endpoints (`event.c`, `cerror.c`)

The dispatcher answers an event that nobody handles with an error, and both ends of a
connection have that dispatcher.  What stops the exchange is `FLAG_IGNORE`: `cheops_error` sets
it and the dispatcher looks at it before it answers, so every automatic error is paid for by an
event of another kind (`no_error_storm`).
-/

namespace Cheops.Event

open Cheops.Lib

/-! ## Endpoints -/

/-- An event on its way.  `automatic` is a ghost: the dispatcher sent it, with `cheops_error`. -/
structure Packet where
  automatic : Bool
  bytes : List UInt8
deriving DecidableEq, Repr

def Packet.Whole (p : Packet) : Prop := eventSize p.bytes = some p.bytes.length

/-- `FLAG_IGNORE` is set in the header, which the event has. -/
def Packet.Ignores (p : Packet) : Prop :=
  sizeofEventHdr ≤ p.bytes.length ∧ beNat ((p.bytes.drop 8).take 4) &&& FLAG_IGNORE ≠ 0

/-- A handler on the state of a program, with the events that it sends to the agent it is given. -/
abbrev SendingHandler (σ : Type) :=
  Nat → Mem → Mem → UInt32 → σ → UInt32 × σ × List (List UInt8)

/-- A program with its table of handlers, and the address of the agent for its peer. -/
structure Endpoint (σ : Type) where
  peer : Nat
  authenticating : Bool
  handlers : Nat → Option (SendingHandler σ)
  authRegistered : (handlers EVENT_AUTH_REQUEST).isSome
  /-- Errors are not answered. -/
  quiet : ∀ handler, handlers REPLY_ERROR = some handler →
    ∀ id h e flags w, (handler id h e flags w).2.2 = []
  whole : ∀ type handler, handlers type = some handler →
    ∀ id h e flags w, ∀ event ∈ (handler id h e flags w).2.2, eventSize event = some event.length

structure Outbox (σ : Type) where
  state : σ
  sent : List Packet

variable {σ : Type}

def sending (handler : SendingHandler σ) : Handler (Outbox σ) := fun id h e flags w =>
  let (flags, state, events) := handler id h e flags w.state
  (flags, { state, sent := w.sent ++ events.map (⟨false, ·⟩) })

/-- The endpoint as `handle_agent` sees it; the dispatcher has no other use for `event_send` than
    `cheops_error`. -/
def Endpoint.server (E : Endpoint σ) : Server (Outbox σ) where
  authenticating := E.authenticating
  handlers type := (E.handlers type).map sending
  authRegistered := by simpa using E.authRegistered
  eventSend _ event w := { w with sent := w.sent ++ [⟨true, event⟩] }

/-! ## Runs of two endpoints -/

inductive Side where
  | near
  | far
deriving DecidableEq, Repr

def Side.other : Side → Side
  | .near => .far
  | .far => .near

/-- At each side, the agent for the other one and the program; and what is on its way to it. -/
structure Net (σ : Type) where
  agent : Side → Agent
  state : Side → σ
  inFlight : Side → List Packet

inductive Exchange where
  | send (side : Side) (sent : List Packet)
  | deliver (side : Side) (p : Packet) (sent : List Packet)

def Exchange.sent : Exchange → List Packet
  | .send _ sent | .deliver _ _ sent => sent

def Net.post (net : Net σ) (side : Side) (sent : List Packet) : Net σ :=
  { net with
    inFlight := Function.update net.inFlight side.other (net.inFlight side.other ++ sent) }

def Net.read (net : Net σ) (side : Side) (o : Outcome (Outbox σ)) (inFlight : List Packet) :
    Net σ where
  agent := Function.update net.agent side o.agent
  state := Function.update net.state side o.world.state
  inFlight := Function.update net.inFlight side inFlight

/-- A program sends an event of its own accord, or reads any of those on their way to it.
    `event_send` may fail, so that not all arrive on the wire. -/
inductive Net.Step (E : Side → Endpoint σ) : Net σ → Exchange → Net σ → Prop
  | send {net : Net σ} {side : Side} {event : List UInt8}
      (whole : eventSize event = some event.length) :
      Net.Step E net (.send side [⟨false, event⟩]) (net.post side [⟨false, event⟩])
  | deliver {net : Net σ} {side : Side} {p : Packet} {before after sent : List Packet}
      {o : Outcome (Outbox σ)} (inFlight : net.inFlight side = before ++ p :: after)
      (reads : receive (E side).server (E side).peer p.bytes (net.agent side)
        ⟨net.state side, []⟩ = o)
      (sends : sent.Sublist o.world.sent) :
      Net.Step E net (.deliver side p sent) ((net.read side o (before ++ after)).post side sent)

structure Net.Idle (net : Net σ) : Prop where
  inFlight : ∀ side, net.inFlight side = []
  ready : ∀ side, (net.agent side).Ready
  empty : ∀ side, (net.agent side).writePtr = 0

/-! ## What one event is answered with -/

/-- The dispatcher sends nothing; or one error, if it is not told to be quiet; or it leaves
    sending to the handler of the event's type. -/
theorem dispatch_sent (E : Endpoint σ) (id : Nat) (a : Agent) (w : Outbox σ) :
    (dispatch E.server id a w).2.2.sent = w.sent ∨
    (hdrFlags a.buffer &&& FLAG_IGNORE = 0 ∧ ∃ error c,
      (dispatch E.server id a w).2.2.sent = w.sent ++ [⟨true, cheopsErrorEvent error c⟩]) ∨
    ∃ handler, E.handlers (hdrType a.buffer) = some handler ∧
      (dispatch E.server id a w).2.2.sent =
        w.sent ++ (handler id a.buffer a.event a.flags w.state).2.2.map (⟨false, ·⟩) := by
  have answered : (unsupportedReply E.server id a.buffer w).sent = w.sent ∨
      (hdrFlags a.buffer &&& FLAG_IGNORE = 0 ∧ ∃ error c,
        (unsupportedReply E.server id a.buffer w).sent =
          w.sent ++ [⟨true, cheopsErrorEvent error c⟩]) := by
    unfold unsupportedReply
    split
    next asked => exact .inr ⟨asked, _, _, rfl⟩
    next => exact .inl rfl
  unfold dispatch
  split
  · exact .inl rfl
  split
  · exact .inl rfl
  split
  · cases known : E.handlers (hdrType a.buffer) with
    | none =>
      simp only [Endpoint.server, known, Option.map_none]
      exact answered.imp_right .inl
    | some handler =>
      simp only [Endpoint.server, known, Option.map_some]
      exact .inr (.inr ⟨handler, rfl, rfl⟩)
  split
  next auth =>
    obtain ⟨handler, known⟩ := Option.isSome_iff_exists.mp E.authRegistered
    have entered : E.server.handlers EVENT_AUTH_REQUEST = some (sending handler) := by
      simp only [Endpoint.server, known, Option.map_some]
    refine .inr (.inr ⟨handler, by rw [auth, known], ?_⟩)
    rw [Option.get_of_eq_some _ entered]
    rfl
  next => exact answered.imp_right .inl

theorem cheopsErrorEvent_length (error : Nat) (c : List UInt8) :
    (cheopsErrorEvent error c).length =
      (c.take (65536 - sizeofEventHdr - 4 - 1)).length + sizeofEventHdr + 4 := by
  simp only [cheopsErrorEvent, eventHdr, List.length_append, length_toBe, sizeofEventHdr]
  omega

/-- The events of `cheops_error` are whole, and ask for no answer. -/
theorem cheopsErrorEvent_header (error : Nat) (c : List UInt8) {h : Mem}
    (stands : StandsAt h 0 (cheopsErrorEvent error c)) :
    hdrLen h = (cheopsErrorEvent error c).length ∧ hdrType h = REPLY_ERROR ∧
      hdrFlags h = FLAG_IGNORE := by
  have short : (c.take (65536 - sizeofEventHdr - 4 - 1)).length ≤ 65519 := List.length_take_le _ _
  unfold cheopsErrorEvent at stands
  simp only [List.append_assoc] at stands
  obtain ⟨len, -, type, flags, -⟩ := standsAt_eventHdr stands
  refine ⟨?_, type, flags⟩
  rw [len, cheopsErrorEvent_length]
  apply Nat.mod_eq_of_lt
  unfold sizeofEventHdr at short ⊢
  omega

def Packet.CheopsError (p : Packet) : Prop := ∃ error c, p.bytes = cheopsErrorEvent error c

theorem Packet.CheopsError.header {p : Packet} (error : p.CheopsError) (block : Mem) :
    hdrLen (store block 0 p.bytes) = p.bytes.length ∧
      hdrType (store block 0 p.bytes) = REPLY_ERROR ∧
      hdrFlags (store block 0 p.bytes) = FLAG_IGNORE := by
  obtain ⟨number, c, bytes⟩ := error
  rw [bytes]
  exact cheopsErrorEvent_header number c standsAt_store

theorem Packet.CheopsError.length {p : Packet} (error : p.CheopsError) :
    sizeofEventHdr ≤ p.bytes.length ∧ p.bytes.length ≤ AGENT_RECV_BUFFER_LENGTH := by
  obtain ⟨number, c, bytes⟩ := error
  have short : (c.take (65536 - sizeofEventHdr - 4 - 1)).length ≤ 65519 := List.length_take_le _ _
  rw [bytes, cheopsErrorEvent_length]
  unfold sizeofEventHdr AGENT_RECV_BUFFER_LENGTH at *
  omega

theorem Packet.CheopsError.whole {p : Packet} (error : p.CheopsError) : p.Whole := by
  obtain ⟨long, short⟩ := error.length
  obtain ⟨len, -, -⟩ := error.header fun _ => 0
  unfold sizeofEventHdr at long
  refine eventSize_eq_some.mpr ⟨by omega, ?_, by omega, short⟩
  rw [← len]
  exact (be32_eq slice_store (by omega)).symm

/-- The flags that the dispatcher reads are those of the event. -/
theorem Packet.ignores_iff {p : Packet} (long : sizeofEventHdr ≤ p.bytes.length) (block : Mem) :
    p.Ignores ↔ hdrFlags (store block 0 p.bytes) &&& FLAG_IGNORE ≠ 0 := by
  have stored : slice (store block 0 p.bytes) 0 p.bytes.length = p.bytes := slice_store
  have flags : (p.bytes.drop 8).take 4 = slice (store block 0 p.bytes) 8 4 := by
    unfold sizeofEventHdr at long
    rw [← stored, drop_slice (by omega), take_slice (by omega), stored]
  rw [Packet.Ignores, flags]
  exact and_iff_right long

theorem Packet.CheopsError.ignores {p : Packet} (error : p.CheopsError) : p.Ignores := by
  rw [ignores_iff error.length.1 fun _ => 0, (error.header _).2.2]
  decide

def automatics (ps : List Packet) : Nat := ps.countP (·.automatic)
def others (ps : List Packet) : Nat := ps.countP (!·.automatic)

theorem automatics_append (ps qs : List Packet) :
    automatics (ps ++ qs) = automatics ps + automatics qs := List.countP_append

theorem others_append (ps qs : List Packet) : others (ps ++ qs) = others ps + others qs :=
  List.countP_append

theorem others_middle (before after : List Packet) (p : Packet) :
    others (before ++ p :: after) = others (before ++ after) + others [p] := by
  rw [List.append_cons, others_append, others_append, others_append]
  omega

/-- What `p` is answered with: one automatic error at most, none if `p` asks for none, and nothing
    at all if `p` is an automatic error itself.  Those errors all ask for none. -/
structure Answer (p : Packet) (sent : List Packet) : Prop where
  once : automatics sent ≤ 1
  ignored : p.Ignores → automatics sent = 0
  unanswered : p.automatic = true → sent = []
  marked : ∀ q ∈ sent, q.automatic = true → q.Ignores

theorem Answer.sublist {p : Packet} {sent sent' : List Packet} (answer : Answer p sent)
    (sub : sent'.Sublist sent) : Answer p sent' where
  once := Nat.le_trans sub.countP_le answer.once
  ignored ignores := Nat.le_zero.mp (answer.ignored ignores ▸ sub.countP_le)
  unanswered automatic := by
    rw [answer.unanswered automatic] at sub
    exact List.sublist_nil.mp sub
  marked q member := answer.marked q (sub.subset member)

def Packet.Valid (p : Packet) : Prop := p.Whole ∧ (p.automatic = true → p.CheopsError)

theorem automatics_handler (events : List (List UInt8)) :
    automatics (events.map (⟨false, ·⟩)) = 0 := by
  rw [automatics, List.countP_eq_zero]
  intro q member
  obtain ⟨event, -, rfl⟩ := List.mem_map.mp member
  exact Bool.false_ne_true

/-- One event is read while nothing is buffered. -/
theorem receive_answer (E : Endpoint σ) {a : Agent} (state : σ) {p : Packet} (ready : a.Ready)
    (empty : a.writePtr = 0) (valid : p.Valid) :
    let o := receive E.server E.peer p.bytes a ⟨state, []⟩
    o.agent.Ready ∧ o.agent.writePtr = 0 ∧ Answer p o.world.sent ∧
      ∀ q ∈ o.world.sent, q.Valid := by
  obtain ⟨whole, error⟩ := valid
  intro o
  obtain ⟨-, -, positive, fits⟩ := eventSize_eq_some.mp whole
  have waiting : o.agent.Ready ∧ o.agent.writePtr = 0 := by
    have left : eventFraming.rest (a.buffered ++ p.bytes) = [] := by
      rw [List.length_eq_zero_iff.mp ((length_buffered a).trans empty), List.nil_append,
        Framing.rest_of_size (F := eventFraming) whole (Nat.le_refl _), List.drop_length]
      refine Framing.rest_of_incomplete fun n size => ?_
      cases size
    obtain ⟨-, ⟨oversize, -⟩ | ⟨-, -, buffered, ready'⟩⟩ := handleAgent_sync (S := E.server) E.peer
      ⟨state, []⟩ ready (by omega) (List.ne_nil_of_length_pos (by omega))
      (Nat.le_trans fits (by rw [Agent.free, empty]; exact Nat.le_refl _))
    · rw [left] at oversize
      cases oversize.1
    · rw [left] at buffered
      exact ⟨ready', by rw [← length_buffered, buffered]; rfl⟩
  obtain ⟨b, buffer, -, world⟩ := @receive_whole _ E.server E.peer _ ⟨state, []⟩ _ ready empty whole
  refine ⟨waiting.1, waiting.2, ?_⟩
  rw [world]
  rcases dispatch_sent E E.peer b ⟨state, []⟩ with sent | ⟨asked, number, c, sent⟩ |
    ⟨handler, known, sent⟩
  · rw [sent]
    exact ⟨⟨Nat.zero_le _, fun _ => rfl, fun _ => rfl,
      fun _ member => absurd member List.not_mem_nil⟩, List.forall_mem_nil _⟩
  · rw [buffer] at asked
    have loud : ¬ p.Ignores := fun ignores =>
      (Packet.ignores_iff ignores.1 a.buffer).mp ignores asked
    have marked : Packet.CheopsError ⟨true, cheopsErrorEvent number c⟩ := ⟨number, c, rfl⟩
    rw [sent, List.nil_append]
    refine ⟨⟨Nat.le_refl _, fun ignores => absurd ignores loud, ?_, ?_⟩, ?_⟩
    · intro automatic
      exact absurd (error automatic).ignores loud
    · intro q member _
      rw [List.mem_singleton.mp member]
      exact marked.ignores
    · intro q member
      rw [List.mem_singleton.mp member]
      exact ⟨marked.whole, fun _ => marked⟩
  · rw [sent, List.nil_append]
    have unasked := automatics_handler (handler E.peer b.buffer b.event b.flags state).2.2
    refine ⟨⟨by rw [unasked]; exact Nat.zero_le _, fun _ => unasked, ?_, ?_⟩, ?_⟩
    · intro automatic
      rw [buffer, ((error automatic).header a.buffer).2.1] at known
      rw [E.quiet handler known, List.map_nil]
    · intro q member automatic
      obtain ⟨event, -, rfl⟩ := List.mem_map.mp member
      cases automatic
    · intro q member
      obtain ⟨event, sends, rfl⟩ := List.mem_map.mp member
      refine ⟨E.whole _ handler known _ _ _ _ _ event sends, fun automatic => ?_⟩
      exact absurd automatic Bool.false_ne_true

/-! ## Runs -/

def sentIn (history : List Exchange) : List Packet := history.flatMap Exchange.sent

theorem sentIn_snoc (history : List Exchange) (x : Exchange) :
    sentIn (history ++ [x]) = sentIn history ++ x.sent := by
  simp [sentIn]

/-- Every automatic error is paid for by an event that is no longer on its way. -/
structure Net.Inv (history : List Exchange) (net : Net σ) : Prop where
  ready : ∀ side, (net.agent side).Ready
  empty : ∀ side, (net.agent side).writePtr = 0
  valid : ∀ side, ∀ p ∈ net.inFlight side, p.Valid
  answers : ∀ side p sent, .deliver side p sent ∈ history → Answer p sent
  paid : automatics (sentIn history) + (others (net.inFlight .near) + others (net.inFlight .far)) ≤
    others (sentIn history)

theorem Net.Idle.inv {net : Net σ} (idle : net.Idle) : net.Inv [] where
  ready := idle.ready
  empty := idle.empty
  valid side := by
    rw [idle.inFlight]
    nofun
  answers := nofun
  paid := by
    rw [idle.inFlight, idle.inFlight]
    exact Nat.le_refl _

/-- What is on its way to one side counts for the other events. -/
theorem others_post (net : Net σ) (side : Side) (sent : List Packet) :
    others ((net.post side sent).inFlight .near) + others ((net.post side sent).inFlight .far) =
      others (net.inFlight .near) + others (net.inFlight .far) + others sent := by
  cases side with
  | near =>
    change others _ + others (_ ++ sent) = _
    rw [others_append]
    exact (Nat.add_assoc _ _ _).symm
  | far =>
    change others (_ ++ sent) + others _ = _
    rw [others_append]
    exact Nat.add_right_comm _ _ _

theorem others_read (net : Net σ) (side : Side) (o : Outcome (Outbox σ)) {p : Packet}
    {before after : List Packet} (inFlight : net.inFlight side = before ++ p :: after) :
    others (net.inFlight .near) + others (net.inFlight .far) =
      others ((net.read side o (before ++ after)).inFlight .near) +
        others ((net.read side o (before ++ after)).inFlight .far) + others [p] := by
  cases side with
  | near =>
    change _ = others (before ++ after) + others (net.inFlight .far) + others [p]
    rw [inFlight, others_middle]
    exact Nat.add_right_comm _ _ _
  | far =>
    change _ = others (net.inFlight .near) + others (before ++ after) + others [p]
    rw [inFlight, others_middle]
    exact (Nat.add_assoc _ _ _).symm

theorem post_valid {net : Net σ} {side : Side} {sent : List Packet}
    (valid : ∀ side, ∀ p ∈ net.inFlight side, p.Valid) (new : ∀ p ∈ sent, p.Valid) :
    ∀ side', ∀ p ∈ (net.post side sent).inFlight side', p.Valid := by
  refine (Function.forall_update_iff net.inFlight fun _ ps => ∀ p ∈ ps, p.Valid).mpr
    ⟨?_, fun s _ => valid s⟩
  intro p member
  rcases List.mem_append.mp member with member | member
  · exact valid _ p member
  · exact new p member

theorem answers_snoc {history : List Exchange} {x : Exchange}
    (answers : ∀ side p sent, .deliver side p sent ∈ history → Answer p sent)
    (new : ∀ side p sent, x = .deliver side p sent → Answer p sent) :
    ∀ side p sent, .deliver side p sent ∈ history ++ [x] → Answer p sent := by
  intro side p sent member
  rcases List.mem_append.mp member with member | member
  · exact answers side p sent member
  · exact new side p sent (List.mem_singleton.mp member).symm

/-- An answer is paid for by the event that it answers. -/
theorem Answer.paid {p : Packet} {sent : List Packet} (answer : Answer p sent) :
    automatics sent ≤ others [p] := by
  cases automatic : p.automatic with
  | true =>
    rw [answer.unanswered automatic]
    exact Nat.zero_le _
  | false =>
    rw [others, List.countP_singleton, automatic]
    exact answer.once

theorem Net.Step.inv {E : Side → Endpoint σ} {history : List Exchange} {net net' : Net σ}
    {x : Exchange} (inv : net.Inv history) (step : Net.Step E net x net') :
    net'.Inv (history ++ [x]) := by
  have paid := inv.paid
  cases step with
  | @send side event whole =>
    refine ⟨inv.ready, inv.empty, post_valid inv.valid ?_, answers_snoc inv.answers nofun, ?_⟩
    · intro q member
      rw [List.mem_singleton.mp member]
      exact ⟨whole, nofun⟩
    · rw [others_post, sentIn_snoc, Exchange.sent, automatics_append, others_append]
      change automatics (sentIn history) + 0 + (_ + _ + 1) ≤ others (sentIn history) + 1
      omega
  | @deliver side p before after sent o inFlight reads sends =>
    have valid : p.Valid := inv.valid side p (by rw [inFlight]; simp)
    obtain ⟨ready, empty, answer, new⟩ := receive_answer (E side) (net.state side) (inv.ready side)
      (inv.empty side) valid
    rw [reads] at ready empty answer new
    have answer := answer.sublist sends
    refine ⟨?_, ?_, post_valid ?_ fun q member => new q (sends.subset member),
      answers_snoc inv.answers ?_, ?_⟩
    · exact (Function.forall_update_iff net.agent fun _ a => a.Ready).mpr
        ⟨ready, fun s _ => inv.ready s⟩
    · exact (Function.forall_update_iff net.agent fun _ a => a.writePtr = 0).mpr
        ⟨empty, fun s _ => inv.empty s⟩
    · refine (Function.forall_update_iff net.inFlight fun _ ps => ∀ q ∈ ps, q.Valid).mpr
        ⟨?_, fun s _ => inv.valid s⟩
      intro q member
      apply inv.valid side
      rw [inFlight]
      exact List.mem_append.mpr ((List.mem_append.mp member).imp_right (List.mem_cons_of_mem p))
    · intro side' p' sent' same
      cases same
      exact answer
    · have balance := others_read net side o inFlight
      have answered := answer.paid
      rw [others_post, sentIn_snoc, Exchange.sent, automatics_append, others_append]
      omega

/-- In every run of two endpoints that start with nothing on the wire, whatever they handle and
    in whatever order events arrive, automatic errors are not answered, and there are no more of
    them than of other events. -/
theorem no_error_storm {E : Side → Endpoint σ} {start net : Net σ} {history : List Exchange}
    (idle : start.Idle) (run : Run (Net.Step E) start history net) :
    (∀ side p sent, .deliver side p sent ∈ history → Answer p sent) ∧
      automatics (sentIn history) ≤ others (sentIn history) := by
  have inv := run.invariant idle.inv fun _ _ _ _ _ inv step => Net.Step.inv inv step
  exact ⟨inv.answers, Nat.le_trans (Nat.le_add_right _ _) inv.paid⟩

def loginOnly : Endpoint Unit where
  peer := 0
  authenticating := false
  handlers type :=
    if type = EVENT_AUTH_REQUEST then some fun _ _ _ flags _ => (flags, (), []) else none
  authRegistered := rfl
  quiet handler known := by simp [REPLY_ERROR, EVENT_AUTH_REQUEST] at known
  whole type handler known := by
    intro id h e flags w event sends
    split at known
    next => cases known; cases sends
    next => cases known

def loginNet : Net Unit := ⟨fun _ => newAgent 4 fun _ => 0, fun _ => (), fun _ => []⟩

/-- An event of type 9 is answered with an error, and the error with nothing. -/
theorem no_error_storm_unsupported :
    let error := cheopsErrorEvent ERROR_UNIMPL (text "Unsupported message type 9\n")
    let history : List Exchange := [.send .far [⟨false, eventHdr 12 12 9 0⟩],
      .deliver .near ⟨false, eventHdr 12 12 9 0⟩ [⟨true, error⟩], .deliver .far ⟨true, error⟩ []]
    (∀ side p sent, .deliver side p sent ∈ history → Answer p sent) ∧
      automatics (sentIn history) ≤ others (sentIn history) := by
  intro error history
  have answered : [⟨true, error⟩] = (receive loginOnly.server 0 (eventHdr 12 12 9 0)
      (newAgent 4 fun _ => 0) ⟨(), []⟩).world.sent := by decide +kernel
  have sent : [⟨true, error⟩].Sublist (receive loginOnly.server 0 (eventHdr 12 12 9 0)
      (newAgent 4 fun _ => 0) ⟨(), []⟩).world.sent := by rw [← answered]
  let E : Side → Endpoint Unit := fun _ => loginOnly
  have asked : Net.Step E loginNet (.send .far [⟨false, eventHdr 12 12 9 0⟩]) _ := .send (by decide)
  have refused := @Net.Step.deliver _ E (loginNet.post .far [⟨false, eventHdr 12 12 9 0⟩]) .near
    ⟨false, eventHdr 12 12 9 0⟩ [] [] _ _ rfl rfl sent
  have idle : loginNet.Idle := ⟨fun _ => rfl, fun _ _ => rfl, fun _ => rfl⟩
  exact no_error_storm idle (.snoc (.snoc (.snoc .refl asked) refused)
    (@Net.Step.deliver _ E _ .far _ [] [] [] _ rfl rfl (List.nil_sublist _)))

end Cheops.Event
