import Cheops.Lib.Wire

/-! # Receiving events (`event.c`)

`handle_agent` as `event.c` computes it: one call reads from the socket of an agent and
dispatches every complete message in the receive buffer.

The receive buffer is memory seen from `a->buffer`; offsets from 65536 on are whatever lies
behind it.  Pointers into the buffer are offsets.
-/

namespace Cheops.Event

open Cheops.Lib

/-! ## Constants of `event.h`, `cerror.h` and `io.h` -/

def MAX_EVENT : Nat := 256
def AGENT_RECV_BUFFER_LENGTH : Nat := 65536
def FLAG_IGNORE : Nat := 4
def EVENT_AUTH_REQUEST : Nat := 8
def REPLY_ERROR : Nat := 101
def REPLY_AUTH_REQUEST : Nat := 108
def AGENT_FLAGS_LOGGED_IN : UInt32 := 1
def ERROR_UNIMPL : Nat := 1
def CHEOPS_IO_ERR : UInt16 := 0x008
def CHEOPS_IO_HUP : UInt16 := 0x010
def CHEOPS_IO_NVAL : UInt16 := 0x020

/-! ## Headers and agents -/

/-- `sizeof(event_hdr)`. -/
def sizeofEventHdr : Nat := 12

/-- `ntohl(h->len)`. -/
def hdrLen (h : Mem) : Nat := be32 h 0
/-- `ntohs(h->hlen)`. -/
def hdrHlen (h : Mem) : Nat := be16 h 4
/-- `ntohs(h->type)`. -/
def hdrType (h : Mem) : Nat := be16 h 6
/-- `htonl(h->flags)`. -/
def hdrFlags (h : Mem) : Nat := be32 h 8

def eventHdr (len hlen type flags : Nat) : List UInt8 :=
  toBe 4 len ++ toBe 2 hlen ++ toBe 2 type ++ toBe 4 flags

/-- The fields of a header are read where it stands. -/
theorem standsAt_eventHdr {h : Mem} {len hlen type flags : Nat} {body : List UInt8}
    (stands : StandsAt h 0 (eventHdr len hlen type flags ++ body)) :
    hdrLen h = len % 2 ^ 32 ∧ hdrHlen h = hlen % 2 ^ 16 ∧ hdrType h = type % 2 ^ 16 ∧
      hdrFlags h = flags % 2 ^ 32 ∧ StandsAt h sizeofEventHdr body := by
  unfold eventHdr at stands
  simp only [standsAt_append, List.length_append, length_toBe] at stands
  obtain ⟨⟨⟨⟨hlen, hhlen⟩, htype⟩, hflags⟩, hbody⟩ := stands
  exact ⟨hlen.be32, hhlen.be16, htype.be16, hflags.be32, hbody⟩

/-- The fields of `struct agent_struct` that receiving uses. -/
structure Agent where
  s : Int
  buffer : Mem
  writePtr : Nat
  expectedLength : Int
  flags : UInt32

/-- `new_agent`, on a block from `malloc`, and the socket its caller stores in it. -/
def newAgent (s : Int) (block : Mem) : Agent where
  s := s
  buffer := block
  writePtr := 0
  expectedLength := -1
  flags := 0

/-! ## The dispatcher -/

/-- A `cheops_event_handler`.  It is given the agent (by its address), the header, the event,
    the agent's flags and the rest of the program; it may change the last two. -/
abbrev Handler (ω : Type) := Nat → Mem → Mem → UInt32 → ω → UInt32 × ω

/-- The program around `handle_agent`: what `authenticating_clients()` returns, the table of
    handlers, and `event_send`.  `event_register_handler` enters `handle_auth_request` in the
    table before anything else. -/
structure Server (ω : Type) where
  authenticating : Bool
  handlers : Nat → Option (Handler ω)
  authRegistered : (handlers EVENT_AUTH_REQUEST).isSome
  eventSend : Nat → List UInt8 → ω → ω

inductive Disposal where
  | typeTooLarge
  | headerTooLong
  | handled
  | unsupported
  | refused
deriving DecidableEq, Repr

/-- A message the dispatcher has disposed of: its bytes, its type, and the memory from the
    event on, as a handler was given it. -/
structure Dispatch where
  disposal : Disposal
  type : Nat
  message : List UInt8
  event : Mem

variable {ω : Type}

/-- The event `cheops_error` sends. -/
def cheopsErrorEvent (error : Nat) (c : List UInt8) : List UInt8 :=
  let c := c.take (65536 - sizeofEventHdr - 4 - 1)
  eventHdr (c.length + sizeofEventHdr + 4) sizeofEventHdr REPLY_ERROR FLAG_IGNORE ++
    toBe 2 error ++ toBe 2 c.length ++ c

/-- The answer to a message nobody handles, unless its flags ask for none. -/
def unsupportedReply (S : Server ω) (id : Nat) (h : Mem) (w : ω) : ω :=
  if (hdrFlags h) &&& FLAG_IGNORE = 0 then
    S.eventSend id
      (cheopsErrorEvent ERROR_UNIMPL (text s!"Unsupported message type {hdrType h}\n")) w
  else w

/-- `e`, the event behind the header at the start of the buffer. -/
def Agent.event (a : Agent) : Mem := fun i => a.buffer (hdrHlen a.buffer + i)

def Agent.disposed (a : Agent) (disposal : Disposal) : Dispatch where
  disposal := disposal
  type := hdrType a.buffer
  message := slice a.buffer 0 a.expectedLength.toNat
  event := a.event

def dispatch (S : Server ω) (id : Nat) (a : Agent) (w : ω) : Dispatch × UInt32 × ω :=
  if hdrType a.buffer ≥ MAX_EVENT then (a.disposed .typeTooLarge, a.flags, w)
  else if hdrHlen a.buffer > hdrLen a.buffer then (a.disposed .headerTooLong, a.flags, w)
  else if a.flags &&& AGENT_FLAGS_LOGGED_IN ≠ 0 ∨ S.authenticating = false then
    match S.handlers (hdrType a.buffer) with
    | some handler => (a.disposed .handled, handler id a.buffer a.event a.flags w)
    | none => (a.disposed .unsupported, a.flags, unsupportedReply S id a.buffer w)
  else if hdrType a.buffer = EVENT_AUTH_REQUEST then
    (a.disposed .handled,
      (S.handlers EVENT_AUTH_REQUEST).get S.authRegistered id a.buffer a.event a.flags w)
  else (a.disposed .refused, a.flags, unsupportedReply S id a.buffer w)

/-- A message is either answered or passed over with the flags left alone, or handled by the
    handler of its type; the latter only when nobody need log in, the agent has logged in, or
    the message is a login. -/
theorem dispatch_cases (S : Server ω) (id : Nat) (a : Agent) (w : ω) :
    (∃ disposal w', disposal ≠ .handled ∧
      dispatch S id a w = (a.disposed disposal, a.flags, w')) ∨
    (∃ handler, S.handlers (hdrType a.buffer) = some handler ∧
      (S.authenticating = false ∨ a.flags &&& AGENT_FLAGS_LOGGED_IN ≠ 0 ∨
        hdrType a.buffer = EVENT_AUTH_REQUEST) ∧
      dispatch S id a w = (a.disposed .handled, handler id a.buffer a.event a.flags w)) := by
  unfold dispatch
  split_ifs with htype hlong hopen hauth
  · exact .inl ⟨_, _, by decide, rfl⟩
  · exact .inl ⟨_, _, by decide, rfl⟩
  · cases hhandler : S.handlers (hdrType a.buffer) with
    | some handler => exact .inr ⟨handler, rfl, by tauto, rfl⟩
    | none => exact .inl ⟨_, _, by decide, rfl⟩
  · exact .inr ⟨_, by rw [hauth]; simp, .inr (.inr hauth), rfl⟩
  · exact .inl ⟨_, _, by decide, rfl⟩

/-! ## `handle_agent` -/

/-- How a call of `handle_agent` ends: it returns 1 (`keep`); it returns 0 with the agent left
    on the list (`drop`) or destroyed (`destroyed`); or the process exits. -/
inductive Verdict where
  | keep
  | drop
  | destroyed
  | exited
deriving DecidableEq, Repr

structure Outcome (ω : Type) where
  verdict : Verdict
  agent : Agent
  world : ω
  dispatched : List Dispatch

def usub64 (x y : Nat) : Nat := (x + 2 ^ 64 - y) % 2 ^ 64

/-- The lines at `again:`, with `res` new bytes behind `write_ptr`: `expected_length` is set
    and `write_ptr` moves.  The subtraction is one of `size_t`, because
    `sizeof(h->len)` is.  `none` is the event that is too large. -/
def again (a : Agent) (res : Nat) : Option Agent :=
  if res < usub64 4 a.writePtr then
    some { a with expectedLength := 0, writePtr := a.writePtr + res }
  else if hdrLen a.buffer > AGENT_RECV_BUFFER_LENGTH then none
  else some { a with expectedLength := hdrLen a.buffer, writePtr := a.writePtr + res }

theorem again_writePtr {a a' : Agent} {res : Nat} (h : again a res = some a') :
    a'.writePtr = a.writePtr + res := by
  unfold again at h
  split at h
  · cases h; rfl
  · split at h
    · cases h
    · cases h; rfl

theorem again_flags {a a' : Agent} {res : Nat} (h : again a res = some a') :
    a'.flags = a.flags := by
  unfold again at h
  split at h
  · cases h; rfl
  · split at h
    · cases h
    · cases h; rfl

def Agent.behind (a : Agent) : Nat := a.writePtr - a.expectedLength.toNat

/-- The agent when its message has been dispatched: the bytes behind the message are moved
    to the front, where `again:` will count them in. -/
def Agent.shift (a : Agent) (flags : UInt32) : Agent :=
  { a with
    buffer := copyWithin a.buffer 0 a.expectedLength.toNat a.behind
    writePtr := 0
    expectedLength := 0
    flags := flags }

def Agent.HasMessage (a : Agent) : Prop :=
  (a.writePtr : Int) ≥ a.expectedLength ∧ a.expectedLength > 0

instance (a : Agent) : Decidable a.HasMessage := inferInstanceAs (Decidable (_ ∧ _))

theorem shift_again_lt {a a' : Agent} {flags : UInt32} (h : a.HasMessage)
    (h' : again (a.shift flags) a.behind = some a') : a'.writePtr < a.writePtr := by
  have hmsg := h
  rw [again_writePtr h']
  simp only [Agent.HasMessage, Agent.behind, Agent.shift] at *
  omega

/-- From the test for a whole message on: while there is one it is dispatched, and control
    goes back to `again:`. -/
def process (S : Server ω) (id : Nat) (a : Agent) (w : ω) : Outcome ω :=
  if _h : a.HasMessage then
    let step := dispatch S id a w
    match _h' : again (a.shift step.2.1) a.behind with
    | none =>
      { verdict := .drop, agent := a.shift step.2.1, world := step.2.2, dispatched := [step.1] }
    | some a' =>
      let o := process S id a' step.2.2
      { o with dispatched := step.1 :: o.dispatched }
  else { verdict := .keep, agent := a, world := w, dispatched := [] }
termination_by a.writePtr
decreasing_by exact shift_again_lt _h _h'

section process

variable {S : Server ω} {id : Nat} {a a' : Agent} {w : ω}

theorem process_none (h : ¬ a.HasMessage) :
    process S id a w = { verdict := .keep, agent := a, world := w, dispatched := [] } := by
  rw [process, dif_neg h]

theorem process_drop (h : a.HasMessage)
    (h' : again (a.shift (dispatch S id a w).2.1) a.behind = none) :
    process S id a w =
      { verdict := .drop, agent := a.shift (dispatch S id a w).2.1,
        world := (dispatch S id a w).2.2, dispatched := [(dispatch S id a w).1] } := by
  rw [process, dif_pos h]
  simp only
  split
  · rfl
  · simp_all

theorem process_again (h : a.HasMessage)
    (h' : again (a.shift (dispatch S id a w).2.1) a.behind = some a') :
    process S id a w =
      { process S id a' (dispatch S id a w).2.2 with
        dispatched :=
          (dispatch S id a w).1 :: (process S id a' (dispatch S id a w).2.2).dispatched } := by
  rw [process, dif_pos h]
  simp only
  split <;> simp_all

end process

/-- What `agent_read` returns: a negative number, or bytes, none at the end of the stream. -/
inductive ReadResult where
  | failed
  | bytes (bs : List UInt8)

/-- The space `handle_agent` offers to `agent_read`. -/
def Agent.free (a : Agent) : Nat := AGENT_RECV_BUFFER_LENGTH - a.writePtr

/-- `handle_agent`.  The first read of a message stores at `&h->len`, the start of the buffer;
    later reads at `write_ptr`. -/
def handleAgent (S : Server ω) (id : Nat) (fd : Int) (events : UInt16) (read : ReadResult)
    (a : Agent) (w : ω) : Outcome ω :=
  let stop (verdict : Verdict) (a : Agent) : Outcome ω :=
    { verdict, agent := a, world := w, dispatched := [] }
  if a.s ≠ fd then stop .drop a
  else if events &&& (CHEOPS_IO_ERR ||| CHEOPS_IO_HUP ||| CHEOPS_IO_NVAL) ≠ 0 then
    stop .destroyed a
  else if a.free = 0 then stop .exited a
  else
    match read with
    | .failed | .bytes [] => stop .destroyed a
    | .bytes bs =>
      if a.expectedLength = -1 then
        let a := { a with buffer := store a.buffer 0 bs }
        if bs.length < 4 then
          process S id { a with expectedLength := 0, writePtr := a.writePtr + bs.length } w
        else if hdrLen a.buffer > AGENT_RECV_BUFFER_LENGTH then stop .drop a
        else
          process S id
            { a with expectedLength := hdrLen a.buffer, writePtr := a.writePtr + bs.length } w
      else
        let a := { a with buffer := store a.buffer a.writePtr bs }
        match again a bs.length with
        | none => stop .drop a
        | some a => process S id a w

/-- A call either disposes of no message, or comes to the test for a whole message; reading
    leaves the flags alone. -/
theorem handleAgent_cases (S : Server ω) (id : Nat) (fd : Int) (events : UInt16)
    (read : ReadResult) (a : Agent) (w : ω) :
    ((handleAgent S id fd events read a w).dispatched = [] ∧
      (handleAgent S id fd events read a w).agent.flags = a.flags) ∨
    ∃ a' : Agent, a'.flags = a.flags ∧
      handleAgent S id fd events read a w = process S id a' w := by
  unfold handleAgent
  simp only
  split
  · exact .inl ⟨rfl, rfl⟩
  split
  · exact .inl ⟨rfl, rfl⟩
  split
  · exact .inl ⟨rfl, rfl⟩
  split
  · exact .inl ⟨rfl, rfl⟩
  · exact .inl ⟨rfl, rfl⟩
  split
  · split
    · refine .inr ⟨_, ?_, rfl⟩
      rfl
    · split
      · exact .inl ⟨rfl, rfl⟩
      · refine .inr ⟨_, ?_, rfl⟩
        rfl
  · split
    · exact .inl ⟨rfl, rfl⟩
    next hagain =>
      have hflags := again_flags hagain
      exact .inr ⟨_, hflags, rfl⟩

end Cheops.Event
