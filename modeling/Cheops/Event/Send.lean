import Cheops.Event.Basic

/-! # Sending events (`event.c`)

`event_send` hands an event to one `write`, on a socket that does not block.  What that write does
not take is not written later: `events_delivered_iff` says that the stream consists of the events
that were sent exactly if no write is short.  (The build without SSL.)
-/

namespace Cheops.Event

open Cheops.Lib

/-! ## `event_send` -/

def AGENT_TYPE_LOCAL : Nat := 1
def AGENT_TYPE_IPV4 : Nat := 2

/-- An agent on the list `agents`: its address and its `type`. -/
structure Peer where
  addr : Nat
  type : Nat
deriving DecidableEq, Repr

/-- `agent_write`: its result, and the bytes put on the socket.  `written` is what `write` or
    `send` returns. -/
def agentWrite (type : Nat) (buffer : Mem) (written : Int) : Int × List UInt8 :=
  if type = AGENT_TYPE_LOCAL ∨ type = AGENT_TYPE_IPV4 then
    (written, slice buffer 0 written.toNat)
  else (-1, [])

/-- `event_send`; `chk_agent` looks for the agent on the list.  A short write is logged. -/
def eventSend (agents : List Peer) (a : Nat) (h : Mem) (written : Int) : Int × List UInt8 :=
  match agents.find? (·.addr = a) with
  | some peer => agentWrite peer.type h written
  | none => (-1, [])

/-! ## Sequences of events -/

/-- A call of `event_send`: the event, where it stands in memory, and what the write returns. -/
structure Call where
  h : Mem
  written : Int

def Call.message (c : Call) : List UInt8 := slice c.h 0 (hdrLen c.h)

/-- The event's length is an `int`, and `write` fails or takes a beginning of it. -/
structure Call.Valid (c : Call) : Prop where
  fits : hdrLen c.h < 2 ^ 31
  written : c.written = -1 ∨ (0 ≤ c.written ∧ c.written ≤ hdrLen c.h)

/-- The write takes a part of the event, or nothing of it without an error. -/
def Call.Short (c : Call) : Prop := 0 ≤ c.written ∧ c.written < hdrLen c.h

instance (c : Call) : Decidable c.Short := inferInstanceAs (Decidable (_ ∧ _))

def stream (agents : List Peer) (a : Nat) (calls : List Call) : List UInt8 :=
  calls.flatMap fun c => (eventSend agents a c.h c.written).2

/-- The stream is made of complete events in the order of the calls and a proper beginning of the
    next one, at most; the rest of an event comes before anything later; and what is reported as
    sent, by a result that is not negative, was put on the socket whole. -/
structure Delivered (agents : List Peer) (a : Nat) (calls : List Call) : Prop where
  framed : ∃ before after sent tail, calls = before ++ after ∧ List.Sublist sent before ∧
    stream agents a calls = sent.flatMap Call.message ++ tail ∧
    (tail = [] ∨ ∃ next ∈ after, tail <+: next.message ∧ tail ≠ next.message)
  resumed : ∀ before c after, calls = before ++ c :: after → c.Short →
    stream agents a after <+: c.message.drop c.written.toNat ∨
      c.message.drop c.written.toNat <+: stream agents a after
  reported : ∀ c ∈ calls, 0 ≤ (eventSend agents a c.h c.written).1 →
    (eventSend agents a c.h c.written).2 = c.message

def Connected (agents : List Peer) (a : Nat) : Prop :=
  ∃ peer, agents.find? (·.addr = a) = some peer ∧
    (peer.type = AGENT_TYPE_LOCAL ∨ peer.type = AGENT_TYPE_IPV4)

section

variable {agents : List Peer} {a : Nat} {calls : List Call} {c : Call}

theorem eventSend_connected (connected : Connected agents a) (h : Mem) (written : Int) :
    eventSend agents a h written = (written, slice h 0 written.toNat) := by
  obtain ⟨peer, found, type⟩ := connected
  unfold eventSend agentWrite
  rw [found]
  exact if_pos type

/-- A call that does not fail and is not short puts the event on the socket. -/
theorem Call.Valid.whole (valid : c.Valid) (long : ¬ c.Short) (sent : 0 ≤ c.written) :
    slice c.h 0 c.written.toNat = c.message := by
  obtain negative | ⟨-, bound⟩ := valid.written
  · omega
  · have full : c.written = hdrLen c.h := by
      by_contra other
      exact long ⟨sent, by omega⟩
    rw [full, Int.toNat_natCast, Call.message]

/-- Without short writes the stream is made of the events that were not refused. -/
theorem stream_eq (connected : Connected agents a) (valid : ∀ c ∈ calls, c.Valid)
    (long : ∀ c ∈ calls, ¬ c.Short) :
    stream agents a calls = (calls.filter (0 ≤ ·.written)).flatMap Call.message := by
  induction calls with
  | nil => rfl
  | cons c calls ih =>
    rw [List.forall_mem_cons] at valid long
    unfold stream at ih ⊢
    rw [List.flatMap_cons, ih valid.2 long.2, eventSend_connected connected, List.filter_cons]
    dsimp only
    split
    next sent =>
      rw [valid.1.whole long.1 (of_decide_eq_true sent), List.flatMap_cons]
    next failed =>
      have negative : c.written < 0 := by simpa using failed
      rw [Int.toNat_eq_zero.mpr (by omega), slice_zero, List.nil_append]

/-- The events are delivered exactly if no write is short. -/
theorem events_delivered_iff (connected : Connected agents a) (valid : ∀ c ∈ calls, c.Valid) :
    Delivered agents a calls ↔ ∀ c ∈ calls, ¬ c.Short := by
  constructor
  · intro delivered c member short
    have whole := delivered.reported c member
    rw [eventSend_connected connected] at whole
    have lengths := congrArg List.length (whole short.1)
    rw [length_slice, Call.message, length_slice] at lengths
    obtain ⟨low, high⟩ := short
    omega
  · intro long
    constructor
    case framed =>
      refine ⟨calls, [], calls.filter (0 ≤ ·.written), [], ?_, List.filter_sublist, ?_, .inl rfl⟩
      · rw [List.append_nil]
      · rw [stream_eq connected valid long, List.append_nil]
    case resumed =>
      rintro before c after rfl short
      cases long c (List.mem_append_right _ (.head _)) short
    case reported =>
      intro c member sent
      rw [eventSend_connected connected] at sent ⊢
      exact (valid c member).whole (long c member) sent

end

def headerOnly (type : Nat) : Mem := store (fun _ => 0) 0 (eventHdr 12 sizeofEventHdr type 0)

/-- A peer that takes a whole event, and then refuses one. -/
theorem events_delivered_refused :
    Delivered [⟨1, AGENT_TYPE_IPV4⟩] 1 [⟨headerOnly 2, 12⟩, ⟨headerOnly 3, -1⟩] := by
  refine (events_delivered_iff ⟨⟨1, AGENT_TYPE_IPV4⟩, by decide, by decide⟩ ?_).mpr (by decide)
  simp only [List.forall_mem_cons]
  exact ⟨⟨by decide, by decide⟩, ⟨by decide, by decide⟩, fun c member => by cases member⟩

/-- The peer takes five bytes of the first event.  The second one follows them, and the first is
    reported as sent. -/
theorem events_torn :
    let calls : List Call := [⟨headerOnly 2, 5⟩, ⟨headerOnly 3, 12⟩]
    let agents : List Peer := [⟨1, AGENT_TYPE_IPV4⟩]
    Connected agents 1 ∧ (∀ c ∈ calls, c.Valid) ∧
      (eventSend agents 1 (headerOnly 2) 5).1 = 5 ∧
      stream agents 1 calls = [0, 0, 0, 12, 0, 0, 0, 0, 12, 0, 12, 0, 3, 0, 0, 0, 0] ∧
      ¬ Delivered agents 1 calls := by
  have whole : (eventSend [⟨1, AGENT_TYPE_IPV4⟩] 1 (headerOnly 2) 5).2 ≠
      (⟨headerOnly 2, 5⟩ : Call).message := by decide
  refine ⟨⟨⟨1, AGENT_TYPE_IPV4⟩, by decide, by decide⟩, ?_, by decide, by decide, ?_⟩
  · simp only [List.forall_mem_cons]
    exact ⟨⟨by decide, by decide⟩, ⟨by decide, by decide⟩, fun c member => by cases member⟩
  · intro delivered
    exact whole (delivered.reported _ (.head _) (by decide))

end Cheops.Event
