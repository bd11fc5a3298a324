import Cheops.Event.Stream
import Cheops.Fields.Basic

/-! # Error replies (`cerror.c`, `agent-discover.c`, `gui-handlers.c`)

`cheops_error` and `handle_discover_request` each build the reply that `handle_error` prints.  Both
leave the NUL out of the length, so the text goes on with what the receive buffer holds behind the
message, and only the first puts the code into network order (`handleError_iff`).
-/

namespace Cheops.Fields

open Cheops.Lib Cheops.Event

/-! ## The code -/

/-- The reply of `handle_discover_request` to a request that it rejects. -/
def rejection (o : ByteOrder) (errorPtr : List UInt8) : List UInt8 :=
  eventHdr (sizeofEventHdr + 4 + errorPtr.length) sizeofEventHdr REPLY_ERROR 0 ++
    o.bytes 2 99 ++ o.bytes 2 errorPtr.length ++ errorPtr

/-- The code and the text that `handle_error` prints. -/
def handleError (o : ByteOrder) (e : Mem) : Nat × List UInt8 :=
  (o.ntoh 2 (o.get 2 e 0), cstring e 4)

/-- A client, as a server that nobody logs in to.  Its world is what `handle_error` has printed. -/
structure Client where
  order : ByteOrder
  server : Server (List (Nat × List UInt8))
  registered : server.handlers REPLY_ERROR =
    some fun _ _ e flags printed => (flags, printed ++ [handleError order e])
  authenticating : server.authenticating = false

/-! ## What is meant -/

inductive ErrorReply where
  | cheopsError (error : Nat) (c : List UInt8)
  | rejected (e : Mem)

/-- An agent sends an event, and means a code and a text by it.  `cheops_error` is given any code
    and a text that fits its buffer, which has no NUL in it. -/
inductive ErrorReply.Sends (agent : ByteOrder) :
    ErrorReply → Nat × List UInt8 → List UInt8 → Prop
  | cheopsError {error : Nat} {c : List UInt8} (code : error < 2 ^ 16) (nul : 0 ∉ c)
      (fits : c.length ≤ 65536 - sizeofEventHdr - 4 - 1) :
      Sends agent (.cheopsError error c) (error, c) (cheopsErrorEvent error c)
  | rejected {e : Mem} {c : List UInt8} (rejects : handleDiscoverRequestOn agent e = .error c) :
      Sends agent (.rejected e) (99, c) (rejection agent c)

def ErrorReply.Converted (agent : ByteOrder) : ErrorReply → Prop
  | cheopsError .. => True
  | rejected _ => agent = .big

/-! ## Sending -/

variable {agent : ByteOrder} {x : ErrorReply} {e : Mem} {c event : List UInt8}

/-- The text of a rejection is one of two. -/
theorem text_of_rejects (rejects : handleDiscoverRequestOn agent e = .error c) :
    0 ∉ c ∧ c.length < 2 ^ 16 := by
  unfold handleDiscoverRequestOn at rejects
  dsimp only at rejects
  split at rejects
  case isTrue => cases rejects; constructor <;> decide
  split at rejects
  case isTrue => cases rejects; constructor <;> decide
  case isFalse => cases rejects

structure Layout (event code c : List UInt8) : Prop where
  parts : ∃ len flags size, event =
    eventHdr len sizeofEventHdr REPLY_ERROR flags ++ (code ++ (size ++ c)) ∧ size.length = 2 ∧
      len = event.length
  code : code.length = 2
  nul : 0 ∉ c
  short : c.length < 2 ^ 16

def ErrorReply.code (agent : ByteOrder) : ErrorReply → List UInt8
  | cheopsError error _ => toBe 2 error
  | rejected _ => agent.bytes 2 99

theorem ErrorReply.Sends.layout {meant : Nat × List UInt8} (sends : x.Sends agent meant event) :
    Layout event (x.code agent) meant.2 := by
  cases sends with
  | @cheopsError error c code nul fits =>
    have whole : cheopsErrorEvent error c =
        eventHdr (c.length + sizeofEventHdr + 4) sizeofEventHdr REPLY_ERROR FLAG_IGNORE ++
          (toBe 2 error ++ (toBe 2 c.length ++ c)) := by
      rw [cheopsErrorEvent, List.take_of_length_le fits, List.append_assoc, List.append_assoc]
    refine ⟨⟨_, _, _, whole, length_toBe, ?_⟩, length_toBe, nul,
      Nat.lt_of_le_of_lt fits (by decide)⟩
    rw [whole]
    simp only [eventHdr, List.length_append, length_toBe, sizeofEventHdr]
    omega
  | @rejected e c rejects =>
    obtain ⟨nul, short⟩ := text_of_rejects rejects
    have whole : rejection agent c =
        eventHdr (sizeofEventHdr + 4 + c.length) sizeofEventHdr REPLY_ERROR 0 ++
          (agent.bytes 2 99 ++ (agent.bytes 2 c.length ++ c)) := by
      rw [rejection, List.append_assoc, List.append_assoc]
    refine ⟨⟨_, _, _, whole, ByteOrder.length_bytes, ?_⟩, ByteOrder.length_bytes, nul, short⟩
    rw [whole]
    simp only [eventHdr, List.length_append, length_toBe, ByteOrder.length_bytes, sizeofEventHdr]
    omega

/-! ## Reading -/

/-- The code is read as it is meant if it is in network order. -/
theorem ErrorReply.Sends.code_iff {meant : Nat × List UInt8} (sends : x.Sends agent meant event) :
    beNat (x.code agent) = meant.1 ↔ x.Converted agent := by
  cases sends with
  | cheopsError code nul fits =>
    refine iff_of_true ?_ trivial
    rw [ErrorReply.code, beNat_toBe]
    exact Nat.mod_eq_of_lt code
  | rejected rejects =>
    change beNat (agent.bytes 2 99) = 99 ↔ agent = .big
    cases agent <;> decide

/-- The event behind the header, where a reply has arrived. -/
theorem Layout.stands {code : List UInt8} (layout : Layout event code c) {a : Agent}
    (received : StandsAt a.buffer 0 event) :
    hdrType a.buffer = REPLY_ERROR ∧ hdrHlen a.buffer ≤ hdrLen a.buffer ∧
      StandsAt a.event 0 code ∧ StandsAt a.event 4 c ∧
      a.event (4 + c.length) = a.buffer event.length := by
  obtain ⟨⟨len, flags, size, parts, length, whole⟩, codeLength, -, short⟩ := layout
  have total : event.length = 16 + c.length := by
    rw [parts]
    simp only [eventHdr, List.length_append, length_toBe, codeLength, length]
    omega
  have stands := received
  rw [parts] at stands
  obtain ⟨hdrLen, hdrHlen, hdrType, -, body⟩ := standsAt_eventHdr stands
  rw [Nat.mod_eq_of_lt (by omega)] at hdrLen
  have behind : a.event = fun i => a.buffer (sizeofEventHdr + i) := by
    unfold Agent.event
    rw [hdrHlen]
    rfl
  obtain ⟨first, rest⟩ := standsAt_append.mp body
  obtain ⟨-, last⟩ := standsAt_append.mp rest
  rw [codeLength, length] at last
  refine ⟨hdrType, ?_, ?_, ?_, ?_⟩
  · rw [hdrHlen, hdrLen, whole, total]
    unfold sizeofEventHdr
    omega
  · rw [behind]
    exact StandsAt.shift first
  · rw [behind]
    exact StandsAt.shift last
  · rw [behind, total]
    unfold sizeofEventHdr
    exact congrArg a.buffer (by omega)

/-- A client prints what is meant by an error reply that has arrived whole exactly if the buffer
    holds a NUL behind the message, and a rejection comes from a big-endian agent. -/
theorem handleError_iff (C : Client) {meant : Nat × List UInt8} (sends : x.Sends agent meant event)
    (id : Nat) {a : Agent} (received : StandsAt a.buffer 0 event)
    (printed : List (Nat × List UInt8)) :
    (dispatch C.server id a printed).2.2 = printed ++ [meant] ↔
      a.buffer event.length = 0 ∧ x.Converted agent := by
  have layout := sends.layout
  obtain ⟨type, hlen, code, text, behind⟩ := layout.stands received
  have handled :
      (dispatch C.server id a printed).2.2 = printed ++ [handleError C.order a.event] := by
    unfold dispatch
    rw [if_neg (by rw [type]; decide), if_neg (by omega), if_pos (.inr C.authenticating), type,
      C.registered]
  have number : C.order.ntoh 2 (C.order.get 2 a.event 0) = beNat (x.code agent) := by
    rw [ByteOrder.ntoh_get, ← layout.code, code]
  have string := text.cstring_iff layout.nul (Nat.lt_trans layout.short (by decide))
  rw [handled, List.append_right_inj, List.singleton_inj, handleError, Prod.ext_iff, number,
    sends.code_iff, string, behind, and_comm]

def printer : Client where
  order := .little
  server := {
    authenticating := false
    handlers := fun type =>
      if type = REPLY_ERROR then
        some fun _ _ e flags printed => (flags, printed ++ [handleError .little e])
      else if type = EVENT_AUTH_REQUEST then some fun _ _ _ flags printed => (flags, printed)
      else none
    authRegistered := rfl
    eventSend := fun _ _ printed => printed }
  registered := rfl
  authenticating := rfl

def arrived (fill : UInt8) (event : List UInt8) : Agent :=
  { newAgent 3 (store (fun _ => fill) 0 event) with
    writePtr := event.length
    expectedLength := event.length }

/-- The text `hi` arrives in a new buffer. -/
theorem handleError_hi :
    (dispatch printer.server 0 (arrived 0 (cheopsErrorEvent 1 [104, 105])) []).2.2 =
      [] ++ [(1, [104, 105])] :=
  (@handleError_iff .little _ _ printer _
    (.cheopsError (by decide) (by decide) (by decide)) 0 _
    (show StandsAt (store (fun _ => 0) 0 _) 0 _ from standsAt_store) []).mpr ⟨by decide, trivial⟩

/-- With an `x` and a NUL behind it the text is `hix`, and a request for 0.0.0.0 is rejected with
    the code 25344. -/
theorem handleError_stale :
    (dispatch printer.server 0 (arrived 0 (cheopsErrorEvent 1 [104, 105] ++ [120])) []).2.2 ≠
      [(1, [104, 105])] ∧
    ∃ c, handleDiscoverRequestOn .little (fun _ => 0) = .error c ∧
      (dispatch printer.server 0 (arrived 0 (rejection .little c)) []).2.2 ≠ [(99, c)] := by
  constructor
  · decide +kernel
  · refine ⟨text "Can't Discover 0.0.0.0\n", ?_, by decide +kernel⟩
    unfold handleDiscoverRequestOn
    rw [if_neg (by decide), if_pos (by decide)]

end Cheops.Fields
