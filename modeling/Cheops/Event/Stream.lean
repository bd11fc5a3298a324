import Cheops.Event.Basic
import Cheops.Lib.Framing

/-! # What one call of `handle_agent` does to the stream

The bytes a client sends are a stream of events, each beginning with its length.
`eventFraming` says what the events of a stream are, without any buffer.

With at most four bytes buffered, a call of `handle_agent` dispatches the complete events
of the buffered and the read bytes and buffers the rest (`handleAgent_sync`).  With more than
four bytes buffered, `sizeof(h->len) - (a->write_ptr - a->buffer)` wraps around, and a call
only adds what it reads to the buffer (`handleAgent_stuck`).
-/

namespace Cheops.Event

open Cheops.Lib

/-! ## The events of a stream -/

/-- The length an event claims, if it is one `handle_agent` waits for. -/
def eventSize (bs : List UInt8) : Option Nat :=
  if bs.length < 4 then none
  else if beNat (bs.take 4) = 0 ∨ beNat (bs.take 4) > AGENT_RECV_BUFFER_LENGTH then none
  else some (beNat (bs.take 4))

theorem eventSize_eq_some {bs : List UInt8} {n : Nat} :
    eventSize bs = some n ↔
      4 ≤ bs.length ∧ beNat (bs.take 4) = n ∧ 0 < n ∧ n ≤ AGENT_RECV_BUFFER_LENGTH := by
  unfold eventSize
  split
  next h => simp; omega
  next h =>
    split
    next h' => simp; omega
    next h' => simp; omega

def eventFraming : Framing UInt8 where
  size := eventSize
  size_pos h := (eventSize_eq_some.mp h).2.2.1
  size_append ys h := by
    rw [eventSize_eq_some] at h ⊢
    refine ⟨by rw [List.length_append]; omega, ?_, h.2.2⟩
    rw [List.take_append_of_le_length h.1, h.2.1]

/-- A stream shorter than the event it begins with. -/
theorem incomplete_of_length {bs : List UInt8} (h : bs.length < beNat (bs.take 4)) :
    eventFraming.Incomplete bs := fun _ hn => (eventSize_eq_some.mp hn).2.1 ▸ h

/-- The first event of the stream claims to be larger than the receive buffer. -/
def Oversize (bs : List UInt8) : Prop :=
  4 ≤ bs.length ∧ beNat (bs.take 4) > AGENT_RECV_BUFFER_LENGTH

instance (bs : List UInt8) : Decidable (Oversize bs) := inferInstanceAs (Decidable (_ ∧ _))

theorem Oversize.append {bs : List UInt8} (h : Oversize bs) (cs : List UInt8) :
    Oversize (bs ++ cs) := by
  refine ⟨by rw [List.length_append]; have := h.1; omega, ?_⟩
  rw [List.take_append_of_le_length h.1]
  exact h.2

theorem Oversize.rest {bs : List UInt8} (h : Oversize bs) : eventFraming.rest bs = bs := by
  refine Framing.rest_of_incomplete fun n hn => ?_
  have hsize := eventSize_eq_some.mp hn
  have := h.2
  omega

/-! ## Agents and their buffered bytes -/

def Agent.buffered (a : Agent) : List UInt8 := slice a.buffer 0 a.writePtr

@[simp] theorem length_buffered (a : Agent) : a.buffered.length = a.writePtr := length_slice

/-- `expected_length` is what the buffered bytes say it is. -/
structure Agent.Learned (a : Agent) : Prop where
  expected : a.expectedLength = if a.writePtr < 4 then 0 else (hdrLen a.buffer : Int)
  fits : 4 ≤ a.writePtr → hdrLen a.buffer ≤ AGENT_RECV_BUFFER_LENGTH

/-- A new message is awaited only while nothing is buffered. -/
def Agent.Ready (a : Agent) : Prop := a.expectedLength = -1 → a.writePtr = 0

theorem Agent.Learned.ready {a : Agent} (h : a.Learned) : a.Ready := by
  intro hneg
  rw [h.expected] at hneg
  split at hneg <;> omega

theorem hdrLen_eq {a : Agent} (h : 4 ≤ a.writePtr) :
    hdrLen a.buffer = beNat (a.buffered.take 4) := be32_eq rfl h

/-! ## `again:` -/

theorem usub64_small {w : Nat} (h : w ≤ 4) : usub64 4 w = 4 - w := by
  unfold usub64; omega

theorem usub64_wraps {w : Nat} (h : 4 < w) (h' : w ≤ AGENT_RECV_BUFFER_LENGTH) :
    AGENT_RECV_BUFFER_LENGTH < usub64 4 w := by
  unfold usub64 AGENT_RECV_BUFFER_LENGTH at *; omega

/-- With at most four bytes in front of the new ones, `again:` learns the length. -/
theorem again_sync {a : Agent} (res : Nat) (h : a.writePtr ≤ 4) :
    (Oversize (slice a.buffer 0 (a.writePtr + res)) ∧ again a res = none) ∨
    (¬ Oversize (slice a.buffer 0 (a.writePtr + res)) ∧
      ∃ a', again a res = some a' ∧ a'.Learned ∧ a'.s = a.s ∧ a'.flags = a.flags ∧
        a'.buffered = slice a.buffer 0 (a.writePtr + res)) := by
  have hlen : 4 ≤ a.writePtr + res →
      hdrLen a.buffer = beNat ((slice a.buffer 0 (a.writePtr + res)).take 4) := be32_eq rfl
  unfold again
  rw [usub64_small h]
  split
  next hshort =>
    have hshort' : a.writePtr + res < 4 := by omega
    refine .inr ⟨fun hover => ?_, _, rfl, ⟨?_, fun h4 => ?_⟩, rfl, rfl, rfl⟩
    · have := hover.1; rw [length_slice] at this; omega
    · rw [if_pos hshort']
    · simp only at h4; omega
  next hlong =>
    have hlong' : 4 ≤ a.writePtr + res := by omega
    split
    next hbig => exact .inl ⟨⟨by rwa [length_slice], by rw [← hlen hlong']; exact hbig⟩, rfl⟩
    next hfit =>
      refine .inr ⟨fun hover => hfit ?_, _, rfl, ⟨?_, fun _ => by simpa using hfit⟩, rfl, rfl, rfl⟩
      · rw [hlen hlong']; exact hover.2
      · rw [if_neg (by simp only; omega)]

/-- With more than four bytes in front, `again:` forgets the length. -/
theorem again_stuck {a : Agent} {res : Nat} (h : 4 < a.writePtr)
    (hres : a.writePtr + res ≤ AGENT_RECV_BUFFER_LENGTH) :
    again a res = some { a with expectedLength := 0, writePtr := a.writePtr + res } := by
  have := usub64_wraps h (by omega)
  rw [again, if_pos (by omega)]

/-! ## `process` -/

variable {ω : Type} {S : Server ω} {id : Nat}

theorem not_hasMessage {a : Agent} (learned : a.Learned)
    (incomplete : eventFraming.Incomplete a.buffered) : ¬ a.HasMessage := by
  rintro ⟨hle, hpos⟩
  rw [learned.expected] at hle hpos
  split at hpos
  next => omega
  next h4 =>
    rw [if_neg h4] at hle
    have hsize : eventSize a.buffered = some (hdrLen a.buffer) := by
      rw [eventSize_eq_some, length_buffered, ← hdrLen_eq (by omega)]
      exact ⟨by omega, rfl, by omega, learned.fits (by omega)⟩
    have := incomplete _ hsize
    rw [length_buffered] at this
    omega

/-- A complete event at the front is the message, and `expected_length` is its length. -/
theorem hasMessage_of_size {a : Agent} {n : Nat} (learned : a.Learned)
    (hsize : eventSize a.buffered = some n) (hle : n ≤ a.buffered.length) :
    a.HasMessage ∧ a.expectedLength = n := by
  rw [eventSize_eq_some, length_buffered] at hsize
  obtain ⟨h4, hn, hpos, -⟩ := hsize
  have hexp : a.expectedLength = n := by
    rw [learned.expected, if_neg (by omega), hdrLen_eq h4, hn]
  rw [length_buffered] at hle
  exact ⟨⟨by omega, by omega⟩, hexp⟩

theorem dispatch_message (a : Agent) (w : ω) :
    (dispatch S id a w).1.message = slice a.buffer 0 a.expectedLength.toNat := by
  rcases dispatch_cases S id a w with ⟨_, _, -, h⟩ | ⟨_, -, -, h⟩ <;> rw [h] <;> rfl

/-- `process` dispatches the complete events of the buffered bytes and keeps the rest. -/
theorem process_sync (id : Nat) {a : Agent} (w : ω) (learned : a.Learned) :
    (process S id a w).dispatched.map (·.message) = eventFraming.frames a.buffered ∧
    ((Oversize (eventFraming.rest a.buffered) ∧ (process S id a w).verdict = .drop) ∨
     (¬ Oversize (eventFraming.rest a.buffered) ∧ (process S id a w).verdict = .keep ∧
      (process S id a w).agent.buffered = eventFraming.rest a.buffered ∧
      (process S id a w).agent.Ready ∧ (process S id a w).agent.s = a.s)) := by
  generalize hbs : a.buffered = bs
  induction bs using eventFraming.induction generalizing a w with
  | incomplete bs incomplete =>
    subst hbs
    rw [process_none (not_hasMessage learned incomplete), Framing.frames_of_incomplete incomplete,
      Framing.rest_of_incomplete incomplete]
    refine ⟨rfl, .inr ⟨fun hover => ?_, rfl, rfl, learned.ready, rfl⟩⟩
    have hw := hover.1
    rw [length_buffered] at hw
    have := learned.fits hw
    rw [hdrLen_eq hw] at this
    have := hover.2
    omega
  | frame bs n hsize hle ih =>
    subst hbs
    obtain ⟨hmsg, hexp⟩ := hasMessage_of_size learned hsize hle
    rw [length_buffered] at hle
    have hn : a.expectedLength.toNat = n := by omega
    have hbehind : a.behind = a.writePtr - n := by rw [Agent.behind, hn]
    have hfirst : (dispatch S id a w).1.message = a.buffered.take n := by
      rw [dispatch_message, hn, Agent.buffered, take_slice hle]
    have hmoved : slice (a.shift (dispatch S id a w).2.1).buffer 0
        ((a.shift (dispatch S id a w).2.1).writePtr + a.behind) = a.buffered.drop n := by
      simp only [Agent.shift, Nat.zero_add, slice_copyWithin]
      rw [hbehind, hn, Agent.buffered, drop_slice hle, Nat.zero_add]
    rw [Framing.frames_of_size hsize (by rwa [length_buffered]),
      Framing.rest_of_size hsize (by rwa [length_buffered])]
    have hshift : (a.shift (dispatch S id a w).2.1).writePtr ≤ 4 := by simp [Agent.shift]
    rcases again_sync a.behind hshift with
      ⟨hover, hagain⟩ | ⟨hfit, a', hagain, learned', hs, -, hbuf⟩
    · rw [hmoved] at hover
      have hframes : eventFraming.frames (a.buffered.drop n) = [] := by
        refine Framing.frames_of_incomplete fun k hk => ?_
        have := (eventSize_eq_some.mp hk).2
        have := hover.2
        omega
      rw [process_drop hmsg hagain]
      exact ⟨by simp [hfirst, hframes], .inl ⟨by rwa [hover.rest], rfl⟩⟩
    · rw [hmoved] at hbuf
      rw [process_again hmsg hagain]
      obtain ⟨hmessages, hend⟩ := ih (w := (dispatch S id a w).2.2) learned' hbuf
      refine ⟨by simp [hfirst, hmessages], hend.imp_right fun h => ?_⟩
      exact ⟨h.1, h.2.1, h.2.2.1, h.2.2.2.1, h.2.2.2.2.trans hs⟩

/-! ## `handle_agent` -/

abbrev receive (S : Server ω) (id : Nat) (bs : List UInt8) (a : Agent) (w : ω) : Outcome ω :=
  handleAgent S id a.s 1 (.bytes bs) a w

theorem receive_eq {a : Agent} {w : ω} {bs : List UInt8} (ready : a.Ready) (hbs : bs ≠ [])
    (hfit : bs.length ≤ a.free) :
    receive S id bs a w =
      match again { a with buffer := store a.buffer a.writePtr bs } bs.length with
      | none => { verdict := .drop,
                  agent := { a with buffer := store a.buffer a.writePtr bs },
                  world := w, dispatched := [] }
      | some a' => process S id a' w := by
  have hfree : a.free ≠ 0 := by have := List.length_pos_iff.mpr hbs; omega
  have hio : ¬ (1 &&& (CHEOPS_IO_ERR ||| CHEOPS_IO_HUP ||| CHEOPS_IO_NVAL) ≠ 0) := by decide
  obtain ⟨b, bs', rfl⟩ := List.exists_cons_of_ne_nil hbs
  unfold receive handleAgent
  simp only [ne_eq, not_true_eq_false, if_false, if_neg hio, if_neg hfree]
  by_cases hnew : a.expectedLength = -1
  · -- the first read of a message: nothing is buffered, so `again:` does the same
    have hw := ready hnew
    simp only [if_pos hnew, again, hw, usub64_small (Nat.zero_le 4), Nat.sub_zero]
    split_ifs <;> rfl
  · exact if_neg hnew ▸ rfl

theorem slice_store_buffered {a : Agent} {bs : List UInt8} :
    slice (store a.buffer a.writePtr bs) 0 (a.writePtr + bs.length) = a.buffered ++ bs := by
  have hbuffered : slice a.buffer 0 a.writePtr = a.buffered := rfl
  have := slice_store_append bs hbuffered
  rwa [Nat.zero_add] at this

/-- With at most four bytes buffered. -/
theorem handleAgent_sync (id : Nat) {a : Agent} (w : ω) {bs : List UInt8} (ready : a.Ready)
    (hw : a.writePtr ≤ 4) (hbs : bs ≠ []) (hfit : bs.length ≤ a.free) :
    (receive S id bs a w).dispatched.map (·.message) =
        eventFraming.frames (a.buffered ++ bs) ∧
    ((Oversize (eventFraming.rest (a.buffered ++ bs)) ∧ (receive S id bs a w).verdict = .drop) ∨
     (¬ Oversize (eventFraming.rest (a.buffered ++ bs)) ∧
      (receive S id bs a w).verdict = .keep ∧
      (receive S id bs a w).agent.buffered = eventFraming.rest (a.buffered ++ bs) ∧
      (receive S id bs a w).agent.Ready)) := by
  rw [receive_eq ready hbs hfit]
  rcases again_sync (a := { a with buffer := store a.buffer a.writePtr bs }) bs.length hw with
    ⟨hover, hagain⟩ | ⟨-, a', hagain, learned, -, -, hbuf⟩
  · rw [slice_store_buffered] at hover
    have hframes : eventFraming.frames (a.buffered ++ bs) = [] := by
      refine Framing.frames_of_incomplete fun k hk => ?_
      have := (eventSize_eq_some.mp hk).2
      have := hover.2
      omega
    rw [hagain, hover.rest, hframes]
    exact ⟨rfl, .inl ⟨hover, rfl⟩⟩
  · rw [slice_store_buffered] at hbuf
    rw [hagain]
    have hprocess := process_sync (S := S) id w learned
    rw [hbuf] at hprocess
    refine ⟨hprocess.1, hprocess.2.imp_right fun h => ⟨h.1, h.2.1, h.2.2.1, h.2.2.2.1⟩⟩

/-- With more than four bytes buffered. -/
theorem handleAgent_stuck (id : Nat) {a : Agent} (w : ω) {bs : List UInt8} (ready : a.Ready)
    (hw : 4 < a.writePtr) (hbs : bs ≠ []) (hfit : bs.length ≤ a.free) :
    (receive S id bs a w).dispatched = [] ∧ (receive S id bs a w).verdict = .keep ∧
    (receive S id bs a w).agent.buffered = a.buffered ++ bs ∧
    (receive S id bs a w).agent.Ready := by
  have hroom : a.writePtr + bs.length ≤ AGENT_RECV_BUFFER_LENGTH := by
    have := List.length_pos_iff.mpr hbs
    unfold Agent.free at hfit
    omega
  rw [receive_eq ready hbs hfit,
    again_stuck (a := { a with buffer := store a.buffer a.writePtr bs }) hw hroom]
  simp only
  rw [process_none (by simp [Agent.HasMessage])]
  exact ⟨rfl, rfl, slice_store_buffered, by simp [Agent.Ready]⟩

/-! ## What a call does to the agent -/

theorem again_s {a a' : Agent} {res : Nat} (h : again a res = some a') : a'.s = a.s := by
  unfold again at h
  split at h
  · cases h
    rfl
  · split at h
    · cases h
    · cases h
      rfl

theorem process_s (a : Agent) (w : ω) : (process S id a w).agent.s = a.s := by
  induction hn : a.writePtr using Nat.strongRecOn generalizing a w with
  | ind n ih =>
    by_cases message : a.HasMessage
    · cases more : again (a.shift (dispatch S id a w).2.1) a.behind with
      | none => rw [process_drop message more]; rfl
      | some a' =>
        have kept : a'.s = (a.shift (dispatch S id a w).2.1).s := again_s more
        rw [process_again message more]
        exact (ih _ (hn ▸ shift_again_lt message more) _ _ rfl).trans kept
    · rw [process_none message]

/-- With no error on the descriptor, the call is one that reads. -/
theorem handleAgent_reads (id : Nat) {a : Agent} {events : UInt16} (w : ω) (read : ReadResult)
    (quiet : events &&& (CHEOPS_IO_ERR ||| CHEOPS_IO_HUP ||| CHEOPS_IO_NVAL) = 0) :
    handleAgent S id a.s events read a w = handleAgent S id a.s 1 read a w := by
  have plain : ¬ (1 &&& (CHEOPS_IO_ERR ||| CHEOPS_IO_HUP ||| CHEOPS_IO_NVAL) ≠ 0) := by decide
  unfold handleAgent
  simp only
  rw [if_neg (not_not.mpr quiet), if_neg plain]

/-- The stream is cut where a length is read, and the message that comes next is too large. -/
def Agent.TooLarge (a : Agent) (bs : List UInt8) : Prop :=
  a.writePtr ≤ 4 ∧ Oversize (eventFraming.rest (a.buffered ++ bs))

/-- Every call that reads leaves the agent on its socket; it is given up if an event is too
    large, and only then. -/
theorem handleAgent_read (id : Nat) {a : Agent} (w : ω) {bs : List UInt8} (ready : a.Ready)
    (nonempty : bs ≠ []) (fits : bs.length ≤ a.free) :
    (receive S id bs a w).agent.s = a.s ∧
      (a.TooLarge bs ∧ (receive S id bs a w).verdict = .drop ∨
        ¬ a.TooLarge bs ∧ (receive S id bs a w).verdict = .keep ∧
          (receive S id bs a w).agent.Ready) := by
  constructor
  · rw [receive_eq ready nonempty fits]
    cases more : again { a with buffer := store a.buffer a.writePtr bs } bs.length with
    | none => rfl
    | some a' =>
      have kept := again_s more
      exact (process_s a' w).trans kept
  · by_cases short : a.writePtr ≤ 4
    · obtain ⟨-, ⟨large, drop⟩ | ⟨fine, keep, -, ready'⟩⟩ :=
        handleAgent_sync (S := S) id w ready short nonempty fits
      · exact .inl ⟨⟨short, large⟩, drop⟩
      · exact .inr ⟨fun large => fine large.2, keep, ready'⟩
    · obtain ⟨-, keep, -, ready'⟩ := handleAgent_stuck (S := S) id w ready (by omega) nonempty fits
      exact .inr ⟨fun large => short large.1, keep, ready'⟩

/-- A message that is read whole while nothing is buffered is dispatched at the start of the
    buffer; behind it the buffer is as it was. -/
theorem receive_whole {a : Agent} (w : ω) {msg : List UInt8} (ready : a.Ready)
    (empty : a.writePtr = 0) (whole : eventSize msg = some msg.length) :
    ∃ b : Agent, b.buffer = store a.buffer 0 msg ∧ b.flags = a.flags ∧
      (receive S id msg a w).world = (dispatch S id b w).2.2 := by
  obtain ⟨long, length, -, fits⟩ := eventSize_eq_some.mp whole
  have nonempty : msg ≠ [] := List.ne_nil_of_length_pos (by omega)
  have stored : slice (store a.buffer 0 msg) 0 msg.length = msg := slice_store
  have hlen : hdrLen (store a.buffer 0 msg) = msg.length := by
    rw [hdrLen, be32_eq stored long, length]
  let b : Agent := { a with
    buffer := store a.buffer 0 msg, writePtr := msg.length, expectedLength := (msg.length : Int) }
  refine ⟨b, rfl, rfl, ?_⟩
  have message : b.HasMessage := ⟨Int.le_refl _, by simp only [b]; omega⟩
  have behind : b.behind = 0 := by simp [Agent.behind, b]
  have learned : again { a with buffer := store a.buffer a.writePtr msg } msg.length = some b := by
    unfold again
    simp only [empty]
    rw [usub64_small (Nat.zero_le 4), if_neg (by omega), if_neg (by rw [hlen]; omega)]
    simp only [b, hlen, Nat.zero_add]
  have emptied : ∃ c, again (b.shift (dispatch S id b w).2.1) b.behind = some c ∧
      ¬ c.HasMessage := by
    rw [behind]
    refine ⟨_, if_pos (by simp [Agent.shift, usub64]), ?_⟩
    simp [Agent.HasMessage]
  obtain ⟨c, again_c, idle⟩ := emptied
  rw [receive_eq ready nonempty (by rw [Agent.free, empty]; omega), learned]
  simp only
  rw [process_again message again_c, process_none idle]

end Cheops.Event
