import Cheops.Event.Stream

/-! # Fragmentation of the stream

A client's bytes reach `handle_agent` in reads of any size.  `feed` makes the calls for a
list of reads, and two questions are asked about it: does it dispatch the events that were
sent (`feed_delivers_iff`), and does the process survive it (`feed_survives_iff`)?

Both answers depend on the cuts between the reads.  A cut at most four bytes behind the
start of an event is harmless; behind any other cut, `handle_agent` waits forever.
-/

namespace Cheops.Event

open Cheops.Lib

variable {ω : Type}

/-! ## Sequences of reads -/

/-- `handle_agent` on one read after the other, until it returns 0. -/
def feed (S : Server ω) (id : Nat) : List (List UInt8) → Agent → ω → Outcome ω
  | [], a, w => { verdict := .keep, agent := a, world := w, dispatched := [] }
  | bs :: reads, a, w =>
    let o := receive S id bs a w
    if o.verdict = .keep then
      let o' := feed S id reads o.agent o.world
      { o' with dispatched := o.dispatched ++ o'.dispatched }
    else o

/-- Every read that takes place brings something, and no more than it is offered. -/
def Fits (S : Server ω) (id : Nat) : List (List UInt8) → Agent → ω → Prop
  | [], _, _ => True
  | bs :: reads, a, w =>
    bs ≠ [] ∧ bs.length ≤ a.free ∧
    ((receive S id bs a w).verdict = .keep →
      Fits S id reads (receive S id bs a w).agent (receive S id bs a w).world)

/-- There is free space whenever `handle_agent` is entered, the entry after the last read
    included. -/
def Survives (S : Server ω) (id : Nat) : List (List UInt8) → Agent → ω → Prop
  | [], a, _ => 0 < a.free
  | bs :: reads, a, w =>
    0 < a.free ∧
    ((receive S id bs a w).verdict = .keep →
      Survives S id reads (receive S id bs a w).agent (receive S id bs a w).world)

variable {S : Server ω} {id : Nat} {a : Agent} {w : ω} {bs : List UInt8}
  {reads : List (List UInt8)}

theorem feed_cons_keep (h : (receive S id bs a w).verdict = .keep) :
    feed S id (bs :: reads) a w =
      { feed S id reads (receive S id bs a w).agent (receive S id bs a w).world with
        dispatched := (receive S id bs a w).dispatched ++
          (feed S id reads (receive S id bs a w).agent (receive S id bs a w).world).dispatched } :=
  if_pos h

theorem newAgent_ready (s : Int) (block : Mem) : (newAgent s block).Ready := fun _ => rfl

theorem newAgent_buffered (s : Int) (block : Mem) : (newAgent s block).buffered = [] := rfl

/-- Reads that together fit into the buffer fit one by one. -/
theorem Fits.of_total (ready : a.Ready) (nonempty : ∀ bs ∈ reads, bs ≠ [])
    (total : a.writePtr + reads.flatten.length ≤ AGENT_RECV_BUFFER_LENGTH) :
    Fits S id reads a w := by
  induction reads generalizing a w with
  | nil => trivial
  | cons bs reads ih =>
    obtain ⟨hbs, hreads⟩ := List.forall_mem_cons.mp nonempty
    rw [List.flatten_cons, List.length_append] at total
    have hfit : bs.length ≤ a.free := by unfold Agent.free; omega
    refine ⟨hbs, hfit, fun hkeep => ?_⟩
    by_cases hw : a.writePtr ≤ 4
    · obtain ⟨-, ⟨-, hdrop⟩ | ⟨-, -, hbuf, ready'⟩⟩ :=
        handleAgent_sync (S := S) id w ready hw hbs hfit
      · rw [hkeep] at hdrop; cases hdrop
      · refine ih ready' hreads ?_
        have hle := eventFraming.length_rest_le (a.buffered ++ bs)
        rw [← hbuf, List.length_append, length_buffered, length_buffered] at hle
        omega
    · obtain ⟨-, -, hbuf, ready'⟩ :=
        handleAgent_stuck (S := S) id w ready (by omega) hbs hfit
      refine ih ready' hreads ?_
      have hlen := congrArg List.length hbuf
      rw [List.length_append, length_buffered, length_buffered] at hlen
      omega

/-! ## Behind a bad cut -/

/-- With more than four bytes buffered, reads are only collected. -/
theorem feed_stuck (ready : a.Ready) (hw : 4 < a.writePtr) (fits : Fits S id reads a w) :
    (feed S id reads a w).verdict = .keep ∧ (feed S id reads a w).dispatched = [] ∧
    (feed S id reads a w).agent.buffered = a.buffered ++ reads.flatten := by
  induction reads generalizing a w with
  | nil => simp [feed]
  | cons bs reads ih =>
    obtain ⟨hbs, hfit, hfits⟩ := fits
    obtain ⟨hdisp, hkeep, hbuf, ready'⟩ :=
      handleAgent_stuck (S := S) id w ready hw hbs hfit
    have hw' := congrArg List.length hbuf
    rw [List.length_append, length_buffered, length_buffered] at hw'
    obtain ⟨hkeep', hdisp', hbuf'⟩ := ih ready' (by omega) (hfits hkeep)
    rw [feed_cons_keep hkeep]
    refine ⟨hkeep', by simp [hdisp, hdisp'], ?_⟩
    rw [hbuf', hbuf, List.flatten_cons, List.append_assoc]

theorem survives_stuck (ready : a.Ready) (hw : 4 < a.writePtr) (fits : Fits S id reads a w) :
    Survives S id reads a w ↔
      a.writePtr + reads.flatten.length < AGENT_RECV_BUFFER_LENGTH := by
  induction reads generalizing a w with
  | nil => simp only [Survives, Agent.free, List.flatten_nil, List.length_nil]; omega
  | cons bs reads ih =>
    obtain ⟨hbs, hfit, hfits⟩ := fits
    obtain ⟨-, hkeep, hbuf, ready'⟩ :=
      handleAgent_stuck (S := S) id w ready hw hbs hfit
    have hw' := congrArg List.length hbuf
    rw [List.length_append, length_buffered, length_buffered] at hw'
    have hpos := List.length_pos_iff.mpr hbs
    have hfree : 0 < a.free := by omega
    rw [List.flatten_cons, List.length_append, ← Nat.add_assoc, ← hw',
      ← ih ready' (by omega) (hfits hkeep)]
    exact ⟨fun h => h.2 hkeep, fun h => ⟨hfree, fun _ => h⟩⟩

/-! ## What the cuts leave over -/

/-- What is left of the stream at the cut behind the first `n` reads. -/
def left (buf : List UInt8) (reads : List (List UInt8)) (n : Nat) : List UInt8 :=
  eventFraming.rest (buf ++ (reads.take n).flatten)

theorem left_zero (buf : List UInt8) : left buf reads 0 = eventFraming.rest buf := by
  simp [left]

/-- What is left over is all that matters for the reads to come. -/
theorem left_succ (buf : List UInt8) (n : Nat) :
    left buf (bs :: reads) (n + 1) = left (eventFraming.rest (buf ++ bs)) reads n := by
  rw [left, left, ← Framing.rest_append, List.take_succ_cons, List.flatten_cons,
    List.append_assoc]

/-- Nothing more than the beginning of a length is left over at any cut. -/
def Synced (buf : List UInt8) (reads : List (List UInt8)) : Prop :=
  ∀ n ≤ reads.length, (left buf reads n).length ≤ 4

theorem synced_cons {buf : List UInt8} (hbuf : buf.length ≤ 4) :
    Synced buf (bs :: reads) ↔ Synced (eventFraming.rest (buf ++ bs)) reads := by
  constructor
  · intro h n hn
    rw [← left_succ]
    exact h (n + 1) (by simpa using hn)
  · intro h n hn
    cases n with
    | zero =>
      have := eventFraming.length_rest_le buf
      rw [left_zero]
      omega
    | succ n =>
      rw [left_succ]
      exact h n (by simpa using hn)

/-- Some cut lies more than four bytes into an event that could still fit, and the reads
    behind that cut fill the buffer up. -/
def Overflows (buf : List UInt8) (reads : List (List UInt8)) : Prop :=
  ∃ n ≤ reads.length,
    4 < (left buf reads n).length ∧ ¬ Oversize (left buf reads n) ∧
    AGENT_RECV_BUFFER_LENGTH ≤ (left buf reads n).length + (reads.drop n).flatten.length

theorem overflows_cons {buf : List UInt8} (hbuf : buf.length ≤ 4) :
    Overflows buf (bs :: reads) ↔ Overflows (eventFraming.rest (buf ++ bs)) reads := by
  constructor
  · rintro ⟨n, hn, h4, hfine, hfull⟩
    cases n with
    | zero =>
      have := eventFraming.length_rest_le buf
      rw [left_zero] at h4
      omega
    | succ n =>
      rw [left_succ] at h4 hfine hfull
      exact ⟨n, by simpa using hn, h4, hfine, hfull⟩
  · rintro ⟨n, hn, h4, hfine, hfull⟩
    rw [← left_succ] at h4 hfine hfull
    exact ⟨n + 1, by simpa using hn, h4, hfine, hfull⟩

/-! ## Surviving -/

theorem survives_sync (ready : a.Ready) (hw : a.writePtr ≤ 4) (fits : Fits S id reads a w) :
    Survives S id reads a w ↔ ¬ Overflows a.buffered reads := by
  induction reads generalizing a w with
  | nil =>
    have hlen := eventFraming.length_rest_le a.buffered
    rw [length_buffered] at hlen
    refine ⟨?_, fun _ => by simp only [Survives, Agent.free, AGENT_RECV_BUFFER_LENGTH]; omega⟩
    rintro - ⟨n, hn, h4, -⟩
    obtain rfl : n = 0 := by simpa using hn
    rw [left_zero] at h4
    omega
  | cons bs reads ih =>
    obtain ⟨hbs, hfit, hfits⟩ := fits
    have hfree : 0 < a.free := by have := List.length_pos_iff.mpr hbs; omega
    rw [overflows_cons (by rwa [length_buffered])]
    obtain ⟨-, ⟨hover, hdrop⟩ | ⟨hfine, hkeep, hbuf, ready'⟩⟩ :=
      handleAgent_sync (S := S) id w ready hw hbs hfit
    · -- the connection is given up, and what is left of the stream stays oversize
      refine ⟨?_, fun _ => ⟨hfree, fun hkeep => by rw [hdrop] at hkeep; cases hkeep⟩⟩
      rintro - ⟨n, -, -, hfine, -⟩
      have hmore := hover.append (reads.take n).flatten
      rw [left, hmore.rest] at hfine
      exact hfine hmore
    have hgo : Survives S id (bs :: reads) a w ↔
        Survives S id reads (receive S id bs a w).agent (receive S id bs a w).world :=
      ⟨fun h => h.2 hkeep, fun h => ⟨hfree, fun _ => h⟩⟩
    rw [hgo, ← hbuf]
    by_cases hw' : (receive S id bs a w).agent.writePtr ≤ 4
    · exact ih ready' hw' (hfits hkeep)
    · rw [survives_stuck ready' (by omega) (hfits hkeep)]
      constructor
      · rintro hroom ⟨n, -, -, -, hfull⟩
        have hlen := eventFraming.length_rest_le
          ((receive S id bs a w).agent.buffered ++ (reads.take n).flatten)
        have hsplit := congrArg (fun l => (List.flatten l).length) (List.take_append_drop n reads)
        simp only [List.flatten_append, List.length_append, length_buffered] at hlen hsplit
        simp only [left] at hfull
        omega
      · intro hno
        by_contra hfull
        have hleft : left (receive S id bs a w).agent.buffered reads 0 =
            (receive S id bs a w).agent.buffered := by
          rw [left_zero, hbuf]
          exact Framing.rest_of_incomplete (Framing.rest_incomplete _)
        refine hno ⟨0, Nat.zero_le _, ?_⟩
        rw [hleft, length_buffered, List.drop_zero]
        exact ⟨by omega, by rwa [hbuf], by omega⟩

/-- The process survives a client exactly if no cut of its stream overflows the buffer;
    whether anybody has to log in does not matter. -/
theorem feed_survives_iff {s : Int} {block : Mem}
    (fits : Fits S id reads (newAgent s block) w) :
    Survives S id reads (newAgent s block) w ↔ ¬ Overflows [] reads :=
  survives_sync (newAgent_ready s block) (Nat.zero_le 4) fits

def openServer : Server Unit where
  authenticating := false
  handlers type := if type = EVENT_AUTH_REQUEST then some fun _ _ _ flags w => (flags, w) else none
  authRegistered := rfl
  eventSend _ _ w := w

/-- Fewer bytes than the buffer holds cannot overflow it. -/
theorem not_overflows_of_short (h : reads.flatten.length < AGENT_RECV_BUFFER_LENGTH) :
    ¬ Overflows [] reads := by
  rintro ⟨n, -, -, -, hfull⟩
  have hlen := eventFraming.length_rest_le (reads.take n).flatten
  have hsplit := congrArg (fun l => (List.flatten l).length) (List.take_append_drop n reads)
  simp only [List.flatten_append, List.length_append] at hsplit
  simp only [left, List.nil_append] at hfull
  omega

/-- Two events of 12 bytes, the second cut behind its length, and the beginning of a third one. -/
def twoEvents : List (List UInt8) :=
  [[0, 0, 0, 12, 0, 12, 0, 1, 0, 0, 0, 0, 0, 0, 0, 12], [0, 12, 0, 1, 0, 0, 0, 0],
    [0, 0, 0, 20, 0, 12], [0, 1, 0]]

theorem feed_survives_events : Survives openServer 0 twoEvents (newAgent 4 fun _ => 0) () :=
  (feed_survives_iff (.of_total (newAgent_ready _ _) (by decide) (by decide))).mpr
    (not_overflows_of_short (by decide))

/-- The beginning of an event of 12 bytes, cut behind its fifth byte, and as much more as the
    buffer takes. -/
theorem exits_of_full (h : bs.length = 65531) :
    Fits S id [[0, 0, 0, 12, 0], bs] (newAgent 4 fun _ => 0) w ∧
    ¬ Survives S id [[0, 0, 0, 12, 0], bs] (newAgent 4 fun _ => 0) w := by
  have hbs : bs ≠ [] := by rintro rfl; simp at h
  have hlen : [[0, 0, 0, 12, 0], bs].flatten.length = AGENT_RECV_BUFFER_LENGTH := by
    simp only [List.flatten_cons, List.flatten_nil, List.append_nil, List.length_append, h]
    rfl
  have fits : Fits S id [[0, 0, 0, 12, 0], bs] (newAgent 4 fun _ => 0) w :=
    .of_total (newAgent_ready _ _) (by simp [hbs]) (by rw [hlen]; simp [newAgent])
  refine ⟨fits, fun hsurvives => ?_⟩
  rw [survives_sync (newAgent_ready _ _) (Nat.zero_le 4) fits] at hsurvives
  have hleft : left [] [[0, 0, 0, 12, 0], bs] 1 = [0, 0, 0, 12, 0] := by
    have hfive : eventFraming.Incomplete [0, 0, 0, 12, 0] := incomplete_of_length (by decide)
    exact Framing.rest_of_incomplete hfive
  refine hsurvives ⟨1, by simp, ?_⟩
  rw [newAgent_buffered, hleft]
  refine ⟨by decide, by decide, ?_⟩
  simp only [List.drop_succ_cons, List.drop_zero, List.flatten_cons, List.flatten_nil,
    List.append_nil, h]
  decide

theorem feed_exits :
    Fits openServer 0 [[0, 0, 0, 12, 0], List.replicate 65531 0] (newAgent 4 fun _ => 0) () ∧
    ¬ Survives openServer 0 [[0, 0, 0, 12, 0], List.replicate 65531 0]
      (newAgent 4 fun _ => 0) () :=
  exits_of_full List.length_replicate

/-! ## Delivering -/

/-- `ntohs(h->type)` and `ntohs(h->hlen)`, of the bytes of an event. -/
def eventType (e : List UInt8) : Nat := beNat ((e.drop 6).take 2)
def eventHlen (e : List UInt8) : Nat := beNat ((e.drop 4).take 2)

structure ValidEvent (e : List UInt8) : Prop where
  long : 12 ≤ e.length
  short : e.length ≤ AGENT_RECV_BUFFER_LENGTH
  len : beNat (e.take 4) = e.length
  hlen : eventHlen e ≤ e.length
  type : eventType e < MAX_EVENT

theorem ValidEvent.size {e : List UInt8} (h : ValidEvent e) :
    eventFraming.size e = some e.length :=
  eventSize_eq_some.mpr ⟨by have := h.long; omega, h.len, by have := h.long; omega, h.short⟩

/-- The events `es` have been dispatched, in order and each with its own bytes, to the handlers
    of their types, and nothing is buffered. -/
structure Delivers (S : Server ω) (es : List (List UInt8)) (o : Outcome ω) : Prop where
  verdict : o.verdict = .keep
  messages : o.dispatched.map (·.message) = es
  disposed : ∀ d ∈ o.dispatched,
    d.disposal = if (S.handlers (eventType d.message)).isSome then .handled else .unsupported
  empty : o.agent.writePtr = 0

/-- Every cut of the stream lies at the start of an event or at most four bytes behind. -/
def CutsNearStarts (es reads : List (List UInt8)) : Prop :=
  ∀ n ≤ reads.length, ∃ m ≤ es.length,
    (es.take m).flatten.length ≤ (reads.take n).flatten.length ∧
    (reads.take n).flatten.length ≤ (es.take m).flatten.length + 4

instance (es reads : List (List UInt8)) : Decidable (CutsNearStarts es reads) :=
  inferInstanceAs (Decidable (∀ n ≤ _, _))

/-! ### Every dispatched message is disposed of by its type -/

/-- The dispatcher, when nobody need log in. -/
theorem dispatch_open (hopen : S.authenticating = false)
    (valid : ValidEvent (dispatch S id a w).1.message) :
    (dispatch S id a w).1.disposal =
      if (S.handlers (eventType (dispatch S id a w).1.message)).isSome then .handled
      else .unsupported := by
  rw [dispatch_message] at valid ⊢
  have hn : 12 ≤ a.expectedLength.toNat := by simpa using valid.long
  have hlen : hdrLen a.buffer = a.expectedLength.toNat := by
    rw [hdrLen, be32_eq (n := a.expectedLength.toNat) rfl (by omega), valid.len,
      length_slice]
  have hword (off : Nat) (h : off + 2 ≤ a.expectedLength.toNat) :
      beNat (((slice a.buffer 0 a.expectedLength.toNat).drop off).take 2) = be16 a.buffer off := by
    rw [drop_slice (by omega), take_slice (by omega), Nat.zero_add, be16]
  have htype : eventType (slice a.buffer 0 a.expectedLength.toNat) = hdrType a.buffer :=
    hword 6 (by omega)
  have hhlen : eventHlen (slice a.buffer 0 a.expectedLength.toNat) = hdrHlen a.buffer :=
    hword 4 (by omega)
  have htype' := valid.type
  have hhlen' := valid.hlen
  rw [htype] at htype' ⊢
  rw [hhlen, length_slice] at hhlen'
  unfold dispatch
  rw [if_neg (by omega), if_neg (by omega), if_pos (.inr hopen)]
  cases S.handlers (hdrType a.buffer) <;> rfl

theorem process_disposed :
    ∀ d ∈ (process S id a w).dispatched, ∃ a' w', d = (dispatch S id a' w').1 := by
  induction hlen : a.writePtr using Nat.strongRecOn generalizing a w with
  | _ len ih =>
    intro d hd
    by_cases hmsg : a.HasMessage
    · cases hagain : again (a.shift (dispatch S id a w).2.1) a.behind with
      | none =>
        rw [process_drop hmsg hagain] at hd
        exact ⟨a, w, by simpa using hd⟩
      | some a' =>
        rw [process_again hmsg hagain] at hd
        rcases List.mem_cons.mp hd with rfl | hd
        · exact ⟨a, w, rfl⟩
        · exact ih _ (hlen ▸ shift_again_lt hmsg hagain) rfl d hd
    · rw [process_none hmsg] at hd
      simp at hd

theorem receive_disposed (id : Nat) (w : ω) (ready : a.Ready) (hbs : bs ≠ [])
    (hfit : bs.length ≤ a.free) :
    ∀ d ∈ (receive S id bs a w).dispatched, ∃ a' w', d = (dispatch S id a' w').1 := by
  rw [receive_eq ready hbs hfit]
  split
  · simp
  · exact process_disposed

/-! ### Runs without an oversize event -/

theorem feed_sync (ready : a.Ready) (hw : a.writePtr ≤ 4)
    (incomplete : eventFraming.Incomplete a.buffered) (fits : Fits S id reads a w)
    (fine : ∀ n ≤ reads.length, ¬ Oversize (left a.buffered reads n)) :
    (feed S id reads a w).verdict = .keep ∧
    (∀ d ∈ (feed S id reads a w).dispatched, ∃ a' w', d = (dispatch S id a' w').1) ∧
    (Synced a.buffered reads →
      (feed S id reads a w).dispatched.map (·.message) =
          eventFraming.frames (a.buffered ++ reads.flatten) ∧
        (feed S id reads a w).agent.buffered =
          eventFraming.rest (a.buffered ++ reads.flatten)) ∧
    (¬ Synced a.buffered reads → 4 < (feed S id reads a w).agent.writePtr) := by
  induction reads generalizing a w with
  | nil =>
    refine ⟨rfl, by simp [feed], fun _ => ?_, fun h => absurd (fun n hn => ?_) h⟩
    · simp [feed, Framing.frames_of_incomplete incomplete, Framing.rest_of_incomplete incomplete]
    · have hlen := eventFraming.length_rest_le a.buffered
      rw [length_buffered] at hlen
      obtain rfl : n = 0 := by simpa using hn
      rw [left_zero]
      omega
  | cons bs reads ih =>
    obtain ⟨hbs, hfit, hfits⟩ := fits
    have hnext : ¬ Oversize (eventFraming.rest (a.buffered ++ bs)) := by
      have := fine 1 (by simp)
      simpa [left] using this
    have hdisposed := receive_disposed (S := S) id w ready hbs hfit
    obtain ⟨hmessages, ⟨hover, -⟩ | ⟨-, hkeep, hbuf, ready'⟩⟩ :=
      handleAgent_sync (S := S) id w ready hw hbs hfit
    · exact absurd hover hnext
    rw [feed_cons_keep hkeep, synced_cons (by rwa [length_buffered]), List.flatten_cons,
      ← List.append_assoc, Framing.frames_append,
      Framing.rest_append (a.buffered ++ bs), ← hbuf, ← hmessages]
    have fine' : ∀ n ≤ reads.length,
        ¬ Oversize (left (receive S id bs a w).agent.buffered reads n) := fun n hn => by
      rw [hbuf, ← left_succ]
      exact fine (n + 1) (by simpa using hn)
    by_cases hw' : (receive S id bs a w).agent.writePtr ≤ 4
    · obtain ⟨hkeep', hdisposed', hsync, hstuck⟩ := ih ready' hw'
        (by rw [hbuf]; exact Framing.rest_incomplete _) (hfits hkeep) fine'
      refine ⟨hkeep', fun d hd => ?_, fun h => ⟨?_, (hsync h).2⟩, hstuck⟩
      · exact (List.mem_append.mp hd).elim (hdisposed d) (hdisposed' d)
      · rw [List.map_append, (hsync h).1]
    · obtain ⟨hkeep', hdisp', hbuf'⟩ := feed_stuck ready' (by omega) (hfits hkeep)
      have hlen := congrArg List.length hbuf'
      rw [List.length_append, length_buffered, length_buffered] at hlen
      refine ⟨hkeep', fun d hd => hdisposed d (by simpa [hdisp'] using hd), fun h => ?_,
        fun _ => by simp only; omega⟩
      have := h 0 (Nat.zero_le _)
      rw [left_zero, hbuf, Framing.rest_of_incomplete (Framing.rest_incomplete _), ← hbuf,
        length_buffered] at this
      omega

/-! ### Streams of valid events -/

section valid

variable {es : List (List UInt8)}

/-- A cut of a stream of valid events leaves nothing behind that looks oversize. -/
theorem not_oversize_left (valid : ∀ e ∈ es, ValidEvent e) (stream : reads.flatten = es.flatten)
    (n : Nat) : ¬ Oversize (left [] reads n) := by
  have hcut : (reads.take n).flatten ++ (reads.drop n).flatten = es.flatten := by
    rw [← List.flatten_append, List.take_append_drop, stream]
  obtain ⟨gs, hes, hrest⟩ :=
    Framing.frames_prefix (F := eventFraming) (fun e he => (valid e he).size) hcut
  rw [left, List.nil_append]
  rintro ⟨h4, hbig⟩
  cases gs with
  | nil =>
    have := congrArg List.length hrest
    rw [List.flatten_nil, List.length_append, List.length_nil] at this
    omega
  | cons g gs =>
    have hg := valid g (by rw [hes]; simp)
    have := hg.long
    have hhead : (eventFraming.rest (reads.take n).flatten).take 4 = g.take 4 := by
      rw [← List.take_append_of_le_length h4, hrest, List.flatten_cons,
        List.take_append_of_le_length (by omega)]
    rw [hhead, hg.len] at hbig
    have := hg.short
    omega

/-- What the cuts leave over is what they are behind the start of an event. -/
theorem synced_iff (valid : ∀ e ∈ es, ValidEvent e) (stream : reads.flatten = es.flatten) :
    Synced [] reads ↔ CutsNearStarts es reads := by
  have hsizes : ∀ e ∈ es, eventFraming.size e = some e.length := fun e he => (valid e he).size
  refine forall_congr' fun n => imp_congr_right fun hn => ?_
  have hcut : (reads.take n).flatten ++ (reads.drop n).flatten = es.flatten := by
    rw [← List.flatten_append, List.take_append_drop, stream]
  rw [left, List.nil_append]
  constructor
  · intro h
    obtain ⟨gs, hes, -⟩ := Framing.frames_prefix hsizes hcut
    have hlen := congrArg List.length
      (eventFraming.flatten_frames_append_rest (reads.take n).flatten)
    rw [List.length_append] at hlen
    refine ⟨(eventFraming.frames (reads.take n).flatten).length, ?_, ?_⟩
    · rw [congrArg List.length hes, List.length_append]; omega
    · rw [congrArg (List.take _) hes, List.take_left]
      omega
  · rintro ⟨m, -, hle, hnear⟩
    -- the stream up to the cut is `m` events and at most four bytes
    have hes : es.flatten = (es.take m).flatten ++ (es.drop m).flatten := by
      rw [← List.flatten_append, List.take_append_drop]
    have hpre : (reads.take n).flatten = (es.take m).flatten ++
        ((es.drop m).flatten).take
          ((reads.take n).flatten.length - (es.take m).flatten.length) := by
      have := congrArg (List.take (reads.take n).flatten.length) (hcut.trans hes)
      rwa [List.take_left, List.take_append, List.take_of_length_le hle] at this
    have hdone := (Framing.frames_flatten (F := eventFraming)
      fun e (he : e ∈ es.take m) => hsizes e (List.mem_of_mem_take he)).2
    rw [hpre, Framing.rest_append, hdone, List.nil_append]
    refine Nat.le_trans (eventFraming.length_rest_le _) ?_
    rw [List.length_take]
    omega

/-- Behind a cut that is not near the start of an event, no more is dispatched and the rest of
    the stream stays in the buffer. -/
theorem feed_stranded {s : Int} {block : Mem} (valid : ∀ e ∈ es, ValidEvent e)
    (stream : reads.flatten = es.flatten) (fits : Fits S id reads (newAgent s block) w)
    (cuts : ¬ CutsNearStarts es reads) :
    4 < (feed S id reads (newAgent s block) w).agent.writePtr := by
  have hnil : eventFraming.Incomplete [] := fun n hn => eventFraming.size_pos hn
  obtain ⟨-, -, -, hstuck⟩ := feed_sync (newAgent_ready s block) (Nat.zero_le 4) hnil fits
    fun n _ => not_oversize_left valid stream n
  exact hstuck fun h => cuts ((synced_iff valid stream).mp h)

/-- A fresh agent delivers a stream of valid events, however it is cut, exactly if every cut
    is near the start of an event. -/
theorem feed_delivers_iff {s : Int} {block : Mem} (hopen : S.authenticating = false)
    (valid : ∀ e ∈ es, ValidEvent e) (stream : reads.flatten = es.flatten)
    (fits : Fits S id reads (newAgent s block) w) :
    Delivers S es (feed S id reads (newAgent s block) w) ↔ CutsNearStarts es reads := by
  constructor
  · intro h
    by_contra cuts
    have := feed_stranded valid stream fits cuts
    have := h.empty
    omega
  · intro cuts
    have hnil : eventFraming.Incomplete [] := fun n hn => eventFraming.size_pos hn
    obtain ⟨hkeep, hdisposed, hsync, -⟩ := feed_sync (newAgent_ready s block) (Nat.zero_le 4)
      hnil fits fun n _ => not_oversize_left valid stream n
    obtain ⟨hmessages, hbuf⟩ := hsync ((synced_iff valid stream).mpr cuts)
    obtain ⟨hframes, hrest⟩ := Framing.frames_flatten (F := eventFraming) fun e he =>
      (valid e he).size
    rw [newAgent_buffered, List.nil_append, stream] at hmessages hbuf
    rw [hframes] at hmessages
    rw [hrest] at hbuf
    refine ⟨hkeep, hmessages, fun d hd => ?_, ?_⟩
    · obtain ⟨a', w', rfl⟩ := hdisposed d hd
      refine dispatch_open hopen (valid _ ?_)
      rw [← hmessages]
      exact List.mem_map_of_mem hd
    · rw [← length_buffered, hbuf]; rfl

end valid

def bareEvent : List UInt8 := eventHdr 12 12 2 0

theorem bareEvent_valid : ValidEvent bareEvent :=
  ⟨by decide, by decide, by decide, by decide, by decide⟩

/-- Two events, the second cut three bytes into its length. -/
theorem feed_delivers_tail :
    Delivers openServer [bareEvent, bareEvent]
      (feed openServer 0 [bareEvent ++ bareEvent.take 3, bareEvent.drop 3] (newAgent 4 fun _ => 0)
        ()) :=
  (feed_delivers_iff rfl (by simp [bareEvent_valid]) (by decide)
    (.of_total (newAgent_ready _ _) (by decide) (by decide))).mpr (by decide)

/-- One event, cut behind its fifth byte: it is never dispatched. -/
theorem feed_loses_event :
    ValidEvent bareEvent ∧ [bareEvent.take 5, bareEvent.drop 5].flatten = [bareEvent].flatten ∧
    Fits openServer 0 [bareEvent.take 5, bareEvent.drop 5] (newAgent 4 fun _ => 0) () ∧
    ¬ Delivers openServer [bareEvent]
      (feed openServer 0 [bareEvent.take 5, bareEvent.drop 5] (newAgent 4 fun _ => 0) ()) := by
  have fits : Fits openServer 0 [bareEvent.take 5, bareEvent.drop 5] (newAgent 4 fun _ => 0) () :=
    .of_total (newAgent_ready _ _) (by decide) (by decide)
  refine ⟨bareEvent_valid, by decide, fits, fun h => ?_⟩
  have valid : ∀ e ∈ [bareEvent], ValidEvent e := by simp [bareEvent_valid]
  have := feed_stranded valid (by decide) fits (by decide)
  have := h.empty
  omega

end Cheops.Event
