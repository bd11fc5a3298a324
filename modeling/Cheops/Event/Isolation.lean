import Cheops.Lib.Reader
import Cheops.Fields.Basic
import Cheops.OsScan.Arrival

/-! # What the handlers read of a message (`event.c`, `agent-*.c`)

`handle_agent` looks at the header of a message and hands the event behind it to a handler, which
is not told how long it is.  The handlers are given here as readers of the receive buffer;
`handlers_isolated_iff` says of which messages they read nothing that stands behind them.
-/

namespace Cheops.Event

open Cheops.Lib Cheops.Fields Cheops.OsScan

/-! ## The handlers -/

def SET_DISCOVER_RETRIES : Nat := 1

inductive Arguments where
  | refused (error : List UInt8)
  | discover (start end_ flags : Nat) (np : List UInt8)
  | osScan (entry : Option OsDetectQueue)
  | settings (discoverRetries : Option Nat)
  | map (ip : Nat) (np : List UInt8)
  | probe (arguments : ProbeArguments)
  | login (user : List UInt8) (pass : Option (List UInt8))
  | nothing

structure Accounts where
  getpwnam : List UInt8 → Option (List UInt8)
  getspnam : List UInt8 → Option (List UInt8)
  crypt : List UInt8 → List UInt8 → List UInt8

def Accounts.passwords (C : Accounts) : Passwords where
  getpwnam m := C.getpwnam (cstring m 0)
  getspnam := C.getspnam
  crypt m := C.crypt (cstring m 0)

/-- The user has a `passwd` and a `spwd` entry, so that a password is looked at. -/
def Accounts.Knows (C : Accounts) (user : List UInt8) : Prop :=
  ((C.getpwnam user).bind C.getspnam).isSome = true

instance (C : Accounts) (user : List UInt8) : Decidable (C.Knows user) :=
  inferInstanceAs (Decidable (_ = true))

variable (o : ByteOrder) (C : Accounts)

/-- `handle_discover_request` on the event at offset `e` of the buffer. -/
def handleDiscoverRequestReads (e : Nat) : Reader Arguments :=
  .bytes e 4 fun start => .bytes (e + 4) 4 fun end_ =>
    let start := o.ntoh 4 (o.num start)
    let end_ := o.ntoh 4 (o.num end_)
    if o.ntoh 4 start > o.ntoh 4 end_ then .done (.refused (text "Start is larger than Finish\n"))
    else if start = 0 ∨ end_ = 0 then .done (.refused (text "Can't Discover 0.0.0.0\n"))
    else .bytes 8 4 fun flags => .bytes (e + 16) 8 fun np =>
      .done (.discover start end_ (o.num flags) np)

/-- `handle_osscan_request`; the ports are copied when the scan is queued. -/
def handleOsscanRequestReads (agent e : Nat) : Reader Arguments :=
  .bytes (e + 4) 4 fun ip => .bytes (e + 8) 8 fun np => .bytes e 4 fun options =>
    if np.all (· == 0) ∨ agent = 0 then .done (.osScan none)
    else .string (e + sizeofOsScanE) fun ports =>
      .done (.osScan (enqueueOsscan (ip2strOn o (o.ntoh 4 (o.num ip))) np agent ports
        (o.ntoh 4 (o.num options))))

/-- `handle_set_settings`; both fields are in host order. -/
def handleSetSettingsReads (e : Nat) : Reader Arguments :=
  .bytes e 4 fun flags =>
    if o.num flags &&& SET_DISCOVER_RETRIES ≠ 0 then
      .bytes (e + 4) 4 fun retries => .done (.settings (some (o.num retries)))
    else .done (.settings none)

def handleMapIcmpRequestReads (e : Nat) : Reader Arguments :=
  .bytes e 4 fun ip => .bytes (e + 8) 8 fun np => .done (.map (o.ntoh 4 (o.num ip)) np)

def handleProbeRequestReads (e : Nat) : Reader Arguments :=
  .bytes e 4 fun ip => .bytes (e + 4) 2 fun port => .bytes (e + 8) 4 fun timeout =>
    .bytes (e + 16) 8 fun np => .done (.probe
      { ip := o.ntoh 4 (o.num ip), port := o.ntoh 2 (o.num port)
        timeout := o.ntoh 4 (o.num timeout), np })

/-- `handle_auth_request`; the password is looked at when the user is known. -/
def handleAuthRequestReads (e : Nat) : Reader Arguments :=
  .string e fun user =>
    if C.Knows user then
      .string (e + 35) fun pass => .done (.login user (some pass))
    else .done (.login user none)

def handlerReads (type agent e : Nat) : Reader Arguments :=
  if type = EVENT_DISCOVER_IPV4 then handleDiscoverRequestReads o e
  else if type = EVENT_OS_SCAN then handleOsscanRequestReads o agent e
  else if type = EVENT_SET_SETTINGS then handleSetSettingsReads o e
  else if type = EVENT_MAP_ICMP then handleMapIcmpRequestReads o e
  else if type = EVENT_PROBE then handleProbeRequestReads o e
  else if type = EVENT_AUTH_REQUEST then handleAuthRequestReads C e
  else .done .nothing

/-- The checks of `handle_agent`, and the handler it calls. -/
def messageReads (agent : Nat) : Reader Arguments :=
  .bytes 6 2 fun type =>
    if beNat type ≥ MAX_EVENT then .done .nothing
    else .bytes 4 2 fun hlen => .bytes 0 4 fun len =>
      if beNat hlen > beNat len then .done .nothing
      else handlerReads o C (beNat type) agent (beNat hlen)

/-! ## Messages that hold what is read of them -/

def Scannable (e : Mem) : Prop :=
  ¬ o.ntoh 4 (o.ntoh 4 (o.get 4 e 0)) > o.ntoh 4 (o.ntoh 4 (o.get 4 e 4)) ∧
    o.ntoh 4 (o.get 4 e 0) ≠ 0 ∧ o.ntoh 4 (o.get 4 e 4) ≠ 0

/-- An event of `size` bytes holds the fields that the handler of its type reads: all but those
    it does not come to, and the NULs of the strings. -/
def HoldsFields (type agent : Nat) (e : Mem) (size : Nat) : Prop :=
  if type = EVENT_DISCOVER_IPV4 then 8 ≤ size ∧ (Scannable o e → 24 ≤ size)
  else if type = EVENT_OS_SCAN then
    16 ≤ size ∧ (¬ (osScanNp e).all (· == 0) → agent ≠ 0 → 0 ∈ slice e 16 (size - 16))
  else if type = EVENT_SET_SETTINGS then
    4 ≤ size ∧ (o.get 4 e 0 &&& SET_DISCOVER_RETRIES ≠ 0 → 8 ≤ size)
  else if type = EVENT_MAP_ICMP then 16 ≤ size
  else if type = EVENT_PROBE then 24 ≤ size
  else if type = EVENT_AUTH_REQUEST then
    0 ∈ slice e 0 size ∧ (C.Knows (cstring e 0) → 0 ∈ slice e 35 (size - 35))
  else True

/-- The message of `len` bytes at `h` holds its lengths, its type and these fields. -/
def Holds (agent : Nat) (h : Mem) (len : Nat) : Prop :=
  8 ≤ len ∧ HoldsFields o C (hdrType h) agent (fun i => h (hdrHlen h + i)) (len - hdrHlen h)

/-- The message is one that `handle_agent` hands to one of these handlers. -/
structure Accepted (h : Mem) (len : Nat) : Prop where
  whole : hdrLen h = len
  pos : 1 ≤ len
  fits : len ≤ AGENT_RECV_BUFFER_LENGTH
  header : hdrHlen h ≤ len
  handled : hdrType h ∈ [EVENT_DISCOVER_IPV4, EVENT_OS_SCAN, EVENT_SET_SETTINGS, EVENT_MAP_ICMP,
    EVENT_PROBE, EVENT_AUTH_REQUEST]

variable {o C} {agent e size len type : Nat} {h h' : Mem}

theorem slice_shift (e k n : Nat) : slice (fun i => h (e + i)) k n = slice h (e + k) n := by
  simp only [slice, Nat.add_assoc]

theorem strnlen_shift (e fuel k : Nat) :
    strnlen (fun i => h (e + i)) fuel k = strnlen h fuel (e + k) := by
  induction fuel generalizing k with
  | zero => rfl
  | succ fuel ih => rw [strnlen, strnlen, ih, Nat.add_assoc]

theorem cstring_shift (e k : Nat) : cstring (fun i => h (e + i)) k = cstring h (e + k) := by
  rw [cstring, cstring, strlen, strlen, strnlen_shift, slice_shift]

/-! ## They are the handlers of the other parts -/

theorem handleDiscoverRequestReads_run : (handleDiscoverRequestReads o e).run h =
    match handleDiscoverRequestOn o (fun i => h (e + i)) with
    | .error refusal => .refused refusal
    | .ok _ => .discover (o.ntoh 4 (o.get 4 h e)) (o.ntoh 4 (o.get 4 h (e + 4))) (o.get 4 h 8)
        (slice h (e + 16) 8) := by
  unfold handleDiscoverRequestReads handleDiscoverRequestOn
  simp only [Reader.run, ByteOrder.get, slice_shift, Nat.add_zero]
  split
  next => rfl
  next =>
    split
    · rfl
    · rfl

theorem handleOsscanRequestReads_run : (handleOsscanRequestReads o agent e).run h =
    .osScan (handleOsscanRequestOn o (fun i => h (e + i)) agent) := by
  unfold handleOsscanRequestReads handleOsscanRequestOn osScanNp
  simp only [Reader.run, ByteOrder.get, slice_shift, cstring_shift, Nat.add_zero]
  split
  next refused =>
    rw [enqueueOsscan, if_pos refused]
    rfl
  next => rfl

theorem handleMapIcmpRequestReads_run : (handleMapIcmpRequestReads o e).run h =
    .map (handleMapIcmpRequest o (fun i => h (e + i))).1
      (handleMapIcmpRequest o (fun i => h (e + i))).2 := by
  simp only [handleMapIcmpRequestReads, handleMapIcmpRequest, Reader.run, ByteOrder.get,
    slice_shift, Nat.add_zero]

theorem handleProbeRequestReads_run : (handleProbeRequestReads o e).run h =
    .probe (handleProbeRequest o (fun i => h (e + i))) := by
  simp only [handleProbeRequestReads, handleProbeRequest, Reader.run, ByteOrder.get, slice_shift,
    Nat.add_zero]

/-! ## What each handler reads -/

theorem handleDiscoverRequest_within : (handleDiscoverRequestReads o e).Within h len ↔
    e + 8 ≤ len ∧ (Scannable o (fun i => h (e + i)) → e + 24 ≤ len) := by
  unfold handleDiscoverRequestReads Scannable
  simp only [Reader.Within, ByteOrder.get, slice_shift, Nat.add_zero]
  split
  next larger =>
    simp only [Reader.Within]
    constructor
    · exact fun within => ⟨by omega, fun scannable => absurd larger scannable.1⟩
    · exact fun within => ⟨by omega, by omega, trivial⟩
  next ordered =>
    split
    next zero =>
      simp only [Reader.Within]
      constructor
      · exact fun within => ⟨by omega, fun scannable => absurd zero (not_or.mpr scannable.2)⟩
      · exact fun within => ⟨by omega, by omega, trivial⟩
    next nonzero =>
      rw [not_or] at nonzero
      simp only [Reader.Within]
      constructor
      · exact fun within => ⟨by omega, fun _ => by omega⟩
      · intro within
        have pointer := within.2 ⟨ordered, nonzero⟩
        exact ⟨by omega, by omega, by omega, by omega, trivial⟩

theorem handleOsscanRequest_within : (handleOsscanRequestReads o agent e).Within h len ↔
    e + 16 ≤ len ∧ (¬ (osScanNp (fun i => h (e + i))).all (· == 0) → agent ≠ 0 →
      0 ∈ slice h (e + 16) (len - (e + 16))) := by
  unfold handleOsscanRequestReads osScanNp
  simp only [Reader.Within, slice_shift]
  split
  next refused =>
    simp only [Reader.Within]
    constructor
    · exact fun within => ⟨by omega, fun np known => by tauto⟩
    · exact fun within => ⟨by omega, by omega, by omega, trivial⟩
  next queued =>
    rw [not_or] at queued
    simp only [Reader.Within, sizeofOsScanE]
    constructor
    · exact fun within => ⟨by omega, fun _ _ => within.2.2.2.1⟩
    · exact fun within => ⟨by omega, by omega, by omega, within.2 queued.1 queued.2, trivial⟩

theorem handleSetSettings_within : (handleSetSettingsReads o e).Within h len ↔
    e + 4 ≤ len ∧ (o.get 4 (fun i => h (e + i)) 0 &&& SET_DISCOVER_RETRIES ≠ 0 → e + 8 ≤ len) := by
  unfold handleSetSettingsReads
  simp only [Reader.Within, ByteOrder.get, slice_shift, Nat.add_zero]
  split
  next set =>
    simp only [Reader.Within]
    constructor
    · exact fun within => ⟨by omega, fun _ => by omega⟩
    · exact fun within => ⟨by omega, fun _ => within.2 set, trivial⟩
  next unset =>
    simp only [Reader.Within]
    constructor
    · exact fun within => ⟨by omega, fun set => absurd set unset⟩
    · exact fun within => ⟨by omega, trivial⟩

theorem handleMapIcmpRequest_within :
    (handleMapIcmpRequestReads o e).Within h len ↔ e + 16 ≤ len := by
  simp [handleMapIcmpRequestReads, Reader.Within]
  omega

theorem handleProbeRequest_within :
    (handleProbeRequestReads o e).Within h len ↔ e + 24 ≤ len := by
  simp [handleProbeRequestReads, Reader.Within]
  omega

theorem handleAuthRequest_within : (handleAuthRequestReads C e).Within h len ↔
    0 ∈ slice h e (len - e) ∧
      (C.Knows (cstring h e) → 0 ∈ slice h (e + 35) (len - (e + 35))) := by
  unfold handleAuthRequestReads
  simp only [Reader.Within]
  split
  next known =>
    simp only [Reader.Within, and_true]
    exact and_congr_right fun _ => ⟨fun found _ => found, fun found => found known⟩
  next unknown =>
    simp only [Reader.Within, and_true]
    exact ⟨fun found => ⟨found, fun known => absurd known unknown⟩, fun both => both.1⟩

/-! ## Messages -/

theorem handler_within (header : e ≤ len) : (handlerReads o C type agent e).Within h len ↔
    HoldsFields o C type agent (fun i => h (e + i)) (len - e) := by
  have room (k : Nat) (pos : 0 < k) : k ≤ len - e ↔ e + k ≤ len := by omega
  unfold handlerReads HoldsFields
  split
  next =>
    rw [handleDiscoverRequest_within, room 8 (by omega), room 24 (by omega)]
  next =>
  split
  next =>
    rw [handleOsscanRequest_within, room 16 (by omega), slice_shift, Nat.sub_sub]
  next =>
  split
  next =>
    rw [handleSetSettings_within, room 4 (by omega), room 8 (by omega)]
  next =>
  split
  next =>
    rw [handleMapIcmpRequest_within, room 16 (by omega)]
  next =>
  split
  next =>
    rw [handleProbeRequest_within, room 24 (by omega)]
  next =>
  split
  next =>
    simp only [handleAuthRequest_within, slice_shift, cstring_shift, Nat.sub_sub, Nat.add_zero]
  next => exact Iff.rfl

theorem Accepted.type_lt (accepted : Accepted h len) : hdrType h < MAX_EVENT := by
  have bound : ∀ type ∈ [EVENT_DISCOVER_IPV4, EVENT_OS_SCAN, EVENT_SET_SETTINGS, EVENT_MAP_ICMP,
      EVENT_PROBE, EVENT_AUTH_REQUEST], type < MAX_EVENT := by decide
  exact bound _ accepted.handled

theorem message_within (accepted : Accepted h len) :
    (messageReads o C agent).Within h len ↔ Holds o C agent h len := by
  have small : ¬ beNat (slice h 6 2) ≥ MAX_EVENT := Nat.not_le.mpr accepted.type_lt
  have header : ¬ beNat (slice h 4 2) > beNat (slice h 0 4) := by
    have bound := accepted.header
    rw [← accepted.whole] at bound
    exact Nat.not_lt.mpr bound
  unfold messageReads Holds
  simp only [Reader.Within, if_neg small, if_neg header]
  rw [handler_within (show beNat (slice h 4 2) ≤ len from accepted.header)]
  change _ ↔ _ ∧ HoldsFields o C (beNat (slice h 6 2)) agent
    (fun i => h (beNat (slice h 4 2) + i)) (len - beNat (slice h 4 2))
  constructor
  · exact fun within => ⟨by omega, within.2.2.2⟩
  · exact fun holds => ⟨by omega, by omega, by omega, holds.2⟩

/-! ## What the handlers do -/

section

variable {ω : Type}

/-- The agent's handlers, where `effect` is what they do with what they have read.
    `handle_error` only prints. -/
def handlersOf (o : ByteOrder) (effect : Nat → Arguments → ω → ω) : AgentHandlers ω where
  handleError _ _ _ w := w
  handleOsscanRequest id h _ w :=
    effect id ((handleOsscanRequestReads o id (hdrHlen h)).run h) w
  handleDiscoverRequest id h _ w := effect id ((handleDiscoverRequestReads o (hdrHlen h)).run h) w
  handleSetSettings id h _ w := effect id ((handleSetSettingsReads o (hdrHlen h)).run h) w
  handleMapIcmpRequest id h _ w := effect id ((handleMapIcmpRequestReads o (hdrHlen h)).run h) w
  handleProbeRequest id h _ w := effect id ((handleProbeRequestReads o (hdrHlen h)).run h) w

/-- The agent has read the same of two buffers, and whatever its handlers do they do for both. -/
structure Alike (o : ByteOrder) (C : Accounts) (agent : Nat) (h h' : Mem) : Prop where
  read : (messageReads o C agent).trace h' = (messageReads o C agent).trace h
  effects : ∀ (ω : Type) (effect : Nat → Arguments → ω → ω) (eventSend : Nat → List UInt8 → ω → ω)
    (authenticating : Bool) (flags : UInt32) (w : ω) (handler : Handler ω),
    (agentServer C.passwords eventSend (handlersOf o effect) authenticating).handlers (hdrType h) =
        some handler →
      handler agent h' (fun i => h' (hdrHlen h' + i)) flags w =
        handler agent h (fun i => h (hdrHlen h + i)) flags w

variable {effect : Nat → Arguments → ω → ω} {eventSend : Nat → List UInt8 → ω → ω}
  {authenticating : Bool} {flags : UInt32} {w : ω}

/-- `handle_auth_request` does not come to the password of a user it does not know. -/
theorem handleAuthRequest_congr {id : Nat} {m m' : Mem} (user : cstring m 0 = cstring m' 0)
    (pass : C.Knows (cstring m 0) → cstring m 35 = cstring m' 35) :
    handleAuthRequest C.passwords eventSend id h m flags w =
      handleAuthRequest C.passwords eventSend id h' m' flags w := by
  have read (m : Mem) : cstring (password m) 0 = cstring m 35 := cstring_shift 35 0
  unfold handleAuthRequest Accounts.passwords username
  simp only [read, ← user]
  cases pw : C.getpwnam (cstring m 0) with
  | none => rfl
  | some pwName =>
    cases spw : C.getspnam pwName with
    | none => simp only [spw]
    | some spPwdp =>
      have known : C.Knows (cstring m 0) := by
        rw [Accounts.Knows, pw, Option.bind_some, spw]
        rfl
      simp only [spw, pass known]

/-- What the table holds for the handlers that leave the flags alone. -/
theorem handlersOf_table (plain : type ∈ [EVENT_DISCOVER_IPV4, EVENT_OS_SCAN, EVENT_SET_SETTINGS,
      EVENT_MAP_ICMP, EVENT_PROBE]) :
    (agentServer C.passwords eventSend (handlersOf o effect) authenticating).handlers type =
      some fun id h _ flags w =>
        (flags, effect id ((handlerReads o C type id (hdrHlen h)).run h) w) := by
  rw [agentServer_handlers]
  simp only [List.mem_cons, List.not_mem_nil, or_false] at plain
  rcases plain with rfl | rfl | rfl | rfl | rfl
  all_goals rfl

theorem messageReads_trace (accepted : Accepted h len) : (messageReads o C agent).trace h =
    slice h 6 2 :: slice h 4 2 :: slice h 0 4 ::
      (handlerReads o C (hdrType h) agent (hdrHlen h)).trace h := by
  have small : ¬ beNat (slice h 6 2) ≥ MAX_EVENT := Nat.not_le.mpr accepted.type_lt
  have header : ¬ beNat (slice h 4 2) > beNat (slice h 0 4) := by
    have bound := accepted.header
    rw [← accepted.whole] at bound
    exact Nat.not_lt.mpr bound
  unfold messageReads
  simp only [Reader.trace, if_neg small, if_neg header]
  rfl

/-- A message with its lengths and its type is the same message in the other buffer. -/
theorem Accepted.agree (accepted : Accepted h len) (lengths : 8 ≤ len) (agree : Agree len h h') :
    Accepted h' len ∧ hdrType h' = hdrType h ∧ hdrHlen h' = hdrHlen h := by
  have whole : hdrLen h' = hdrLen h := (agree.be32 (by omega)).symm
  have header : hdrHlen h' = hdrHlen h := (agree.be16 (by omega)).symm
  have type : hdrType h' = hdrType h := (agree.be16 (by omega)).symm
  refine ⟨⟨?_, accepted.pos, accepted.fits, ?_, ?_⟩, type, header⟩
  · rw [whole, accepted.whole]
  · rw [header]
    exact accepted.header
  · rw [type]
    exact accepted.handled

theorem alike_of_read (accepted : Accepted h len) (lengths : 8 ≤ len) (agree : Agree len h h')
    (read : (messageReads o C agent).trace h' = (messageReads o C agent).trace h) :
    Alike o C agent h h' := by
  obtain ⟨accepted', type, header⟩ := accepted.agree lengths agree
  have handled : (handlerReads o C (hdrType h) agent (hdrHlen h)).trace h' =
      (handlerReads o C (hdrType h) agent (hdrHlen h)).trace h := by
    rw [messageReads_trace accepted', messageReads_trace accepted, type, header] at read
    simpa using (List.cons.inj (List.cons.inj (List.cons.inj read).2).2).2
  refine ⟨read, fun ω effect eventSend authenticating flags w handler registered => ?_⟩
  by_cases login : hdrType h = EVENT_AUTH_REQUEST
  case pos =>
    rw [login, agentServer_auth] at registered
    obtain rfl := Option.some.inj registered
    have reads : handlerReads o C (hdrType h) agent (hdrHlen h) =
        handleAuthRequestReads C (hdrHlen h) := by
      rw [login]
      rfl
    rw [reads, handleAuthRequestReads, Reader.trace, Reader.trace] at handled
    obtain ⟨user, rest⟩ := List.cons.inj handled
    refine (handleAuthRequest_congr ?_ ?_).symm
    · rw [header, cstring_shift, cstring_shift, Nat.add_zero, user]
    · rw [header, cstring_shift, cstring_shift, cstring_shift, Nat.add_zero]
      intro known
      rw [user, if_pos known, Reader.trace, Reader.trace] at rest
      exact (List.cons.inj rest).1.symm
  case neg =>
    have plain : hdrType h ∈ [EVENT_DISCOVER_IPV4, EVENT_OS_SCAN, EVENT_SET_SETTINGS,
        EVENT_MAP_ICMP, EVENT_PROBE] := by
      have all := accepted.handled
      simp only [List.mem_cons, List.not_mem_nil, or_false] at all ⊢
      omega
    rw [handlersOf_table (C := C) plain] at registered
    obtain rfl := Option.some.inj registered
    simp only [header, Reader.run_eq_of_trace handled]

/-- The handler of a message depends on nothing behind it exactly if the message holds what the
    handler reads. -/
theorem handlers_isolated_iff (accepted : Accepted h len) :
    (∀ h', Agree len h h' → Alike o C agent h h') ↔ Holds o C agent h len := by
  have small : len < 2 ^ 64 := by
    have := accepted.fits
    unfold AGENT_RECV_BUFFER_LENGTH at this
    omega
  rw [← message_within accepted, ← Reader.trace_eq_iff small]
  constructor
  · exact fun alike h' agree => (alike h' agree).read
  · intro read h' agree
    have holds := (message_within accepted).mp ((Reader.trace_eq_iff small).mp read)
    exact alike_of_read accepted holds.1 agree (read h' agree)

end

/-! ## Two messages -/

def nobody : Accounts := ⟨fun _ => none, fun _ => none, fun _ _ => []⟩

def mapRequest : List UInt8 :=
  eventHdr 28 sizeofEventHdr EVENT_MAP_ICMP 0 ++ toBe 4 0x0a000001 ++ toBe 4 0 ++ toBe 8 7

theorem handlers_isolated_map :
    ∃ h, slice h 0 28 = mapRequest ∧ ∀ h', Agree (28 : Nat) h h' → Alike .little nobody 1 h h' := by
  refine ⟨fun i => mapRequest.getD i 0, by decide,
    (handlers_isolated_iff ⟨?_, ?_, ?_, ?_, ?_⟩).mpr ⟨by decide, ?_⟩⟩
  case refine_6 =>
    have type : hdrType (fun i => mapRequest.getD i 0) = EVENT_MAP_ICMP := by decide
    have header : hdrHlen (fun i => mapRequest.getD i 0) = 12 := by decide
    rw [type, header]
    simp [HoldsFields, EVENT_MAP_ICMP, EVENT_DISCOVER_IPV4, EVENT_OS_SCAN, EVENT_SET_SETTINGS]
  all_goals decide

def scanRequest : List UInt8 :=
  doOsScan .little 0x0a000001 (toBe 8 7) 0 0x80 (text "80")

/-- The ports are 80 if the byte behind the message is a NUL, and 809 if it is a digit. -/
theorem osscan_depends_on_rest :
    Accepted (fun i => scanRequest.getD i 0) 30 ∧
      ¬ ∀ h', Agree (30 : Nat) (fun i => scanRequest.getD i 0) h' →
        Alike .little nobody 1 (fun i => scanRequest.getD i 0) h' := by
  constructor
  case left => exact ⟨by decide, by decide, by decide, by decide, by decide⟩
  case right =>
    intro alike
    have read := (alike _ (agree_update (i := 30) (b := 0x39) (le_refl _))).read
    revert read
    decide +kernel

end Cheops.Event
