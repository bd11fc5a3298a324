import Cheops.Lib.ByteOrder
import Cheops.Event.Register
import Cheops.Event.Stream
import Cheops.OsScan.Request

/-! # OS scans: a request arrives (`gui-handlers.c`, `agent-osscan.c`)

The GUI puts the port string behind an OS-scan event and counts its characters, but not its NUL,
into the length.  The agent reads a string there all the same: where it ends is decided by what
was left in the receive buffer (`osscan_request_arrives_iff`).
-/

namespace Cheops.OsScan

open Cheops.Lib Cheops.Event

variable (o : ByteOrder)

def OPTIONS_OS_SCAN_PORTS_SIZE : Nat := 100

/-! ## The client -/

/-- The event `do_os_scan` sends.  `options` and `ports` are `options_os_scan_flags` and
    `options_os_scan_ports`; `np` is a pointer, as its bytes. -/
def doOsScan (ip : Nat) (np : List UInt8) (flags options : Nat) (ports : List UInt8) :
    List UInt8 :=
  o.bytes 4 (o.hton 4 (sizeofEventHdr + sizeofOsScanE + ports.length)) ++
    o.bytes 2 (o.hton 2 sizeofEventHdr) ++ o.bytes 2 (o.hton 2 EVENT_OS_SCAN) ++
    o.bytes 4 flags ++
    (o.bytes 4 (o.hton 4 options) ++ o.bytes 4 (o.hton 4 ip) ++ np ++ ports)

/-! ## The agent -/

/-- `ip2str`, on a host of either order. -/
def ip2strOn (ip : Nat) : List UInt8 :=
  let b := o.bytes 4 ip
  inetNtoa (b.getD 0 0) (b.getD 1 0) (b.getD 2 0) (b.getD 3 0)

/-- `handle_osscan_request`, on a host of either order.  The string it reads may go on behind the
    message. -/
def handleOsscanRequestOn (e : Mem) (agent : Nat) : Option OsDetectQueue :=
  enqueueOsscan (ip2strOn o (o.ntoh 4 (o.get 4 e 4))) (osScanNp e) agent
    (cstring e sizeofOsScanE) (o.ntoh 4 (o.get 4 e 0))

def osscanHandler : PlainHandler (List OsDetectQueue) := fun agent _ e queue =>
  queue ++ (handleOsscanRequestOn o e agent).toList

abbrev osscanServer (C : Passwords)
    (eventSend : Nat → List UInt8 → List OsDetectQueue → List OsDetectQueue)
    (H : AgentHandlers (List OsDetectQueue)) (authenticating : Bool) :
    Server (List OsDetectQueue) :=
  agentServer C eventSend { H with handleOsscanRequest := osscanHandler o } authenticating

theorem ip2strOn_little (ip : Nat) : ip2strOn .little ip = ip2str ip := by
  simp [ip2strOn, ip2str, ByteOrder.bytes, toBe]

/-- On a little-endian host it is the `handle_osscan_request` of the other parts. -/
theorem handleOsscanRequestOn_little (e : Mem) (agent : Nat) :
    handleOsscanRequestOn .little e agent =
      handleOsscanRequest e (cstring e sizeofOsScanE) agent := by
  rw [handleOsscanRequestOn, ip2strOn_little, ByteOrder.ntoh_get, ByteOrder.ntoh_get]
  rfl

/-! ## The event in the buffer -/

variable {o} {ip : Nat} {np : List UInt8} {flags options : Nat} {ports : List UInt8} {m : Mem}

/-- The event has a header of the usual form. -/
theorem doOsScan_eq : doOsScan o ip np flags options ports =
    eventHdr (sizeofEventHdr + sizeofOsScanE + ports.length) sizeofEventHdr EVENT_OS_SCAN
        (o.ntoh 4 flags) ++
      (toBe 4 options ++ toBe 4 ip ++ np ++ ports) := by
  have raw : o.bytes 4 flags = toBe 4 (o.ntoh 4 flags) := by
    have read := toBe_beNat (o.bytes 4 flags)
    rw [ByteOrder.length_bytes] at read
    exact read.symm
  unfold doOsScan eventHdr
  simp only [ByteOrder.bytes_hton, raw, List.append_assoc]

theorem length_doOsScan (pointer : np.length = 8) :
    (doOsScan o ip np flags options ports).length = 28 + ports.length := by
  simp only [doOsScan, List.length_append, ByteOrder.length_bytes, pointer]
  omega

structure Request where
  ip : Nat
  np : List UInt8
  options : Nat
  ports : List UInt8

def Request.entry (o : ByteOrder) (agent : Nat) (r : Request) : OsDetectQueue where
  name := ip2strOn o r.ip
  np := r.np
  agent := agent
  flags := r.options
  ports := r.ports

/-- The numbers are words, the pointer is one and not `NULL`, and the ports are a string that
    fits into `options_os_scan_ports`. -/
structure Request.Valid (r : Request) : Prop where
  ip : r.ip < 2 ^ 32
  pointer : r.np.length = 8
  nonnull : ¬ r.np.all (· == 0)
  options : r.options < 2 ^ 32
  nul : 0 ∉ r.ports
  fits : r.ports.length < OPTIONS_OS_SCAN_PORTS_SIZE

def Request.sent (o : ByteOrder) (flags : Nat) (r : Request) : List UInt8 :=
  doOsScan o r.ip r.np flags r.options r.ports

variable {r : Request} {agent : Nat}

/-- Everything but the ports is read from the message. -/
theorem handleOsscanRequestOn_sent (valid : r.Valid) (nonzero : agent ≠ 0)
    (stands : StandsAt m 0 (r.sent o flags)) :
    handleOsscanRequestOn o (fun i => m (hdrHlen m + i)) agent =
      some { r.entry o agent with ports := cstring (fun i => m (12 + i)) sizeofOsScanE } ∧
    StandsAt (fun i => m (12 + i)) sizeofOsScanE r.ports := by
  unfold Request.sent at stands
  rw [doOsScan_eq] at stands
  obtain ⟨-, hlen, -, -, behind⟩ := standsAt_eventHdr stands
  replace behind : StandsAt m (12 + 0) _ := behind
  have event := behind.shift
  simp only [standsAt_append, List.length_append, length_toBe, valid.pointer] at event
  obtain ⟨⟨⟨options, ip⟩, np⟩, ports⟩ := event
  have optionsRead : be32 (fun i => m (12 + i)) 0 = r.options := by
    rw [options.be32, Nat.mod_eq_of_lt valid.options]
  have ipRead : be32 (fun i => m (12 + i)) 4 = r.ip := by
    rw [show 4 = 0 + 4 from rfl, ip.be32, Nat.mod_eq_of_lt valid.ip]
  have npRead : osScanNp (fun i => m (12 + i)) = r.np := by
    have stood : slice (fun i => m (12 + i)) 8 r.np.length = r.np := np
    rwa [valid.pointer] at stood
  refine ⟨?_, ports⟩
  rw [hlen, show sizeofEventHdr % 2 ^ 16 = 12 from rfl]
  unfold handleOsscanRequestOn
  rw [ByteOrder.ntoh_get, ByteOrder.ntoh_get, ← be32, ← be32, optionsRead, ipRead, npRead,
    enqueueOsscan, if_neg (not_or.mpr ⟨valid.nonnull, nonzero⟩)]
  rfl

theorem Request.sent_size (valid : r.Valid) :
    eventSize (r.sent o flags) = some (r.sent o flags).length := by
  have fits : r.ports.length < 100 := valid.fits
  have length : (r.sent o flags).length = 28 + r.ports.length := length_doOsScan valid.pointer
  have read : beNat ((r.sent o flags).take 4) = (r.sent o flags).length := by
    have header : (r.sent o flags).take 4 = toBe 4 (28 + r.ports.length) := by
      unfold Request.sent doOsScan
      simp only [ByteOrder.bytes_hton, List.append_assoc]
      exact List.take_left' length_toBe
    rw [header, beNat_toBe, length, Nat.mod_eq_of_lt (by omega)]
  refine eventSize_eq_some.mpr ⟨by omega, read, by omega, ?_⟩
  unfold AGENT_RECV_BUFFER_LENGTH
  omega

/-! ## What is enqueued -/

variable {C : Passwords} {eventSend : Nat → List UInt8 → List OsDetectQueue → List OsDetectQueue}
  {H : AgentHandlers (List OsDetectQueue)} {authenticating : Bool} {a : Agent}
  {queue : List OsDetectQueue}

/-- An event that arrives whole enqueues what was asked for exactly if the byte that the buffer
    holds behind it happens to be a NUL. -/
theorem osscan_request_arrives_iff (valid : r.Valid) (nonzero : agent ≠ 0) (ready : a.Ready)
    (empty : a.writePtr = 0) (admitted : authenticating = false ∨ LoggedIn a.flags) :
    (receive (osscanServer o C eventSend H authenticating) agent (r.sent o flags) a queue).world =
        queue ++ [r.entry o agent] ↔
      a.buffer (r.sent o flags).length = 0 := by
  have fits : r.ports.length < 100 := valid.fits
  have length : (r.sent o flags).length = 28 + r.ports.length := length_doOsScan valid.pointer
  have whole : eventSize (r.sent o flags) = some (r.sent o flags).length := r.sent_size valid
  obtain ⟨b, buffer, sameFlags, world⟩ :=
    @receive_whole _ (osscanServer o C eventSend H authenticating) agent a queue _ ready empty whole
  have stands : StandsAt b.buffer 0 (r.sent o flags) := by
    rw [buffer]
    exact standsAt_store
  obtain ⟨read, ports⟩ := handleOsscanRequestOn_sent valid nonzero stands
  have header := stands
  unfold Request.sent at header
  rw [doOsScan_eq] at header
  obtain ⟨hlength, hhlen, htype, -, -⟩ := standsAt_eventHdr header
  have bodied : ¬ hdrHlen b.buffer > hdrLen b.buffer := by
    unfold sizeofEventHdr sizeofOsScanE at hlength
    unfold sizeofEventHdr at hhlen
    omega
  have registered : (osscanServer o C eventSend H authenticating).handlers EVENT_OS_SCAN =
      some (osscanHandler o).handler := rfl
  have dispatched : (dispatch (osscanServer o C eventSend H authenticating) agent b queue).2.2 =
      osscanHandler o agent b.buffer b.event queue := by
    have open_ : b.flags &&& AGENT_FLAGS_LOGGED_IN ≠ 0 ∨
        (osscanServer o C eventSend H authenticating).authenticating = false := by
      rw [sameFlags]
      exact admitted.symm
    rw [show EVENT_OS_SCAN % 2 ^ 16 = EVENT_OS_SCAN from rfl] at htype
    unfold dispatch
    rw [if_neg (by rw [htype]; decide), if_neg bodied, if_pos open_, htype, registered]
    rfl
  rw [world, dispatched]
  unfold osscanHandler Agent.event
  rw [read]
  have behind : a.buffer (r.sent o flags).length =
      b.buffer (12 + (sizeofOsScanE + r.ports.length)) := by
    rw [show 12 + (sizeofOsScanE + r.ports.length) = (r.sent o flags).length by
      rw [length, sizeofOsScanE]; omega, buffer]
    simp [store]
  rw [behind, ← ports.cstring_iff valid.nul (by omega)]
  simp [Request.entry]

def rangeRequest : Request := ⟨0x0100007f, [1, 0, 0, 0, 0, 0, 0, 0], 0x80, text "1-1024"⟩
def singleRequest : Request := ⟨0x0100007f, [1, 0, 0, 0, 0, 0, 0, 0], 0x80, text "80"⟩

theorem rangeRequest_valid : rangeRequest.Valid :=
  ⟨by decide, by decide, by decide, by decide, by decide, by decide⟩

theorem singleRequest_valid : singleRequest.Valid :=
  ⟨by decide, by decide, by decide, by decide, by decide, by decide⟩

def openServer : Server (List OsDetectQueue) :=
  osscanServer .little ⟨fun _ => none, fun _ => none, fun _ _ => []⟩ (fun _ _ queue => queue)
    ⟨fun _ _ _ queue => queue, fun _ _ _ queue => queue, fun _ _ _ queue => queue,
      fun _ _ _ queue => queue, fun _ _ _ queue => queue, fun _ _ _ queue => queue⟩ false

/-- In a buffer that is clear the request arrives. -/
theorem osscan_request_arrives_clear :
    (receive openServer 1 (rangeRequest.sent .little 0) (newAgent 5 fun _ => 0) []).world =
      [rangeRequest.entry .little 1] :=
  (osscan_request_arrives_iff rangeRequest_valid (by decide) (fun _ => rfl) rfl (.inl rfl)).mpr rfl

/-- The next one is shorter, and the rest of the old port string is added to its own. -/
theorem osscan_request_takes_leftover :
    let first := receive openServer 1 (rangeRequest.sent .little 0) (newAgent 5 fun _ => 0) []
    let second := receive openServer 1 (singleRequest.sent .little 0) first.agent first.world
    rangeRequest.Valid ∧ singleRequest.Valid ∧ first.verdict = .keep ∧
      first.world = [rangeRequest.entry .little 1] ∧
      second.world = [rangeRequest.entry .little 1,
        { singleRequest.entry .little 1 with ports := text "801024" }] ∧
      second.world ≠ first.world ++ [singleRequest.entry .little 1] := by
  refine ⟨rangeRequest_valid, singleRequest_valid, ?_⟩
  decide +kernel

end Cheops.OsScan
