import Cheops.Event.Basic
import Cheops.Lib.Decimal

/-! # OS scans: requests and replies (`agent-osscan.c`)

The entries `handle_osscan_request` queues, and the bytes of the reply `send_osscan_reply`
encodes.  The host is little-endian, and pointers are eight bytes.
-/

namespace Cheops.OsScan

open Cheops.Lib Cheops.Event

/-! ## Requests -/

/-- `inet_ntoa`, on the bytes of an address in memory. -/
def inetNtoa (b₀ b₁ b₂ b₃ : UInt8) : List UInt8 :=
  text s!"{b₀.toNat}.{b₁.toNat}.{b₂.toNat}.{b₃.toNat}"

theorem inetNtoa_eq (b₀ b₁ b₂ b₃ : UInt8) :
    inetNtoa b₀ b₁ b₂ b₃ = text (toString b₀.toNat) ++ text "." ++ text (toString b₁.toNat) ++
      text "." ++ text (toString b₂.toNat) ++ text "." ++ text (toString b₃.toNat) := by
  simp only [inetNtoa, text_append]
  rfl

/-- `ip2str`: the bytes are those of the host's representation of `ip`. -/
def ip2str (ip : Nat) : List UInt8 :=
  inetNtoa (UInt8.ofNat ip) (UInt8.ofNat (ip / 256)) (UInt8.ofNat (ip / 256 ^ 2))
    (UInt8.ofNat (ip / 256 ^ 3))

/-- The fields of `os_scan_e`; the port string stands behind it. -/
def osScanOptions (e : Mem) : Nat := be32 e 0
def osScanIp (e : Mem) : Nat := be32 e 4
def osScanNp (e : Mem) : List UInt8 := slice e 8 8
def sizeofOsScanE : Nat := 16

def IsCString (m : Mem) (off : Nat) (s : List UInt8) : Prop :=
  slice m off s.length = s ∧ 0 ∉ s ∧ m (off + s.length) = 0

instance (m : Mem) (off : Nat) (s : List UInt8) : Decidable (IsCString m off s) :=
  inferInstanceAs (Decidable (_ ∧ _))

/-- `os_detect_queue`.  An agent is named by its address; `np` is kept as its bytes. -/
structure OsDetectQueue where
  name : List UInt8
  np : List UInt8
  agent : Nat
  flags : Nat
  ports : List UInt8
deriving DecidableEq, Repr

/-- The entry `enqueue_osscan` appends, unless `np` or the agent is `NULL`.  There is memory here
    for the entry and its two strings. -/
def enqueueOsscan (name np : List UInt8) (agent : Nat) (ports : List UInt8) (flags : Nat) :
    Option OsDetectQueue :=
  if np.all (· == 0) ∨ agent = 0 then none else some { name, np, agent, flags, ports }

/-- `handle_osscan_request`; `ports` is the string behind the event. -/
def handleOsscanRequest (e : Mem) (ports : List UInt8) (agent : Nat) : Option OsDetectQueue :=
  enqueueOsscan (ip2str (osScanIp e)) (osScanNp e) agent ports (osScanOptions e)

/-! ## Replies -/

/-- `nmap_host_port_t`. -/
structure NmapHostPort where
  protocol : Nat
  portid : Nat
  state : Nat
  service : Option (List UInt8)
  owner : Option (List UInt8)
  proto : Nat
  rpcnum : Nat
  rpclowver : Nat
  rpchighver : Nat
deriving DecidableEq, Repr

/-- What a reply takes from an `nmap_scan_t`. -/
structure NmapScan where
  addr : List UInt8
  ports : List NmapHostPort
  uptimeSeconds : Option (List UInt8)
  uptimeLastBoot : Option (List UInt8)
  osName : Option (List UInt8)
deriving DecidableEq, Repr

/-- What a reply uses of the C library: `inet_addr`, as a number whose first byte is the
    highest, and `atoi`. -/
structure Libc where
  inetAddr : List UInt8 → Nat
  atoi : List UInt8 → Int

def REPLY_OS_SCAN : Nat := 103
def OS_SCAN_OPTION_OS : Nat := 1
def OS_SCAN_OPTION_PORT : Nat := 2
def OS_SCAN_OPTION_UPTIME : Nat := 3

/-- A string with its NUL; `NULL` is sent as the empty string. -/
def cstr (s : Option (List UInt8)) : List UInt8 := s.getD [] ++ [0]

def osScanOption (type : Nat) (body : List UInt8) : List UInt8 :=
  toBe 4 type ++ toBe 4 (8 + body.length) ++ body

def osOption (n : NmapScan) : List (List UInt8) :=
  match n.osName with
  | some name => [osScanOption OS_SCAN_OPTION_OS (cstr (some name))]
  | none => []

def portOption (port : NmapHostPort) : List UInt8 :=
  osScanOption OS_SCAN_OPTION_PORT
    (toBe 4 port.protocol ++ toBe 4 port.state ++ toBe 4 port.portid ++ toBe 4 port.proto ++
      toBe 4 port.rpcnum ++ toBe 4 port.rpclowver ++ toBe 4 port.rpchighver ++
      cstr port.service ++ cstr port.owner)

def uptimeOption (L : Libc) (n : NmapScan) : List (List UInt8) :=
  match n.uptimeSeconds with
  | some seconds =>
    [osScanOption OS_SCAN_OPTION_UPTIME
      (toBe 4 (L.atoi seconds % 2 ^ 32).toNat ++ cstr n.uptimeLastBoot)]
  | none => []

/-- The bytes `send_osscan_reply` puts into `ebuf_os`. -/
def osscanReply (L : Libc) (n : NmapScan) (np : List UInt8) : List UInt8 :=
  let options := osOption n ++ n.ports.map portOption ++ uptimeOption L n
  let length := sizeofEventHdr + 16 + options.flatten.length
  eventHdr length sizeofEventHdr REPLY_OS_SCAN 0 ++
    (toBe 4 options.length ++ toBe 4 (L.inetAddr n.addr) ++ np) ++ options.flatten

end Cheops.OsScan
