import Cheops.Lib.ByteOrder
import Cheops.Discover.Basic

/-! # The integer fields of requests and replies

The fields of the discover, probe and map events as the GUI (`gui-handlers.c`), the shell
(`cheops-sh-guts.c`) and the agent (`agent-discover.c`, `agent-probe.c`, `agent-map.c`) store and
read them, each on a host with a byte order of its own.

Hosts share the layout of the structures, and pointers are eight bytes.  An `in_addr` is named by
its number in network order; `sAddr` is the `s_addr` a host keeps for it.  `ee` is the buffer an
event is stored into; what a function does not store it leaves there.
-/

namespace Cheops.Fields

open Cheops.Lib

variable (o : ByteOrder)

def sAddr (address : Nat) : Nat := o.num (toBe 4 address)

def addressOf (s : Nat) : Nat := beNat (o.bytes 4 s)

/-! ## Discover requests -/

/-- The fields of `discover_dns` that are sent. -/
structure DiscoverDns where
  startIp : Nat
  endIp : Nat
  np : List UInt8

/-- `allones`: each turn shifts in a zero, so it ends after 32 turns. -/
def allones (mask : Nat) : Bool :=
  let rec loop : Nat → Nat → Nat
    | 0, mask => mask
    | turns + 1, mask =>
      if mask &&& 0x80000000 ≠ 0 then loop turns ((mask <<< 1) % 2 ^ 32) else mask
  loop 32 mask == 0

/-- The netmask `do_network_discover_after_dns` and the shell's `do_discover` make of a string, or
    none if it is invalid.  `aton` is what `inet_aton` makes of it, and `atoi` what `atoi` does. -/
def netmask (aton : Option Nat) (atoi : Int) : Option Nat :=
  match aton.filter fun s => ¬ (o.ntoh 4 s < 0x80000000) ∧ allones (o.ntoh 4 s) with
  | some s => some (o.ntoh 4 s)
  | none =>
    if atoi > 32 ∨ atoi < 1 then none
    else some ((0xffffffff >>> (32 - atoi.toNat)) <<< (32 - atoi.toNat) % 2 ^ 32)

/-- `dd` after `do_host_discover_after_dns`, for a host with the given `s_addr`. -/
def doHostDiscoverAfterDns (s : Nat) (np : List UInt8) : DiscoverDns where
  startIp := o.hton 4 s
  endIp := o.hton 4 s
  np := np

/-- `dd` after `do_network_discover_after_dns`. -/
def doNetworkDiscoverAfterDns (s : Nat) (aton : Option Nat) (atoi : Int) (np : List UInt8) :
    Option DiscoverDns :=
  (netmask o aton atoi).map fun mask =>
    { startIp := o.hton 4 s &&& mask
      endIp := (o.hton 4 s &&& mask) ||| (0xffffffff ^^^ mask)
      np := np }

/-- The event of `send_discover_request`; `len` is not set. -/
def sendDiscoverRequest (dd : DiscoverDns) (ee : Mem) : Mem :=
  store (o.put 4 (o.put 4 (o.put 4 ee 0 dd.startIp) 4 dd.endIp) 8 0) 16 dd.np

/-- The event of the shell's `do_discover`, which leaves the rest of it as it is. -/
def shDoDiscover (start end_ : Nat) (ee : Mem) : Mem := o.put 4 (o.put 4 ee 0 start) 4 end_

/-- `handle_discover_request` on a host of either order: the text of the error, or the first and
    the last address that `ping_send` goes through. -/
def handleDiscoverRequestOn (e : Mem) : Except (List UInt8) (Nat × Nat) :=
  let start := o.ntoh 4 (o.get 4 e 0)
  let end_ := o.ntoh 4 (o.get 4 e 4)
  if o.ntoh 4 start > o.ntoh 4 end_ then .error (text "Start is larger than Finish\n")
  else if start = 0 ∨ end_ = 0 then .error (text "Can't Discover 0.0.0.0\n")
  else .ok (o.ntoh 4 start, o.ntoh 4 end_)

def requestedRange (e : Mem) : Nat × Nat :=
  (o.ntoh 4 (o.ntoh 4 (o.get 4 e 0)), o.ntoh 4 (o.ntoh 4 (o.get 4 e 4)))

/-! ## Probe and map requests -/

/-- The event of `do_probe`; `ip` is an `s_addr`. -/
def doProbe (ip port timeoutMs : Nat) (np : List UInt8) (ee : Mem) : Mem :=
  store (o.put 4 (o.put 2 (o.put 4 ee 0 (o.hton 4 ip)) 4 (o.hton 2 port)) 8 (o.hton 4 timeoutMs))
    16 np

/-- What `handle_probe_request` gives to `get_version`. -/
structure ProbeArguments where
  ip : Nat
  port : Nat
  timeout : Nat
  np : List UInt8

def handleProbeRequest (e : Mem) : ProbeArguments where
  ip := o.ntoh 4 (o.get 4 e 0)
  port := o.ntoh 2 (o.get 2 e 4)
  timeout := o.ntoh 4 (o.get 4 e 8)
  np := slice e 16 8

/-- The event of `do_map_icmp`. -/
def doMapIcmp (ip : Nat) (np : List UInt8) (ee : Mem) : Mem :=
  store (o.put 4 ee 0 (o.hton 4 ip)) 8 np

/-- What `handle_map_icmp_request` gives to `start_mapping`. -/
def handleMapIcmpRequest (e : Mem) : Nat × List UInt8 := (o.ntoh 4 (o.get 4 e 0), slice e 8 8)

/-! ## Replies -/

/-- The event of `send_discover_reply`. -/
def sendDiscoverReply (ip : Nat) (np : List UInt8) (ee : Mem) : Mem :=
  store (o.put 4 ee 0 (o.hton 4 ip)) 8 np

/-- `ip` in the GUI's `handle_discover_reply`. -/
def handleDiscoverReply (e : Mem) : Nat := o.ntoh 4 (o.get 4 e 0)

/-- What the shell's `handle_discover_reply` gives to `ip2str` and adds to the list. -/
def shHandleDiscoverReply (e : Mem) : Nat := o.get 4 e 0

/-- The event of `map_connect`. -/
def mapConnect (dest addr₁ addr₂ : Nat) (np : List UInt8) (ee : Mem) : Mem :=
  store (o.put 4 (o.put 4 (o.put 4 ee 0 (o.hton 4 dest)) 4 (o.hton 4 addr₁)) 8 (o.hton 4 addr₂))
    16 np

/-- `dest`, `ip1` and `ip2` in `handle_map_icmp_reply`. -/
def handleMapIcmpReply (e : Mem) : Nat × Nat × Nat :=
  (o.ntoh 4 (o.get 4 e 0), o.ntoh 4 (o.get 4 e 4), o.ntoh 4 (o.get 4 e 8))

/-- The event of `my_probe_callback`: `port` is converted by `htons` and stored as a `u32`. -/
def myProbeCallback (ip port : Nat) (version np : List UInt8) (ee : Mem) : Mem :=
  store (store (o.put 4 (o.put 4 ee 0 (o.hton 4 ip)) 4 (o.hton 2 port)) 8 np) 16 (version ++ [0])

/-- `ip` and `port` in `handle_probe_reply`; `ntohs` takes the low half of the word. -/
def handleProbeReply (e : Mem) : Nat × Nat :=
  (o.ntoh 4 (o.get 4 e 0), o.ntoh 2 (o.get 4 e 4 % 2 ^ 16))

/-! ## The ranges of the scans -/

theorem toNat_ofNat_div (x n : Nat) : (UInt8.ofNat (x / n)).toNat = x / n % 256 := by
  simp [UInt8.toNat_ofNat']

/-- `ntohl` of the little-endian host on which scans are modelled. -/
theorem ntohl_eq (x : Nat) : Discover.ntohl x = ByteOrder.little.ntoh 4 x := by
  have low (i : Nat) : Discover.byteAt x i < 2 ^ 8 := Nat.mod_lt _ (by decide)
  have b₃ : Discover.byteAt x 2 <<< 8 ||| Discover.byteAt x 3 =
      Discover.byteAt x 2 * 256 + Discover.byteAt x 3 := by
    rw [← Nat.shiftLeft_add_eq_or_of_lt (low 3), Nat.shiftLeft_eq]
  have b₂ : Discover.byteAt x 1 <<< 16 ||| (Discover.byteAt x 2 * 256 + Discover.byteAt x 3) =
      Discover.byteAt x 1 * 65536 + (Discover.byteAt x 2 * 256 + Discover.byteAt x 3) := by
    have := low 2
    have := low 3
    rw [← Nat.shiftLeft_add_eq_or_of_lt (by omega), Nat.shiftLeft_eq]
  have b₁ : Discover.byteAt x 0 <<< 24 ||| (Discover.byteAt x 1 * 65536 +
        (Discover.byteAt x 2 * 256 + Discover.byteAt x 3)) =
      Discover.byteAt x 0 * 16777216 + (Discover.byteAt x 1 * 65536 +
        (Discover.byteAt x 2 * 256 + Discover.byteAt x 3)) := by
    have := low 1
    have := low 2
    have := low 3
    rw [← Nat.shiftLeft_add_eq_or_of_lt (by omega), Nat.shiftLeft_eq]
  have digits : ByteOrder.little.ntoh 4 x =
      ((Discover.byteAt x 0 * 256 + Discover.byteAt x 1) * 256 + Discover.byteAt x 2) * 256 +
        Discover.byteAt x 3 := by
    simp only [ByteOrder.ntoh, ByteOrder.bytes, toBe, List.reverse_cons, List.reverse_nil,
      List.nil_append, List.cons_append, beNat, List.foldl_cons, List.foldl_nil, toNat_ofNat_div,
      Discover.byteAt, Nat.zero_mul, Nat.zero_add]
  rw [Discover.ntohl, Nat.or_assoc, Nat.or_assoc, b₃, b₂, b₁, digits]
  omega

/-- On a little-endian host the range is the one of the request that is queued. -/
theorem handleDiscoverRequestOn_little (addr flags : Nat) (e : Mem) :
    handleDiscoverRequestOn .little e =
      (Discover.handleDiscoverRequest addr (ByteOrder.little.get 4 e 0)
        (ByteOrder.little.get 4 e 4) flags).map
        fun pp => (Discover.ntohl pp.start, Discover.ntohl pp.end_) := by
  unfold handleDiscoverRequestOn Discover.handleDiscoverRequest
  simp only [ntohl_eq]
  split
  · rfl
  · split <;> rfl

/-- The agent scans the range that is requested, if it scans at all. -/
theorem handleDiscoverRequestOn_range {o : ByteOrder} {e : Mem} {range : Nat × Nat}
    (accepted : handleDiscoverRequestOn o e = .ok range) : range = requestedRange o e := by
  unfold handleDiscoverRequestOn at accepted
  dsimp only at accepted
  split at accepted
  · cases accepted
  · split at accepted
    · cases accepted
    · exact (Except.ok.inj accepted).symm

theorem ntoh_sAddr {o : ByteOrder} {address : Nat} (word : address < 256 ^ 4) :
    o.ntoh 4 (sAddr o address) = address :=
  ByteOrder.ntoh_hton.trans (Nat.mod_eq_of_lt word)

/-- A host is the same range for a client of either order. -/
theorem doHostDiscoverAfterDns_eq {o : ByteOrder} {address : Nat} (word : address < 256 ^ 4)
    (np : List UInt8) :
    doHostDiscoverAfterDns o (sAddr o address) np = ⟨address, address, np⟩ := by
  rw [doHostDiscoverAfterDns, ← ByteOrder.ntoh_eq_hton, ntoh_sAddr word]

/-- And so is a network. -/
theorem doNetworkDiscoverAfterDns_eq {o : ByteOrder} {address mask : Nat}
    (word : address < 256 ^ 4) (maskWord : mask < 256 ^ 4) (high : 0x80000000 ≤ mask)
    (ones : allones mask = true) (atoi : Int) (np : List UInt8) :
    doNetworkDiscoverAfterDns o (sAddr o address) (some (sAddr o mask)) atoi np =
      some ⟨address &&& mask, (address &&& mask) ||| (0xffffffff ^^^ mask), np⟩ := by
  have given : netmask o (some (sAddr o mask)) atoi = some mask := by
    unfold netmask
    rw [Option.filter_some, ntoh_sAddr maskWord, if_pos (by simp [ones, high])]
    simp only [ntoh_sAddr maskWord]
  rw [doNetworkDiscoverAfterDns, given, ← ByteOrder.ntoh_eq_hton, ntoh_sAddr word]
  rfl

end Cheops.Fields
