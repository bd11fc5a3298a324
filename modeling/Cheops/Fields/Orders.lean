import Cheops.Fields.Basic

/-! # Which integer fields are read back for which byte orders

An exchange is an event with the values put into it.  `exchange_undone_iff` says for every pair of
hosts and all values whether the other side reads these values.  Fields that are in network order
before they are converted, and fields that are not converted at all, arrive in the sender's order,
so the two orders have to agree.
-/

namespace Cheops.Fields

open Cheops.Lib ByteOrder

/-! ## Exchanges -/

/-- The requests and replies, with the addresses, ports and timeouts that are put in. -/
inductive Exchange where
  | discover (start end_ : Nat)
  | shDiscover (start end_ : Nat)
  | probe (address port timeoutMs : Nat)
  | map (address : Nat)
  | discoverReply (address : Nat)
  | shDiscoverReply (address : Nat)
  | mapReply (dest addr₁ addr₂ : Nat)
  | probeReply (address port : Nat) (version : List UInt8)

/-- Addresses and timeouts are words, ports are half words. -/
def Exchange.Fits : Exchange → Prop
  | discover start end_ | shDiscover start end_ => start < 2 ^ 32 ∧ end_ < 2 ^ 32
  | probe address port timeoutMs => address < 2 ^ 32 ∧ port < 2 ^ 16 ∧ timeoutMs < 2 ^ 32
  | map address | discoverReply address | shDiscoverReply address => address < 2 ^ 32
  | mapReply dest addr₁ addr₂ => dest < 2 ^ 32 ∧ addr₁ < 2 ^ 32 ∧ addr₂ < 2 ^ 32
  | probeReply address port _ => address < 2 ^ 32 ∧ port < 2 ^ 16

def Exchange.values : Exchange → List Nat
  | discover start end_ | shDiscover start end_ => [start, end_]
  | probe address port timeoutMs => [address, port, timeoutMs]
  | map address | discoverReply address | shDiscoverReply address => [address]
  | mapReply dest addr₁ addr₂ => [dest, addr₁, addr₂]
  | probeReply address port _ => [address, port]

/-- The event, stored into `ee`.  A request's addresses are those the client has from
    `inet_aton`; a reply's are those the agent has from its sockets. -/
def Exchange.event (client agent : ByteOrder) (np : List UInt8) (ee : Mem) : Exchange → Mem
  | discover start end_ => sendDiscoverRequest client ⟨client.hton 4 (sAddr client start),
      client.hton 4 (sAddr client end_), np⟩ ee
  | shDiscover start end_ => shDoDiscover client (client.ntoh 4 (sAddr client start))
      (client.ntoh 4 (sAddr client end_)) ee
  | probe address port timeoutMs => doProbe client (sAddr client address) port timeoutMs np ee
  | map address => doMapIcmp client (sAddr client address) np ee
  | discoverReply address | shDiscoverReply address =>
    sendDiscoverReply agent (sAddr agent address) np ee
  | mapReply dest addr₁ addr₂ =>
    mapConnect agent (sAddr agent dest) (sAddr agent addr₁) (sAddr agent addr₂) np ee
  | probeReply address port version =>
    myProbeCallback agent (sAddr agent address) port version np ee

/-- `sizeof` of the event, and the string behind it. -/
def Exchange.size : Exchange → Nat
  | discover .. | shDiscover .. | probe .. | mapReply .. => 24
  | map .. | discoverReply .. | shDiscoverReply .. => 16
  | probeReply _ _ version => 16 + version.length + 1

def Exchange.read (client agent : ByteOrder) (e : Mem) : Exchange → List Nat
  | discover .. | shDiscover .. => [(requestedRange agent e).1, (requestedRange agent e).2]
  | probe .. =>
    let arguments := handleProbeRequest agent e
    [addressOf agent arguments.ip, arguments.port, arguments.timeout]
  | map .. => [addressOf agent (handleMapIcmpRequest agent e).1]
  | discoverReply .. => [addressOf client (handleDiscoverReply client e)]
  | shDiscoverReply .. => [addressOf client (shHandleDiscoverReply client e)]
  | mapReply .. =>
    let (dest, ip₁, ip₂) := handleMapIcmpReply client e
    [addressOf client dest, addressOf client ip₁, addressOf client ip₂]
  | probeReply .. =>
    let (ip, port) := handleProbeReply client e
    [addressOf client ip, port]

/-- Whatever the sender's buffer held before, and whatever is behind the event where it arrives,
    the values that were put in are read. -/
def Exchange.Undone (client agent : ByteOrder) (x : Exchange) : Prop :=
  ∀ np ee rest, np.length = 8 →
    x.read client agent (store rest 0 (slice (x.event client agent np ee) 0 x.size)) = x.values

def Symmetric (x : Nat) : Prop := swapBytes 4 x = x

instance (x : Nat) : Decidable (Symmetric x) := inferInstanceAs (Decidable (_ = _))

/-- The byte orders agree, or the fields that depend on them read the same in either order. -/
def Exchange.Survives (client agent : ByteOrder) : Exchange → Prop
  | discover start end_ | shDiscover start end_ =>
    client = agent ∨ Symmetric start ∧ Symmetric end_
  | probe address _ _ | map address | discoverReply address =>
    client = agent ∨ Symmetric address
  | shDiscoverReply address => agent = .big ∨ Symmetric address
  | mapReply dest addr₁ addr₂ =>
    client = agent ∨ Symmetric dest ∧ Symmetric addr₁ ∧ Symmetric addr₂
  | probeReply address port _ => client = agent ∨ Symmetric address ∧ port = 0

/-! ## One field -/

variable {o o' client agent : ByteOrder} {x : Nat}

/-- What `o'` makes of an address: either side converts it between the network order of its
    `in_addr` and its own, and once more for the event. -/
def reread (o o' : ByteOrder) (x : Nat) : Nat :=
  o'.ntoh 4 (o'.ntoh 4 (o'.num (o.bytes 4 (o.hton 4 (o.hton 4 x)))))

/-- The same, where the receiver does not convert it for the event. -/
def unread (o o' : ByteOrder) (x : Nat) : Nat :=
  o'.ntoh 4 (o'.num (o.bytes 4 (o.hton 4 (o.hton 4 x))))

/-- What `o'` makes of a number that either side converts once. -/
def reconverted (n : Nat) (o o' : ByteOrder) (x : Nat) : Nat :=
  o'.ntoh n (o'.num (o.bytes n (o.hton n x)))

/-- What `o'` makes of a port that is stored as a word. -/
def halfword (o o' : ByteOrder) (x : Nat) : Nat :=
  o'.ntoh 2 (o'.num (o.bytes 4 (o.hton 2 x)) % 2 ^ 16)

theorem reread_iff (word : x < 256 ^ 4) : reread o o' x = x ↔ o = o' ∨ Symmetric x := by
  unfold reread
  rw [ntoh_ntoh, hton_hton, num_bytes_eq, Nat.mod_eq_of_lt word, Nat.mod_eq_of_lt word]
  by_cases same : o = o'
  · simp only [same, if_true, Nat.mod_eq_of_lt word, true_or]
  · simp only [same, if_false, Nat.mod_eq_of_lt swapBytes_lt, Symmetric, false_or]

theorem unread_iff (word : x < 256 ^ 4) : unread o o' x = x ↔ o = .big ∨ Symmetric x := by
  unfold unread
  rw [hton_hton, Nat.mod_eq_of_lt word, ntoh_num length_bytes]
  cases o with
  | little => simp [bytes, Symmetric, swapBytes]
  | big => simp only [bytes, beNat_toBe, Nat.mod_eq_of_lt word, true_or]

theorem reconverted_eq {n : Nat} (word : x < 256 ^ n) : reconverted n o o' x = x := by
  rw [reconverted, bytes_hton, ntoh_num length_toBe, beNat_toBe, Nat.mod_eq_of_lt word]

/-- Half a word stands at the other end of the word for the other order. -/
theorem swapBytes_halfword (half : x < 2 ^ 16) : swapBytes 4 x % 2 ^ 16 = 0 := by
  have high : x / 256 ^ 3 = 0 := Nat.div_eq_of_lt (by omega)
  have low : x / 256 ^ 2 = 0 := Nat.div_eq_of_lt (by omega)
  simp only [swapBytes, toBe, high, low, List.reverse_cons, List.reverse_nil, List.nil_append,
    List.cons_append, beNat, List.foldl_cons, List.foldl_nil]
  have zero : (UInt8.ofNat 0).toNat = 0 := rfl
  rw [zero]
  omega

theorem halfword_iff (half : x < 2 ^ 16) : halfword o o' x = x ↔ o = o' ∨ x = 0 := by
  have converted : o.hton 2 x < 2 ^ 16 := by
    have bound := num_lt (o := o) (toBe 2 x)
    rwa [length_toBe] at bound
  have widened : o.hton 2 x < 256 ^ 4 := by omega
  unfold halfword
  rw [num_bytes_eq]
  by_cases same : o = o'
  · subst same
    simp only [if_true, Nat.mod_eq_of_lt widened, Nat.mod_eq_of_lt converted, ntoh_hton, true_or,
      iff_true]
    omega
  · have lost : o'.ntoh 2 0 = 0 := by cases o' <;> rfl
    simp only [same, if_false, swapBytes_halfword converted, lost, false_or, eq_comm]

/-! ## All fields -/

theorem sAddr_eq : sAddr o x = o.hton 4 x := rfl

theorem addressOf_eq : addressOf o x = o.ntoh 4 x := rfl

def Exchange.received (client agent : ByteOrder) : Exchange → List Nat
  | discover start end_ | shDiscover start end_ =>
    [reread client agent start, reread client agent end_]
  | probe address port timeoutMs =>
    [reread client agent address, reconverted 2 client agent port,
      reconverted 4 client agent timeoutMs]
  | map address => [reread client agent address]
  | discoverReply address => [reread agent client address]
  | shDiscoverReply address => [unread agent client address]
  | mapReply dest addr₁ addr₂ =>
    [reread agent client dest, reread agent client addr₁, reread agent client addr₂]
  | probeReply address port _ => [reread agent client address, halfword agent client port]

theorem Exchange.read_event (x : Exchange) (np : List UInt8) (ee rest : Mem) :
    x.read client agent (store rest 0 (slice (x.event client agent np ee) 0 x.size)) =
      x.received client agent := by
  cases x with
  | discover start end_ =>
    simp (disch := omega) only [read, event, size, requestedRange, sendDiscoverRequest,
      get_store_slice, get_store_of_disjoint, get_put_of_disjoint, get_put, sAddr_eq, received,
      reread]
  | shDiscover start end_ =>
    simp (disch := omega) only [read, event, size, requestedRange, shDoDiscover,
      get_store_slice, get_put_of_disjoint, get_put, sAddr_eq, ntoh_eq_hton, received, reread]
  | probe address port timeoutMs =>
    simp (disch := omega) only [read, event, size, handleProbeRequest, doProbe,
      get_store_slice, get_store_of_disjoint, get_put_of_disjoint, get_put, sAddr_eq, addressOf_eq,
      received, reread, reconverted]
  | map address =>
    simp (disch := omega) only [read, event, size, handleMapIcmpRequest, doMapIcmp,
      get_store_slice, get_store_of_disjoint, get_put, sAddr_eq, addressOf_eq, received, reread]
  | discoverReply address =>
    simp (disch := omega) only [read, event, size, handleDiscoverReply, sendDiscoverReply,
      get_store_slice, get_store_of_disjoint, get_put, sAddr_eq, addressOf_eq, received, reread]
  | shDiscoverReply address =>
    simp (disch := omega) only [read, event, size, shHandleDiscoverReply, sendDiscoverReply,
      get_store_slice, get_store_of_disjoint, get_put, sAddr_eq, addressOf_eq, received, unread]
  | mapReply dest addr₁ addr₂ =>
    simp (disch := omega) only [read, event, size, handleMapIcmpReply, mapConnect,
      get_store_slice, get_store_of_disjoint, get_put_of_disjoint, get_put, sAddr_eq, addressOf_eq,
      received, reread]
  | probeReply address port version =>
    simp (disch := omega) only [read, event, size, handleProbeReply, myProbeCallback,
      get_store_slice, get_store_of_disjoint, get_put_of_disjoint, get_put, sAddr_eq, addressOf_eq,
      received, reread, halfword]

theorem Exchange.received_iff {x : Exchange} (fits : x.Fits) :
    x.received client agent = x.values ↔ x.Survives client agent := by
  cases x with
  | discover start end_ | shDiscover start end_ =>
    simp only [received, values, List.cons.injEq, and_true, reread_iff fits.1, reread_iff fits.2,
      Survives, ← or_and_left]
  | probe address port timeoutMs =>
    have portRead : reconverted 2 client agent port = port := reconverted_eq fits.2.1
    have timeoutRead : reconverted 4 client agent timeoutMs = timeoutMs := reconverted_eq fits.2.2
    simp only [received, values, List.cons.injEq, and_true, reread_iff fits.1, portRead,
      timeoutRead, Survives]
  | map address =>
    simp only [received, values, List.cons.injEq, and_true, reread_iff fits, Survives]
  | discoverReply address =>
    simp only [received, values, List.cons.injEq, and_true, reread_iff fits, Survives,
      eq_comm (a := client)]
  | shDiscoverReply address =>
    simp only [received, values, List.cons.injEq, and_true, unread_iff fits, Survives]
  | mapReply dest addr₁ addr₂ =>
    simp only [received, values, List.cons.injEq, and_true, reread_iff fits.1,
      reread_iff fits.2.1, reread_iff fits.2.2, Survives, ← or_and_left, eq_comm (a := client)]
  | probeReply address port version =>
    simp only [received, values, List.cons.injEq, and_true, reread_iff fits.1,
      halfword_iff fits.2, Survives, ← or_and_left, eq_comm (a := client)]

/-- For which hosts and values an exchange delivers what was put in. -/
theorem exchange_undone_iff {x : Exchange} (fits : x.Fits) :
    x.Undone client agent ↔ x.Survives client agent := by
  rw [← Exchange.received_iff fits]
  constructor
  · intro undone
    have zeros : (List.replicate 8 (0 : UInt8)).length = 8 := rfl
    rw [← x.read_event (List.replicate 8 0) (fun _ => 0) (fun _ => 0)]
    exact undone _ _ _ zeros
  · intro same np ee rest _
    rw [x.read_event, same]

/-- Between big-endian hosts a range is scanned as it was meant. -/
theorem exchange_undone_big :
    (Exchange.discover 0x0a000001 0x0a0000ff).Undone .big .big := by
  have fits : (Exchange.discover 0x0a000001 0x0a0000ff).Fits := ⟨by decide, by decide⟩
  exact (exchange_undone_iff fits).mpr (.inl rfl)

/-- A little-endian GUI asks a big-endian agent for 10.0.0.1, and a little-endian shell hears of it
    from a little-endian agent: in either case the address arrives reversed. -/
theorem exchange_reversed :
    ¬ (Exchange.discover 0x0a000001 0x0a000001).Undone .little .big ∧
    ¬ (Exchange.shDiscoverReply 0x0a000001).Undone .little .little ∧
    ¬ (Exchange.probeReply 0x7f00007f 80 []).Undone .big .little := by
  have zeros : (List.replicate 8 (0 : UInt8)).length = 8 := rfl
  refine ⟨fun undone => ?_, fun undone => ?_, fun undone => ?_⟩ <;>
  · have read := undone (List.replicate 8 0) (fun _ => 0) (fun _ => 0) zeros
    revert read
    decide +kernel

end Cheops.Fields
