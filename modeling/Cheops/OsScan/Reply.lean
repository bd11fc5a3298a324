import Cheops.Lib.Wire
import Cheops.OsScan.Request

/-! # OS scans: reading a reply (`gui-handlers.c`)

`handle_os_scan_reply` of the GUI walks over the options `send_osscan_reply` has packed behind
the event.  `handleOsScanReply_osscanReply` says what it makes of them.
-/

namespace Cheops.OsScan

open Cheops.Lib Cheops.Event

def MAX_EVENT_SIZE : Nat := 65536

/-! ## What is read -/

/-- `os_port_entry`, without `next`.  Its numbers are kept as 32-bit words. -/
structure OsPortEntry where
  port : Nat
  protocol : Nat
  name : List UInt8
  version : Option (List UInt8)
  owner : List UInt8
  state : Nat
  rpcnum : Nat
  rpclowver : Nat
  rpchighver : Nat
  proto : Nat
deriving DecidableEq, Repr

/-- `os_stats`, with the list that `ports` begins. -/
structure OsStats where
  os : Option (List UInt8)
  ports : List OsPortEntry
  uptimeSeconds : Nat
  uptimeLastBoot : Option (List UInt8)
deriving DecidableEq, Repr

/-- What is called for a port: `add_service`, whose numbers are a `u16` and a `u8`, and
    `do_probe`, whose port is a `u16`. -/
inductive PortCall where
  | addService (port protocol : Nat) (name : List UInt8)
  | doProbe (port : Nat)
deriving DecidableEq, Repr

/-- The variables of the loop: `os_data`, the calls made, and `ptr` as an offset. -/
structure Walk where
  osData : OsStats
  calls : List PortCall
  ptr : Nat
deriving DecidableEq, Repr

/-- `sizeof(os_scan_r)` and the sizes of the option headers. -/
def sizeofOsScanR : Nat := 16
def sizeofOsScanOptionOs : Nat := 8
def sizeofOsScanOptionUptime : Nat := 12
def sizeofOsScanOptionPort : Nat := 36

def OsStats.zero : OsStats where
  os := none
  ports := []
  uptimeSeconds := 0
  uptimeLastBoot := none

def portCalls (probePorts : Bool) (port : OsPortEntry) : List PortCall :=
  .addService (port.port % 2 ^ 16) (port.protocol % 2 ^ 8) port.name ::
    if probePorts then [.doProbe (port.port % 2 ^ 16)] else []

/-- The entry read from a port option at `opt`. -/
def readPort (m : Mem) (opt : Nat) : OsPortEntry :=
  let name := cstring m (opt + sizeofOsScanOptionPort)
  { port := be32 m (opt + 16)
    protocol := be32 m (opt + 8)
    name
    version := none
    owner := cstring m (opt + sizeofOsScanOptionPort + name.length + 1)
    state := be32 m (opt + 12)
    rpcnum := be32 m (opt + 24)
    rpclowver := be32 m (opt + 28)
    rpchighver := be32 m (opt + 32)
    proto := be32 m (opt + 20) }

/-- The `switch` on the option at `ptr`. -/
def readOption (probePorts : Bool) (m : Mem) (w : Walk) : Walk :=
  let opt := w.ptr
  if be32 m opt = OS_SCAN_OPTION_OS then
    { w with osData := { w.osData with os := some (cstring m (opt + sizeofOsScanOptionOs)) } }
  else if be32 m opt = OS_SCAN_OPTION_UPTIME then
    { w with osData := { w.osData with
        uptimeSeconds := be32 m (opt + 8)
        uptimeLastBoot :=
          if strlen m (opt + sizeofOsScanOptionUptime) ≠ 0 then
            some (cstring m (opt + sizeofOsScanOptionUptime))
          else w.osData.uptimeLastBoot } }
  else if be32 m opt = OS_SCAN_OPTION_PORT then
    let port := readPort m opt
    { w with
      osData := { w.osData with ports := port :: w.osData.ports }
      calls := w.calls ++ portCalls probePorts port }
  else w

/-- The loop over `j` options. -/
def readOptions (probePorts : Bool) (m : Mem) : Nat → Walk → Walk
  | 0, w => w
  | j + 1, w =>
    readOptions probePorts m j { readOption probePorts m w with ptr := w.ptr + be32 m (w.ptr + 4) }

/-- How often the loop runs: `j` is an `int`. -/
def numOptions (e : Mem) : Nat := if be32 e 0 < 2 ^ 31 then be32 e 0 else 0

/-- `handle_os_scan_reply`: the page object that is found, and what becomes of the walk.
    `getByIp` is `page_object_get_by_ip`. -/
def handleOsScanReply {π : Type} (getByIp : List UInt8 → Nat → Option π) (probePorts : Bool)
    (e : Mem) : Option (π × Walk) :=
  (getByIp (slice e 8 8) (be32 e 4)).map fun po =>
    (po, readOptions probePorts e (numOptions e) ⟨.zero, [], sizeofOsScanR⟩)

/-! ## What a scan result says -/

def NmapHostPort.entry (port : NmapHostPort) : OsPortEntry where
  port := port.portid
  protocol := port.protocol
  name := port.service.getD []
  version := none
  owner := port.owner.getD []
  state := port.state
  rpcnum := port.rpcnum
  rpclowver := port.rpclowver
  rpchighver := port.rpchighver
  proto := port.proto

/-- The uptime a result gives; without seconds there is none. -/
def NmapScan.seconds (L : Libc) (n : NmapScan) : Nat :=
  match n.uptimeSeconds with
  | some seconds => (L.atoi seconds % 2 ^ 32).toNat
  | none => 0

/-- The text of the last boot, unless it is empty. -/
def NmapScan.lastBoot (n : NmapScan) : Option (List UInt8) := n.uptimeLastBoot.filter (· ≠ [])

/-- All that a result says arrives. -/
structure Restored (L : Libc) (n : NmapScan) (d : OsStats) : Prop where
  os : d.os = n.osName
  uptimeSeconds : d.uptimeSeconds = n.seconds L
  uptimeLastBoot : d.uptimeLastBoot = n.lastBoot
  ports : d.ports = (n.ports.map NmapHostPort.entry).reverse

/-- The words and the strings of a result are such, and its encoding fits. -/
structure Encodable (L : Libc) (n : NmapScan) (np : List UInt8) : Prop where
  pointer : np.length = 8
  osName : ∀ s ∈ n.osName, 0 ∉ s
  lastBoot : ∀ s ∈ n.uptimeLastBoot, 0 ∉ s
  strings : ∀ port ∈ n.ports, (∀ s ∈ port.service, 0 ∉ s) ∧ ∀ s ∈ port.owner, 0 ∉ s
  words : ∀ port ∈ n.ports, ∀ x ∈ [port.protocol, port.portid, port.state, port.proto,
    port.rpcnum, port.rpclowver, port.rpchighver], x < 2 ^ 32
  fits : (osscanReply L n np).length ≤ MAX_EVENT_SIZE

/-! ## One option -/

variable {L : Libc} {n : NmapScan} {np : List UInt8} {m : Mem} {probePorts : Bool} {w : Walk}

/-- Where an option stands, its type, its length and its body are read. -/
theorem standsAt_osScanOption {opt type : Nat} {body : List UInt8} (isType : type < 2 ^ 32)
    (fits : (osScanOption type body).length < 2 ^ 32)
    (stands : StandsAt m opt (osScanOption type body)) :
    be32 m opt = type ∧ be32 m (opt + 4) = (osScanOption type body).length ∧
      StandsAt m (opt + 8) body := by
  unfold osScanOption at fits stands ⊢
  rw [standsAt_append, standsAt_append] at stands
  obtain ⟨⟨first, second⟩, behind⟩ := stands
  rw [length_toBe] at second
  simp only [List.length_append, length_toBe] at fits behind ⊢
  refine ⟨?_, ?_, behind⟩
  · rw [first.be32, Nat.mod_eq_of_lt isType]
  · rw [second.be32, Nat.mod_eq_of_lt fits]

/-- The strings behind a header: the first, and the second behind its NUL. -/
theorem standsAt_cstr {off : Nat} {s : Option (List UInt8)} (nul : ∀ t ∈ s, 0 ∉ t)
    (fits : (cstr s).length < 2 ^ 32) (stands : StandsAt m off (cstr s)) :
    cstring m off = s.getD [] ∧ strlen m off = (s.getD []).length := by
  have small : (s.getD []).length < 2 ^ 64 := by
    simp only [cstr, List.length_append] at fits
    omega
  have plain : 0 ∉ s.getD [] := by
    cases s with
    | none => exact List.not_mem_nil
    | some t => exact nul t rfl
  exact ⟨stands.cstring plain small, stands.strlen plain small⟩

/-- A word of a port option. -/
theorem be32_word {x off : Nat} {rest : List UInt8} (word : x < 2 ^ 32)
    (stands : StandsAt m off (toBe 4 x ++ rest)) :
    be32 m off = x ∧ StandsAt m (off + 4) rest := by
  obtain ⟨first, behind⟩ := standsAt_append.mp stands
  rw [length_toBe] at behind
  exact ⟨by rw [first.be32, Nat.mod_eq_of_lt word], behind⟩

theorem readPort_portOption {port : NmapHostPort} {opt : Nat}
    (strings : (∀ s ∈ port.service, 0 ∉ s) ∧ ∀ s ∈ port.owner, 0 ∉ s)
    (words : ∀ x ∈ [port.protocol, port.portid, port.state, port.proto, port.rpcnum,
      port.rpclowver, port.rpchighver], x < 2 ^ 32)
    (fits : (portOption port).length < 2 ^ 32) (stands : StandsAt m opt (portOption port)) :
    readPort m opt = port.entry := by
  have hbody := (standsAt_osScanOption (by decide) fits stands).2.2
  simp only [List.append_assoc] at hbody
  simp only [List.forall_mem_cons, List.not_mem_nil, false_imp_iff, implies_true, and_true]
    at words
  obtain ⟨hprotocol, hportid, hstate, hproto, hrpcnum, hlow, hhigh⟩ := words
  obtain ⟨protocol, behind⟩ := be32_word hprotocol hbody
  obtain ⟨state, behind⟩ := be32_word hstate behind
  obtain ⟨portid, behind⟩ := be32_word hportid behind
  obtain ⟨proto, behind⟩ := be32_word hproto behind
  obtain ⟨rpcnum, behind⟩ := be32_word hrpcnum behind
  obtain ⟨low, behind⟩ := be32_word hlow behind
  obtain ⟨high, behind⟩ := be32_word hhigh behind
  obtain ⟨service, owner⟩ := standsAt_append.mp behind
  simp only [portOption, osScanOption, List.length_append, length_toBe] at fits
  have name := (standsAt_cstr strings.1 (by omega) service).1
  rw [show (cstr port.service).length = (port.service.getD []).length + 1 from
    List.length_append] at owner
  have ownerRead := (standsAt_cstr strings.2 (by omega) owner).1
  unfold readPort NmapHostPort.entry
  simp only [sizeofOsScanOptionPort]
  rw [name, protocol, portid, state, proto, rpcnum, low, high]
  congr 1

theorem readOption_os {name : List UInt8} (nul : 0 ∉ name)
    (fits : (osScanOption OS_SCAN_OPTION_OS (cstr (some name))).length < 2 ^ 32)
    (stands : StandsAt m w.ptr (osScanOption OS_SCAN_OPTION_OS (cstr (some name)))) :
    readOption probePorts m w = { w with osData := { w.osData with os := some name } } := by
  obtain ⟨type, -, body⟩ := standsAt_osScanOption (by decide) fits stands
  simp only [osScanOption, List.length_append] at fits
  have string := (standsAt_cstr (fun _ ht => Option.some.inj ht ▸ nul) (by omega) body).1
  unfold readOption
  simp only [type, if_true, sizeofOsScanOptionOs, string, Option.getD_some]

theorem readOption_port {port : NmapHostPort}
    (strings : (∀ s ∈ port.service, 0 ∉ s) ∧ ∀ s ∈ port.owner, 0 ∉ s)
    (words : ∀ x ∈ [port.protocol, port.portid, port.state, port.proto, port.rpcnum,
      port.rpclowver, port.rpchighver], x < 2 ^ 32)
    (fits : (portOption port).length < 2 ^ 32) (stands : StandsAt m w.ptr (portOption port)) :
    readOption probePorts m w =
      { w with
        osData := { w.osData with ports := port.entry :: w.osData.ports }
        calls := w.calls ++ portCalls probePorts port.entry } := by
  have type := (standsAt_osScanOption (by decide) fits stands).1
  unfold readOption
  simp only [type, readPort_portOption strings words fits stands]
  rfl

theorem readOption_uptime {seconds : Nat} {lastBoot : Option (List UInt8)}
    (word : seconds < 2 ^ 32) (nul : ∀ s ∈ lastBoot, 0 ∉ s)
    (fits : (osScanOption OS_SCAN_OPTION_UPTIME (toBe 4 seconds ++ cstr lastBoot)).length < 2 ^ 32)
    (stands : StandsAt m w.ptr
      (osScanOption OS_SCAN_OPTION_UPTIME (toBe 4 seconds ++ cstr lastBoot)))
    (unset : w.osData.uptimeLastBoot = none) :
    readOption probePorts m w =
      { w with osData := { w.osData with
          uptimeSeconds := seconds
          uptimeLastBoot := lastBoot.filter (· ≠ []) } } := by
  obtain ⟨type, -, body⟩ := standsAt_osScanOption (by decide) fits stands
  obtain ⟨read, behind⟩ := be32_word word body
  simp only [osScanOption, List.length_append] at fits
  obtain ⟨string, length⟩ := standsAt_cstr nul (by omega) behind
  have text : (if (lastBoot.getD []).length ≠ 0 then some (lastBoot.getD []) else none) =
      lastBoot.filter (· ≠ []) := by
    cases lastBoot with
    | none => rfl
    | some s => cases s <;> simp [Option.filter]
  unfold readOption
  simp only [type, sizeofOsScanOptionUptime, read, unset]
  rw [show w.ptr + 12 = w.ptr + 8 + 4 from rfl, string, length, text]
  rfl

/-! ## The walk -/

/-- One turn of the loop, at an option that stands at `ptr`. -/
theorem readOptions_succ {type j : Nat} {body : List UInt8} (isType : type < 2 ^ 32)
    (fits : (osScanOption type body).length < 2 ^ 32)
    (stands : StandsAt m w.ptr (osScanOption type body)) :
    readOptions probePorts m (j + 1) w =
      readOptions probePorts m j
        { readOption probePorts m w with ptr := w.ptr + (osScanOption type body).length } := by
  rw [readOptions, (standsAt_osScanOption isType fits stands).2.1]

theorem readOptions_ports {ports : List NmapHostPort} {j : Nat}
    (strings : ∀ port ∈ ports, (∀ s ∈ port.service, 0 ∉ s) ∧ ∀ s ∈ port.owner, 0 ∉ s)
    (words : ∀ port ∈ ports, ∀ x ∈ [port.protocol, port.portid, port.state, port.proto,
      port.rpcnum, port.rpclowver, port.rpchighver], x < 2 ^ 32)
    (fits : (ports.map portOption).flatten.length < 2 ^ 32)
    (stands : StandsAt m w.ptr (ports.map portOption).flatten) :
    readOptions probePorts m (j + ports.length) w =
      readOptions probePorts m j
        { osData := { w.osData with
            ports := (ports.map NmapHostPort.entry).reverse ++ w.osData.ports }
          calls := w.calls ++ ports.flatMap fun port => portCalls probePorts port.entry
          ptr := w.ptr + (ports.map portOption).flatten.length } := by
  induction ports generalizing w with
  | nil => simp
  | cons port ports ih =>
    simp only [List.map_cons, List.flatten_cons, List.length_append, standsAt_append]
      at fits stands
    obtain ⟨here, behind⟩ := stands
    have small : (portOption port).length < 2 ^ 32 := by omega
    have turn : readOptions probePorts m (j + ports.length + 1) w =
        readOptions probePorts m (j + ports.length)
          { readOption probePorts m w with ptr := w.ptr + (portOption port).length } :=
      readOptions_succ (by decide) small here
    have read : readOption probePorts m w = _ :=
      readOption_port (strings port List.mem_cons_self) (words port List.mem_cons_self) small here
    rw [List.length_cons, ← Nat.add_assoc]
    refine turn.trans ?_
    rw [read]
    refine (ih (fun p member => strings p (List.mem_cons_of_mem _ member))
      (fun p member => words p (List.mem_cons_of_mem _ member)) (by omega) behind).trans ?_
    simp [Nat.add_assoc]

/-! ## The reply is read back -/

/-- What the reply for a result makes of `os_data`. -/
def NmapScan.osStats (L : Libc) (n : NmapScan) : OsStats where
  os := n.osName
  ports := (n.ports.map NmapHostPort.entry).reverse
  uptimeSeconds := n.seconds L
  uptimeLastBoot := n.uptimeSeconds.bind fun _ => n.lastBoot

/-- The walk over the options of a reply. -/
theorem readOptions_options {a b c : Nat} (encodable : Encodable L n np)
    (ha : a = (osOption n).length) (hb : b = n.ports.length) (hc : c = (uptimeOption L n).length)
    (stands : StandsAt m sizeofOsScanR
      (osOption n ++ n.ports.map portOption ++ uptimeOption L n).flatten) :
    readOptions probePorts m (c + b + a) ⟨.zero, [], sizeofOsScanR⟩ =
      { osData := n.osStats L
        calls := n.ports.flatMap fun port => portCalls probePorts port.entry
        ptr := sizeofOsScanR +
          (osOption n ++ n.ports.map portOption ++ uptimeOption L n).flatten.length } := by
  have fits := encodable.fits
  simp only [osscanReply, MAX_EVENT_SIZE, List.length_append, List.flatten_append] at fits
  simp only [List.flatten_append, standsAt_append, List.length_append] at stands ⊢
  obtain ⟨⟨osStands, portsStand⟩, uptimeStands⟩ := stands
  have os : readOptions probePorts m (c + b + a) ⟨.zero, [], sizeofOsScanR⟩ =
      readOptions probePorts m (c + b)
        ⟨{ OsStats.zero with os := n.osName }, [],
          sizeofOsScanR + (osOption n).flatten.length⟩ := by
    unfold osOption at ha osStands fits ⊢
    cases hname : n.osName with
    | none =>
      rw [hname] at ha
      rw [ha]
      rfl
    | some name =>
      simp only [hname, List.flatten_cons, List.flatten_nil, List.append_nil, List.length_cons,
        List.length_nil] at ha osStands fits ⊢
      rw [ha]
      refine (readOptions_succ (by decide) (by omega) osStands).trans ?_
      rw [readOption_os (encodable.osName name hname) (by omega) osStands]
  rw [os, hb]
  refine (readOptions_ports encodable.strings encodable.words (by omega) portsStand).trans ?_
  unfold uptimeOption at hc uptimeStands fits ⊢
  unfold NmapScan.osStats NmapScan.seconds NmapScan.lastBoot
  cases hseconds : n.uptimeSeconds with
  | none =>
    rw [hseconds] at hc
    rw [hc]
    simp [readOptions, OsStats.zero, Nat.add_assoc]
  | some seconds =>
    have word : (L.atoi seconds % 2 ^ 32).toNat < 2 ^ 32 := by omega
    simp only [hseconds, List.flatten_cons, List.flatten_nil, List.append_nil, List.length_cons,
      List.length_nil] at hc uptimeStands fits ⊢
    rw [hc]
    rw [← Nat.add_assoc] at uptimeStands
    refine (readOptions_succ (by decide) (by omega) uptimeStands).trans ?_
    rw [readOption_uptime word encodable.lastBoot (by omega) uptimeStands rfl]
    simp [readOptions, OsStats.zero, Nat.add_assoc]

theorem length_osScanOption (type : Nat) (body : List UInt8) :
    (osScanOption type body).length = 8 + body.length := by
  simp only [osScanOption, List.length_append, length_toBe]

/-- There are fewer options than bytes. -/
theorem length_options_le (L : Libc) (n : NmapScan) :
    (osOption n ++ n.ports.map portOption ++ uptimeOption L n).length ≤
      (osOption n ++ n.ports.map portOption ++ uptimeOption L n).flatten.length := by
  rw [List.length_flatten]
  have nonempty : ∀ o ∈ osOption n ++ n.ports.map portOption ++ uptimeOption L n,
      ∃ type body, o = osScanOption type body := by
    intro o member
    simp only [List.mem_append, List.mem_map] at member
    rcases member with (member | ⟨port, -, rfl⟩) | member
    · unfold osOption at member
      split at member
      · exact ⟨_, _, List.mem_singleton.mp member⟩
      · cases member
    · exact ⟨_, _, rfl⟩
    · unfold uptimeOption at member
      split at member
      · exact ⟨_, _, List.mem_singleton.mp member⟩
      · cases member
  have positive : ∀ k ∈ (osOption n ++ n.ports.map portOption ++ uptimeOption L n).map
      List.length, 1 ≤ k := by
    intro k member
    obtain ⟨o, listed, rfl⟩ := List.mem_map.mp member
    obtain ⟨type, body, rfl⟩ := nonempty o listed
    rw [length_osScanOption]
    omega
  have bound := List.length_le_sum_of_one_le _ positive
  rwa [List.length_map] at bound

/-- What `handle_os_scan_reply` makes of the reply for a result, wherever the reply stands and
    whatever is behind it: the walk takes in all of it and nothing more. -/
theorem handleOsScanReply_osscanReply {π : Type} (getByIp : List UInt8 → Nat → Option π)
    (probePorts : Bool) (encodable : Encodable L n np) {h : Mem}
    (stands : StandsAt h 0 (osscanReply L n np)) :
    handleOsScanReply getByIp probePorts (fun i => h (hdrHlen h + i)) =
      (getByIp np (L.inetAddr n.addr % 2 ^ 32)).map fun po =>
        (po, { osData := n.osStats L
               calls := n.ports.flatMap fun port => portCalls probePorts port.entry
               ptr := (osscanReply L n np).length - sizeofEventHdr }) := by
  have fits := encodable.fits
  have pointer := encodable.pointer
  unfold osscanReply at fits stands ⊢
  dsimp only at fits stands ⊢
  rw [List.append_assoc] at stands
  obtain ⟨-, hlen, -, -, behind⟩ := standsAt_eventHdr stands
  rw [show sizeofEventHdr % 2 ^ 16 = 12 from rfl] at hlen
  replace behind : StandsAt h (12 + 0) _ := behind
  have event := behind.shift
  simp only [List.length_append, length_toBe, MAX_EVENT_SIZE, pointer] at fits ⊢
  simp only [standsAt_append, List.length_append, length_toBe, pointer] at event
  obtain ⟨⟨⟨count, ip⟩, page⟩, walked⟩ := event
  rw [hlen]
  have few := length_options_le L n
  have counted : numOptions (fun i => h (12 + i)) =
      (uptimeOption L n).length + n.ports.length + (osOption n).length := by
    simp only [List.length_append, List.length_map] at few count
    unfold numOptions
    rw [count.be32, Nat.mod_eq_of_lt (by omega), if_pos (by omega)]
    omega
  have address : be32 (fun i => h (12 + i)) 4 = L.inetAddr n.addr % 2 ^ 32 := ip.be32
  have pointed : slice (fun i => h (12 + i)) 8 8 = np := by
    have stood : slice (fun i => h (12 + i)) 8 np.length = np := page
    rwa [pointer] at stood
  unfold handleOsScanReply
  rw [counted, address, pointed, readOptions_options encodable rfl rfl rfl walked]
  congr 1
  funext po
  congr 2
  simp only [eventHdr, List.length_append, length_toBe, sizeofOsScanR, sizeofEventHdr]
  omega

def plainLibc : Libc where
  inetAddr _ := 0x0a000001
  atoi _ := 3600

def fullScan : NmapScan where
  addr := text "10.0.0.1"
  ports :=
    [{ protocol := 1, portid := 22, state := 1, service := some (text "ssh"), owner := none,
       proto := 0, rpcnum := 0, rpclowver := 0, rpchighver := 0 },
     { protocol := 2, portid := 2 ^ 32 - 1, state := 3, service := none,
       owner := some (text "root"), proto := 1, rpcnum := 100003, rpclowver := 2,
       rpchighver := 4 }]
  uptimeSeconds := some (text "3600")
  uptimeLastBoot := some (text "Mon")
  osName := some (text "Linux")

theorem handleOsScanReply_fullScan :
    let h := store (fun _ => 7) 0 (osscanReply plainLibc fullScan [1, 0, 0, 0, 0, 0, 0, 0])
    handleOsScanReply (fun _ _ => some ()) false (fun i => h (hdrHlen h + i)) =
      some ((), { osData := fullScan.osStats plainLibc
                  calls := fullScan.ports.flatMap fun port => portCalls false port.entry
                  ptr := 129 }) :=
  (handleOsScanReply_osscanReply (fun _ _ => some ()) false
    ⟨by decide, by decide, by decide, by decide, by decide, by decide +kernel⟩
    standsAt_store).trans (by decide +kernel)

def bootedScan : NmapScan where
  addr := text "10.0.0.1"
  ports := []
  uptimeSeconds := none
  uptimeLastBoot := some (text "Mon")
  osName := none

/-- The seconds carry the last boot with them: without them it does not arrive. -/
theorem osscanReply_loses_lastBoot :
    Encodable plainLibc bootedScan [1, 0, 0, 0, 0, 0, 0, 0] ∧
    ∃ h : Mem, StandsAt h 0 (osscanReply plainLibc bootedScan [1, 0, 0, 0, 0, 0, 0, 0]) ∧
      ∃ w, handleOsScanReply (fun _ _ => some ()) false (fun i => h (hdrHlen h + i)) =
          some ((), w) ∧ ¬ Restored plainLibc bootedScan w.osData := by
  refine ⟨⟨by decide, by decide, by decide, by decide, by decide, by decide⟩,
    store (fun _ => 0) 0 (osscanReply plainLibc bootedScan [1, 0, 0, 0, 0, 0, 0, 0]),
    standsAt_store, ⟨.zero, [], 16⟩, by decide +kernel, fun restored => ?_⟩
  have lost := restored.uptimeLastBoot
  revert lost
  decide +kernel

end Cheops.OsScan
