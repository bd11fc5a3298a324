import Cheops.Lib.Decimal
import Cheops.Lib.KeyValue
import Cheops.Lib.Keyed
import Cheops.OsScan.Request

/-! # Hosts in the configuration file (`gui-config.c`)

`write_config_file` gives each page a section of the file, and each host of the page the keys that
begin with `page_object_` and its number; `read_config_file` takes the numbers in order until one is
missing.  The place of a host on the page, its icon and its notes are left out.

The uptime is not written, and a name that is the address of its host is dropped when the host is
displayed.  `hosts_restored` says that what is left comes back; the ports of a host are only written
if it has the name of an operating system.
-/

namespace Cheops.Gui.Config

open Cheops.Lib Cheops.Lib.Keyed

/-! ## Hosts -/

/-- `os_port_entry`, without its link. -/
structure OsPortEntry where
  port : BitVec 32
  protocol : BitVec 32
  name : Option (List UInt8)
  version : Option (List UInt8)
  owner : Option (List UInt8)
  state : BitVec 32
  rpcnum : BitVec 32
  rpclowver : BitVec 32
  rpchighver : BitVec 32
  proto : BitVec 32
deriving DecidableEq, Repr

/-- `os_stats`, with the list that `ports` begins. -/
structure OsStats where
  os : Option (List UInt8)
  ports : List OsPortEntry
  uptimeSeconds : BitVec 32
  uptimeLastBoot : Option (List UInt8)
deriving DecidableEq, Repr

def OsStats.zero : OsStats := ⟨none, [], 0, none⟩

/-- `page_object`.  The address is a number with its first byte the highest. -/
structure PageObject where
  ip : BitVec 32
  name : Option (List UInt8)
  osData : Option OsStats
deriving DecidableEq, Repr

/-- The hosts of a page, no two of which have the same address. -/
structure NetPage where
  pageObjects : List PageObject
  distinct : Distinct PageObject.ip pageObjects

def ip2str (ip : BitVec 32) : List UInt8 :=
  OsScan.inetNtoa (UInt8.ofNat (ip.toNat / 256 ^ 3)) (UInt8.ofNat (ip.toNat / 256 ^ 2))
    (UInt8.ofNat (ip.toNat / 256)) (UInt8.ofNat ip.toNat)

/-- `str2ip`, which returns what was in memory before if the text is no address. -/
def str2ip (s : List UInt8) : Option (BitVec 32) := (inetAton s).map (BitVec.ofNat 32)

def onHost (ip : BitVec 32) (f : PageObject → PageObject) : List PageObject → List PageObject
  | [] => []
  | po :: np => if po.ip = ip then f po :: np else po :: onHost ip f np

/-- What `page_object_display` does to the name: none is needed if it is the address. -/
def pageObjectDisplay (po : PageObject) : PageObject :=
  if po.name.bind inetAton = some po.ip.toNat then { po with name := none } else po

def addHostEntryToNetPage (ip : BitVec 32) (name : Option (List UInt8)) (np : List PageObject) :
    List PageObject :=
  if np.any (·.ip = ip) then onHost ip (fun po => { po with name := name.or po.name }) np
  else pageObjectDisplay ⟨ip, some (name.getD (ip2str ip)), none⟩ :: np

def addDiscoveredNode (ip : BitVec 32) (name : Option (List UInt8)) (osData : Option OsStats)
    (np : List PageObject) : List PageObject :=
  onHost ip (fun po => { po with osData := osData.or po.osData }) (addHostEntryToNetPage ip name np)

/-! ## Keys -/

inductive HostField where
  | ip | name | osName
deriving DecidableEq, Repr

inductive PortField where
  | port | protocol | state | proto | rpcnum | rpclowver | rpchighver | name | version | owner
deriving DecidableEq, Repr

def HostField.text : HostField → List UInt8
  | ip => Lib.text "_ip"
  | name => Lib.text "_name"
  | osName => Lib.text "_os_name"

def PortField.text : PortField → List UInt8
  | port => Lib.text "_port"
  | protocol => Lib.text "_protocol"
  | state => Lib.text "_state"
  | proto => Lib.text "_proto"
  | rpcnum => Lib.text "_rpcnum"
  | rpclowver => Lib.text "_rpclowver"
  | rpchighver => Lib.text "_rpchighver"
  | name => Lib.text "_name"
  | version => Lib.text "_version"
  | owner => Lib.text "_owner"

/-- A key of the host with the number `j`, or of its port with the number `portCount`. -/
inductive Key where
  | host (j : Nat) (f : HostField)
  | port (j portCount : Nat) (f : PortField)
deriving DecidableEq, Repr

def Key.text : Key → List UInt8
  | host j f => Lib.text "page_object_" ++ (decimal j ++ f.text)
  | port j portCount f =>
    Lib.text "page_object_" ++ (decimal j ++ (Lib.text "_port_" ++ (decimal portCount ++ f.text)))

/-! ## `gnome_config` -/

abbrev Section := List UInt8 → Option (List UInt8)

/-- `gnome_config_get_string_with_default`, which gives nothing in place of a default. -/
def getString (c : Section) (key : Key) : Option (List UInt8) := c key.text

/-- `gnome_config_get_int_with_default`: the number, and whether it is the default. -/
def getInt (c : Section) (key : Key) (default : BitVec 32) : BitVec 32 × Bool :=
  match c key.text with
  | some v => (BitVec.ofInt 32 (atoi v), false)
  | none => (default, true)

def int (x : BitVec 32) : List UInt8 := printed x.toInt

/-! ## Writing -/

def OsPortEntry.value (osp : OsPortEntry) : PortField → Option (List UInt8)
  | .port => some (int osp.port)
  | .protocol => some (int osp.protocol)
  | .state => some (int osp.state)
  | .proto => some (int osp.proto)
  | .rpcnum => some (int osp.rpcnum)
  | .rpclowver => some (int osp.rpclowver)
  | .rpchighver => some (int osp.rpchighver)
  | .name => osp.name
  | .version => osp.version
  | .owner => osp.owner

def portFields : List PortField :=
  [.port, .protocol, .state, .proto, .rpcnum, .rpclowver, .rpchighver, .name, .version, .owner]

def writePort (j portCount : Nat) (osp : OsPortEntry) : List (Key × List UInt8) :=
  record (Key.port j portCount) osp.value portFields

/-- What is set for a host.  `nullIsEmpty` says whether `gnome_config_set_string` keeps an empty
    text for `NULL`, or nothing. -/
def PageObject.value (nullIsEmpty : Bool) (po : PageObject) : HostField → Option (List UInt8)
  | .ip => some (ip2str po.ip)
  | .name => po.name.or (if nullIsEmpty then some [] else none)
  | .osName => po.osData.bind (·.os)

def writeHost (nullIsEmpty : Bool) (j : Nat) (po : PageObject) : List (Key × List UInt8) :=
  record (Key.host j) (po.value nullIsEmpty) [.ip, .name, .osName] ++
    match po.osData with
    | some ⟨some _, ports, _, _⟩ => numbered (writePort j) 0 ports
    | _ => []

/-- The section that `write_config_file` makes of a page. -/
def writeConfigFile (nullIsEmpty : Bool) (np : NetPage) : Section :=
  written (fun _ => none)
    ((numbered (writeHost nullIsEmpty) 0 np.pageObjects).map (Prod.map Key.text id))

/-! ## Reading -/

def PORT_STATE_OPEN : BitVec 32 := 1
def PORT_PROTO_NONE : BitVec 32 := 0

/-- One turn of the loop over the ports, which ends if there is no port or no protocol. -/
def readPort (c : Section) (j portCount : Nat) : Option OsPortEntry :=
  let (port, missing) := getInt c (.port j portCount .port) 0
  if missing then none
  else
    let (protocol, missing) := getInt c (.port j portCount .protocol) 0
    if missing then none
    else
      let (state, _) := getInt c (.port j portCount .state) PORT_STATE_OPEN
      let (proto, missing) := getInt c (.port j portCount .proto) 0
      let state := if missing then PORT_PROTO_NONE else state
      some {
        port, protocol, state, proto
        rpcnum := (getInt c (.port j portCount .rpcnum) 0).1
        rpclowver := (getInt c (.port j portCount .rpclowver) 0).1
        rpchighver := (getInt c (.port j portCount .rpchighver) 0).1
        name := getString c (.port j portCount .name)
        version := getString c (.port j portCount .version)
        owner := getString c (.port j portCount .owner) }

/-- The loop over the ports, for at most `turns` turns. -/
def readPorts (c : Section) (j : Nat) : Nat → Nat → Option (List OsPortEntry)
  | 0, _ => none
  | turns + 1, portCount =>
    match readPort c j portCount with
    | none => some []
    | some osp => (readPorts c j turns (portCount + 1)).map (osp :: ·)

def readOsData (os : Option (List UInt8)) (ports : List OsPortEntry) : Option OsStats :=
  if os = none ∧ ports = [] then none else some { OsStats.zero with os, ports }

/-- The loop over the hosts, for at most `turns` turns. -/
def readHosts (c : Section) (portTurns : Nat) :
    Nat → Nat → List PageObject → Option (List PageObject)
  | 0, _, _ => none
  | turns + 1, j, np =>
    match getString c (.host j .ip) with
    | none | some [] => some np
    | some poIp => do
      let poName := (getString c (.host j .name)).filter (· ≠ [])
      let ports ← readPorts c j portTurns 0
      let osData := readOsData (getString c (.host j .osName)) ports
      let ip ← str2ip poIp
      let np := addDiscoveredNode ip poName osData np
      readHosts c portTurns turns (j + 1) (onHost ip pageObjectDisplay np)

/-- The page that `read_config_file` makes of a section. -/
def readConfigFile (turns : Nat) (c : Section) : Option (List PageObject) :=
  readHosts c turns turns 0 []

/-! ## What comes back -/

def PageObject.os (po : PageObject) : Option (List UInt8) := po.osData.bind (·.os)
def PageObject.ports (po : PageObject) : List OsPortEntry := (po.osData.map (·.ports)).getD []
def PageObject.uptimeSeconds (po : PageObject) : BitVec 32 :=
  (po.osData.map (·.uptimeSeconds)).getD 0
def PageObject.uptimeLastBoot (po : PageObject) : Option (List UInt8) :=
  po.osData.bind (·.uptimeLastBoot)

/-- The host is shown by its address: it has no name, an empty one, or its address for a name. -/
def PageObject.Nameless (po : PageObject) : Prop :=
  po.name = none ∨ po.name = some [] ∨ po.name.bind inetAton = some po.ip.toNat

instance (po : PageObject) : Decidable po.Nameless := inferInstanceAs (Decidable (_ ∨ _ ∨ _))

/-- What comes back of a host.  Nothing is said of the ports of a host without the name of an
    operating system. -/
structure Restored (po po' : PageObject) : Prop where
  ip : po'.ip = po.ip
  name : po'.name = if po.Nameless then none else po.name
  os : po'.os = po.os
  ports : po.os.isSome ∨ po.ports = [] → po'.ports = po.ports
  uptimeSeconds : po'.uptimeSeconds = 0
  uptimeLastBoot : po'.uptimeLastBoot = none

def PageObject.restored (po : PageObject) : PageObject where
  ip := po.ip
  name := if po.Nameless then none else po.name
  osData := readOsData po.os (if po.os.isSome then po.ports else [])

/-- Without `os_data` the host has no system and no ports. -/
theorem readOsData_shows (os : Option (List UInt8)) (ports : List OsPortEntry)
    {po : PageObject} (data : po.osData = readOsData os ports) :
    po.os = os ∧ po.ports = ports ∧ po.uptimeSeconds = 0 ∧ po.uptimeLastBoot = none := by
  unfold PageObject.os PageObject.ports PageObject.uptimeSeconds PageObject.uptimeLastBoot
  rw [data]
  by_cases nothing : os = none ∧ ports = []
  case pos =>
    rw [readOsData, if_pos nothing]
    exact ⟨nothing.1.symm, nothing.2.symm, rfl, rfl⟩
  case neg =>
    rw [readOsData, if_neg nothing]
    exact ⟨rfl, rfl, rfl, rfl⟩

theorem PageObject.restored_spec (po : PageObject) : Restored po po.restored := by
  obtain ⟨os, ports, uptime, lastBoot⟩ :=
    readOsData_shows _ _ (show po.restored.osData = _ from rfl)
  refine ⟨rfl, rfl, os, fun kept => ports.trans ?_, uptime, lastBoot⟩
  rcases kept with named | none
  · rw [if_pos named]
  · rw [none, ite_self]

/-! ## Keys are different -/

theorem HostField.text_injective : Function.Injective HostField.text := by
  intro f f' same
  cases f <;> cases f' <;> first | rfl | exact absurd same (by decide)

theorem PortField.text_injective : Function.Injective PortField.text := by
  intro f f' same
  cases f <;> cases f' <;> first | rfl | exact absurd same (by decide)

theorem HostField.stop (f : HostField) : NoDigit 10 f.text := by
  cases f <;> exact fun c first => by cases first; decide

theorem PortField.stop (f : PortField) : NoDigit 10 f.text := by
  cases f <;> exact fun c first => by cases first; decide

theorem port_stop (rest : List UInt8) : NoDigit 10 (text "_port_" ++ rest) :=
  fun c first => by cases first; decide

theorem HostField.not_port (f : HostField) (rest : List UInt8) :
    f.text ≠ Lib.text "_port_" ++ rest := by
  intro same
  have front := congrArg (List.take 6) same
  rw [List.take_append_of_le_length (by decide)] at front
  cases f <;> exact absurd front (by decide)

theorem Key.text_injective : Function.Injective Key.text := by
  intro k k' same
  cases k with
  | host j f =>
    cases k' with
    | host j' f' =>
      dsimp only [Key.text] at same
      obtain ⟨rfl, rest⟩ := decimal_append_inj f.stop f'.stop (List.append_cancel_left same)
      rw [HostField.text_injective rest]
    | port j' portCount f' =>
      dsimp only [Key.text] at same
      obtain ⟨-, rest⟩ := decimal_append_inj f.stop (port_stop _) (List.append_cancel_left same)
      exact absurd rest (f.not_port _)
  | port j portCount f =>
    cases k' with
    | host j' f' =>
      dsimp only [Key.text] at same
      obtain ⟨-, rest⟩ := decimal_append_inj (port_stop _) f'.stop (List.append_cancel_left same)
      exact absurd rest.symm (f'.not_port _)
    | port j' portCount' f' =>
      dsimp only [Key.text] at same
      obtain ⟨rfl, ports⟩ :=
        decimal_append_inj (port_stop _) (port_stop _) (List.append_cancel_left same)
      obtain ⟨rfl, rest⟩ := decimal_append_inj f.stop f'.stop (List.append_cancel_left ports)
      rw [PortField.text_injective rest]

/-! ## What is read of what has been written -/

def Key.number : Key → Option Nat
  | host j _ => some j
  | port j _ _ => some j

def Key.portNumber : Key → Option Nat
  | host _ _ => none
  | port _ portCount _ => some portCount

section Writing

variable {nullIsEmpty : Bool} {np : NetPage} {j k : Nat} {po : PageObject} {osp : OsPortEntry}
  {c : Key → Option (List UInt8)}

theorem writePort_number (j k : Nat) (osp : OsPortEntry) :
    ∀ write ∈ writePort j k osp, write.1.number = some j ∧ write.1.portNumber = some k := by
  intro write member
  obtain ⟨f, -, same⟩ := mem_record member
  rw [same]
  exact ⟨rfl, rfl⟩

theorem ports_number {ports : List OsPortEntry} {n : Nat} :
    ∀ write ∈ numbered (writePort j) n ports, write.1.number = some j := by
  induction ports generalizing n with
  | nil =>
    intro write none
    cases none
  | cons osp ports ih =>
    intro write member
    rcases List.mem_append.mp member with here | later
    · exact (writePort_number j n osp write here).1
    · exact ih write later

theorem writeHost_number (j : Nat) (po : PageObject) :
    ∀ write ∈ writeHost nullIsEmpty j po, write.1.number = some j := by
  intro write member
  rcases List.mem_append.mp member with here | later
  · obtain ⟨f, -, same⟩ := mem_record here
    rw [same]
    rfl
  · split at later
    next => exact ports_number write later
    next => cases later

/-- A key of a host is read as that host has written it. -/
theorem writeConfigFile_key (key : Key) (number : key.number = some j) :
    writeConfigFile nullIsEmpty np key.text =
      match np.pageObjects[j]? with
      | some po => written (fun _ => none) (writeHost nullIsEmpty j po) key
      | none => none := by
  rw [writeConfigFile, written_map Key.text_injective]
  have place : key.number = some (0 + j) := by rw [number, Nat.zero_add]
  rw [written_numbered writeHost_number place, Nat.zero_add]
  cases np.pageObjects[j]? <;> rfl

/-- What stands behind the fields of a host. -/
theorem writeHost_eq (po : PageObject) : writeHost nullIsEmpty j po =
    record (Key.host j) (po.value nullIsEmpty) [.ip, .name, .osName] ++
      if po.os.isSome then numbered (writePort j) 0 po.ports else [] := by
  unfold writeHost PageObject.os PageObject.ports
  rcases po.osData with _ | ⟨_ | os, ports, uptime, lastBoot⟩ <;> rfl

/-- A key of the host itself. -/
theorem writeHost_host (f : HostField) :
    written (fun _ => none) (writeHost nullIsEmpty j po) (.host j f) = po.value nullIsEmpty f := by
  have all : f ∈ [HostField.ip, .name, .osName] := by cases f <;> decide
  have injective : Function.Injective (Key.host j) := fun f f' same => by injection same
  rw [writeHost_eq, written_append]
  -- the keys that are written behind it have the number of a port
  rw [written_of_ne, written_record injective all, Option.or_none]
  split
  case isTrue =>
    intro write member same
    have own : ∀ n x, ∀ write ∈ writePort j n x, write.1.portNumber = some n :=
      fun n x write member => (writePort_number j n x write member).2
    obtain ⟨i, -, number⟩ := number_of_mem own write member
    rw [same] at number
    cases number
  case isFalse => exact fun write none => by cases none

/-- A key of a port, which is only there with a system. -/
theorem writeHost_port (f : PortField) :
    written (fun _ => none) (writeHost nullIsEmpty j po) (.port j k f) =
      if po.os.isSome then po.ports[k]?.bind (·.value f) else none := by
  have all : f ∈ portFields := by cases f <;> decide
  have injective : Function.Injective (Key.port j k) := fun f f' same => by injection same
  have before : written (fun _ => none)
      (record (Key.host j) (po.value nullIsEmpty) [.ip, .name, .osName]) (.port j k f) = none := by
    refine written_of_ne fun write member same => ?_
    obtain ⟨g, -, key⟩ := mem_record member
    cases key.symm.trans same
  rw [writeHost_eq, written_append]
  split
  case isFalse => exact before
  case isTrue =>
    have place : (Key.port j k f).portNumber = some (0 + k) := by rw [Nat.zero_add]; rfl
    rw [written_numbered (fun n x write member => (writePort_number j n x write member).2) place,
      Nat.zero_add]
    cases po.ports[k]? with
    | none => exact before
    | some osp =>
      dsimp only
      rw [writePort, written_record injective all, before, Option.or_none]
      rfl

end Writing

/-! ## Reading -/

section Reading

variable {c : Section} {np : List PageObject} {j k : Nat} {po : PageObject} {osp : OsPortEntry}

theorem getInt_int {key : Key} {x : BitVec 32} (stored : c key.text = some (int x))
    (default : BitVec 32) : getInt c key default = (x, false) := by
  have above := x.le_toInt
  have below := x.toInt_lt
  unfold getInt
  rw [stored, int]
  dsimp only
  rw [atoi_printed (by simpa using above) (by simpa using below), BitVec.ofInt_toInt]

theorem readPort_value (stored : ∀ f, c (Key.port j k f).text = osp.value f) :
    readPort c j k = some osp := by
  have int {f : PortField} {x : BitVec 32} (value : osp.value f = some (int x))
      (default : BitVec 32) : getInt c (.port j k f) default = (x, false) :=
    getInt_int ((stored f).trans value) default
  unfold readPort
  rw [int (f := .port) rfl, int (f := .protocol) rfl, int (f := .state) rfl, int (f := .proto) rfl,
    int (f := .rpcnum) rfl, int (f := .rpclowver) rfl, int (f := .rpchighver) rfl]
  unfold getString
  rw [stored .name, stored .version, stored .owner]
  rfl

theorem readPorts_eq {ports : List OsPortEntry} {turns : Nat}
    (stored : ∀ i f, c (Key.port j (k + i) f).text = ports[i]?.bind (·.value f))
    (enough : ports.length < turns) : readPorts c j turns k = some ports := by
  induction ports generalizing k turns with
  | nil =>
    obtain ⟨turns, rfl⟩ := Nat.exists_eq_add_one_of_ne_zero (Nat.ne_zero_of_lt enough)
    have missing : readPort c j k = none := by
      have none : c (Key.port j k .port).text = none := stored 0 .port
      unfold readPort getInt
      rw [none]
      rfl
    rw [readPorts, missing]
  | cons osp ports ih =>
    obtain ⟨turns, rfl⟩ := Nat.exists_eq_add_one_of_ne_zero (Nat.ne_zero_of_lt enough)
    have rest (i : Nat) (f : PortField) :
        c (Key.port j (k + 1 + i) f).text = ports[i]?.bind (·.value f) := by
      rw [Nat.add_assoc, Nat.add_comm 1 i]
      exact stored (i + 1) f
    have first : readPort c j k = some osp := readPort_value fun f => stored 0 f
    rw [readPorts, first]
    dsimp only
    rw [ih rest (Nat.lt_of_succ_lt_succ enough), Option.map_some]

/-- An address is read as it has been written. -/
theorem inetAton_ip2str (ip : BitVec 32) : inetAton (ip2str ip) = some ip.toNat := by
  have bound := ip.isLt
  have byte (n : Nat) : (Numeral.ofNat (UInt8.ofNat n).toNat).value = n % 256 := by
    rw [Numeral.value_ofNat, UInt8.toNat_ofNat']
  have small (n : Nat) : (Numeral.ofNat (UInt8.ofNat n).toNat).value ≤ 255 := by
    rw [byte]
    omega
  have dot : text "." = [46] := by decide
  have read := inetAton_dotted _ _ _ _ (small (ip.toNat / 256 ^ 3)) (small (ip.toNat / 256 ^ 2))
    (small (ip.toNat / 256)) (small ip.toNat)
  rw [byte, byte, byte, byte] at read
  rw [ip2str, OsScan.inetNtoa_eq, dot]
  simp only [List.append_assoc, List.cons_append, List.nil_append]
  refine read.trans (congrArg some ?_)
  omega

/-! ### A host that is added -/

theorem pageObjectDisplay_osData (po : PageObject) (osData : Option OsStats) :
    pageObjectDisplay { po with osData } = { pageObjectDisplay po with osData } := by
  unfold pageObjectDisplay
  dsimp only
  split
  · rfl
  · rfl

theorem pageObjectDisplay_again (po : PageObject) :
    pageObjectDisplay (pageObjectDisplay po) = pageObjectDisplay po := by
  unfold pageObjectDisplay
  by_cases own : po.name.bind inetAton = some po.ip.toNat
  case pos =>
    rw [if_pos own, if_neg]
    rw [Option.bind_none]
    exact nofun
  case neg => rw [if_neg own, if_neg own]

/-- A new host gets its address for a name, unless it has one. -/
theorem pageObjectDisplay_new (po : PageObject) :
    pageObjectDisplay ⟨po.ip, some ((po.name.filter (· ≠ [])).getD (ip2str po.ip)), none⟩ =
      ⟨po.ip, if po.Nameless then none else po.name, none⟩ := by
  have own := inetAton_ip2str po.ip
  unfold pageObjectDisplay PageObject.Nameless
  obtain ⟨ip, _ | _ | ⟨c, name⟩, osData⟩ := po
  · simp [own]
  · simp [Option.filter, own]
  · by_cases same : inetAton (c :: name) = some ip.toNat
    case pos => simp [Option.filter, same]
    case neg => simp [Option.filter, same]

theorem addDiscoveredNode_new (fresh : ∀ q ∈ np, q.ip ≠ po.ip) (osData : Option OsStats) :
    onHost po.ip pageObjectDisplay
        (addDiscoveredNode po.ip (po.name.filter (· ≠ [])) osData np) =
      ⟨po.ip, if po.Nameless then none else po.name, osData⟩ :: np := by
  have absent : np.any (·.ip = po.ip) = false := by
    rw [List.any_eq_false]
    intro q member
    simpa using fresh q member
  -- the host is displayed when it is added, and once more with its `os_data`
  have again := pageObjectDisplay_again
    ⟨po.ip, some ((po.name.filter (· ≠ [])).getD (ip2str po.ip)), none⟩
  rw [addDiscoveredNode, addHostEntryToNetPage, absent, if_neg Bool.false_ne_true]
  rw [pageObjectDisplay_new] at again ⊢
  have shown := pageObjectDisplay_osData
    ⟨po.ip, if po.Nameless then none else po.name, none⟩ osData
  rw [again] at shown
  simp only [onHost, if_true, Option.or_none]
  exact congrArg (· :: np) shown

/-! ### The loop over the hosts -/

/-- The keys with the number `j` are those of a host. -/
structure Stored (c : Section) (j : Nat) (po : PageObject) : Prop where
  ip : getString c (.host j .ip) = some (ip2str po.ip)
  name : (getString c (.host j .name)).filter (· ≠ []) = po.name.filter (· ≠ [])
  osName : getString c (.host j .osName) = po.os
  ports : ∀ turns, po.ports.length < turns →
    readPorts c j turns 0 = some (if po.os.isSome then po.ports else [])

theorem str2ip_ip2str (ip : BitVec 32) : str2ip (ip2str ip) = some ip := by
  rw [str2ip, inetAton_ip2str, Option.map_some, BitVec.ofNat_toNat, BitVec.setWidth_eq]

/-- Each host is put in front of those before it. -/
theorem readHosts_eq {hosts : List PageObject} {turns portTurns : Nat}
    (stored : ∀ i po, hosts[i]? = some po → Stored c (j + i) po)
    (ended : getString c (.host (j + hosts.length) .ip) = none) (enough : hosts.length < turns)
    (enoughPorts : ∀ po ∈ hosts, po.ports.length < portTurns)
    (distinct : (hosts.map (·.ip)).Nodup) (fresh : ∀ po ∈ hosts, ∀ q ∈ np, q.ip ≠ po.ip) :
    readHosts c portTurns turns j np = some ((hosts.map (·.restored)).reverse ++ np) := by
  induction hosts generalizing j turns np with
  | nil =>
    obtain ⟨turns, rfl⟩ := Nat.exists_eq_add_one_of_ne_zero (Nat.ne_zero_of_lt enough)
    rw [readHosts, show getString c (.host j .ip) = none from ended]
    rfl
  | cons po hosts ih =>
    obtain ⟨turns, rfl⟩ := Nat.exists_eq_add_one_of_ne_zero (Nat.ne_zero_of_lt enough)
    obtain ⟨ip, name, osName, ports⟩ := stored 0 po rfl
    obtain ⟨apart, distinct⟩ := List.nodup_cons.mp distinct
    obtain ⟨few, enoughPorts⟩ := List.forall_mem_cons.mp enoughPorts
    obtain ⟨here, fresh⟩ := List.forall_mem_cons.mp fresh
    have nonempty : ip2str po.ip ≠ [] := by
      intro empty
      have read := inetAton_ip2str po.ip
      rw [empty] at read
      cases read
    rw [Nat.add_zero] at ip name osName ports
    have later (i : Nat) (po : PageObject) (at_ : hosts[i]? = some po) :
        Stored c (j + 1 + i) po := by
      rw [Nat.add_assoc, Nat.add_comm 1 i]
      exact stored (i + 1) po at_
    have others : ∀ po' ∈ hosts, ∀ q ∈ po.restored :: np, q.ip ≠ po'.ip := fun po' member =>
      List.forall_mem_cons.mpr
        ⟨fun same => apart (List.mem_map.mpr ⟨po', member, same.symm⟩), fresh po' member⟩
    rw [List.length_cons, Nat.add_comm hosts.length 1, ← Nat.add_assoc] at ended
    have rest := ih later ended (Nat.lt_of_succ_lt_succ enough) enoughPorts distinct others
    have read := str2ip_ip2str po.ip
    rw [readHosts, ip]
    generalize ip2str po.ip = text at nonempty read
    cases text with
    | nil => exact absurd rfl nonempty
    | cons digit text =>
      simp only [ports portTurns few, read, name, osName, bind, Option.bind_some]
      rw [addDiscoveredNode_new here]
      refine rest.trans ?_
      simp

end Reading

/-! ## What has been written comes back -/

section RoundTrip

variable {nullIsEmpty : Bool} {np : NetPage} {j : Nat} {po : PageObject}

theorem writeConfigFile_stored (at_ : np.pageObjects[j]? = some po) :
    Stored (writeConfigFile nullIsEmpty np) j po := by
  have host (f : HostField) : getString (writeConfigFile nullIsEmpty np) (.host j f) =
      po.value nullIsEmpty f := by
    rw [getString, writeConfigFile_key (.host j f) rfl, at_]
    exact writeHost_host f
  have port (k : Nat) (f : PortField) : writeConfigFile nullIsEmpty np (Key.port j k f).text =
      if po.os.isSome then po.ports[k]?.bind (·.value f) else none := by
    rw [writeConfigFile_key (.port j k f) rfl, at_]
    exact writeHost_port f
  constructor
  case ip => exact host .ip
  case name =>
    rw [host .name, PageObject.value]
    rcases po.name with _ | name
    · cases nullIsEmpty <;> rfl
    · rfl
  case osName => exact host .osName
  case ports =>
    intro turns enough
    by_cases named : po.os.isSome
    case pos =>
      rw [if_pos named]
      refine readPorts_eq (fun i f => ?_) enough
      rw [Nat.zero_add, port, if_pos named]
    case neg =>
      rw [if_neg named]
      refine readPorts_eq (fun i f => ?_) (Nat.zero_lt_of_lt enough)
      rw [Nat.zero_add, port, if_neg named]
      rfl

/-- The hosts come back in the opposite order. -/
theorem readConfigFile_eq (nullIsEmpty : Bool) (np : NetPage) :
    ∃ n, ∀ turns, n ≤ turns → readConfigFile turns (writeConfigFile nullIsEmpty np) =
      some (np.pageObjects.map (·.restored)).reverse := by
  refine ⟨np.pageObjects.length + (np.pageObjects.map (·.ports.length)).sum + 1,
    fun turns enough => ?_⟩
  have stored (i : Nat) (po : PageObject) (at_ : np.pageObjects[i]? = some po) :
      Stored (writeConfigFile nullIsEmpty np) (0 + i) po := by
    rw [Nat.zero_add]
    exact writeConfigFile_stored at_
  have ended : getString (writeConfigFile nullIsEmpty np)
      (.host (0 + np.pageObjects.length) .ip) = none := by
    rw [getString, writeConfigFile_key _ rfl, Nat.zero_add, List.getElem?_length]
  have enoughPorts : ∀ po ∈ np.pageObjects, po.ports.length < turns := by
    intro po member
    have le : po.ports.length ≤ (np.pageObjects.map (·.ports.length)).sum :=
      List.le_sum_of_mem (List.mem_map_of_mem member)
    omega
  have few : np.pageObjects.length < turns := by omega
  have fresh : ∀ po ∈ np.pageObjects, ∀ q ∈ ([] : List PageObject), q.ip ≠ po.ip :=
    fun po _ q none => by cases none
  have read := readHosts_eq stored ended few enoughPorts np.distinct fresh
  rw [List.append_nil] at read
  exact read

end RoundTrip

/-- A page that has been written is read, and each host comes back with its address, its system and
    the ports that were found with it; its name comes back unless it is its address.  The uptime is
    forgotten. -/
theorem hosts_restored (nullIsEmpty : Bool) (np : NetPage) :
    ∃ n read, (∀ turns, n ≤ turns →
        readConfigFile turns (writeConfigFile nullIsEmpty np) = some read) ∧
      List.Forall₂ Restored np.pageObjects read.reverse := by
  obtain ⟨n, read⟩ := readConfigFile_eq nullIsEmpty np
  refine ⟨n, _, read, ?_⟩
  rw [List.reverse_reverse, List.forall₂_map_right_iff, List.forall₂_same]
  exact fun po _ => po.restored_spec

def Same (po po' : PageObject) : Prop :=
  po'.ip = po.ip ∧ po'.name = po.name ∧ po'.os = po.os ∧ po'.uptimeSeconds = po.uptimeSeconds ∧
    po'.uptimeLastBoot = po.uptimeLastBoot ∧ po'.ports = po.ports

instance (po po' : PageObject) : Decidable (Same po po') := inferInstanceAs (Decidable (_ ∧ _))

/-- A host that has been up for a minute, one whose name is its address, and one with an empty
    name. -/
def threeHosts : NetPage where
  pageObjects := [
    ⟨0x0a000001, some (text "gate"), some ⟨some (text "Linux"), [], 60, none⟩⟩,
    ⟨0x0a000002, some (text "10.0.0.2"), none⟩, ⟨0x0a000003, some [], none⟩]
  distinct := by decide

theorem uptime_forgotten :
    ∃ n read, (∀ turns, n ≤ turns → readConfigFile turns (writeConfigFile true threeHosts) =
        some read) ∧
      read.map (·.name) = [none, none, some (text "gate")] ∧
      read.map (·.uptimeSeconds) = [0, 0, 0] ∧
      ∀ po ∈ threeHosts.pageObjects, ¬ ∃ po' ∈ read, Same po po' := by
  obtain ⟨n, read⟩ := readConfigFile_eq true threeHosts
  exact ⟨n, _, read, by decide, by decide, by decide⟩

end Cheops.Gui.Config
