import Cheops.Fields.Basic
import Cheops.Lib.Segment
import Cheops.Lib.Wire

/-! # Versions of services (`gui-handlers.c`)

`handle_probe_reply` writes the version that a probe has found into the entry of a port, or puts a
new entry into the list of the host, which is to be sorted by port.  The entries are records in
memory; `Follows` says what the reply should do to the list.

Behind an entry that comes first, the link to the new entry is written over the new entry itself,
so that the list stays as it is.  `handleProbeReply_iff` says when the reply does what it should.
-/

namespace Cheops.Gui

open Cheops.Lib

/-! ## Port entries -/

/-- `os_port_entry`.  A string is named by its bytes. -/
structure OsPortEntry where
  next : Option Nat
  port : Int
  protocol : Int
  name : Option (List UInt8)
  version : Option (List UInt8)
  owner : Option (List UInt8)
  state : Nat
  rpcnum : Nat
  rpclowver : Nat
  rpchighver : Nat
  proto : Nat
deriving DecidableEq, Repr

/-- `os_stats`; `ports` points to the first entry. -/
structure OsStats where
  os : Option (List UInt8)
  ports : Option Nat
  uptimeSeconds : Nat
  uptimeLastBoot : Option (List UInt8)
deriving DecidableEq, Repr

/-- The `os_data` of the hosts, and the port entries that are allocated. -/
@[ext] structure Ports where
  osData : Nat → Option OsStats
  heap : Nat → Option OsPortEntry

def OsPortEntry.zero : OsPortEntry where
  next := none
  port := 0
  protocol := 0
  name := none
  version := none
  owner := none
  state := 0
  rpcnum := 0
  rpclowver := 0
  rpchighver := 0
  proto := 0

/-- `os_port->version = strdup(version)`. -/
def OsPortEntry.setVersion (version : List UInt8) (entry : OsPortEntry) : OsPortEntry :=
  { entry with version := some version }

/-! ## `handle_probe_reply` -/

/-- The loop that writes the version into the entries of the port, from `os_port` on, and whether
    it finds one.  It fails if it reads what is not allocated, or is longer than `fuel`. -/
def writeVersion (port : Int) (version : List UInt8) : Nat → Option Nat →
    (Nat → Option OsPortEntry) → Option ((Nat → Option OsPortEntry) × Bool)
  | _, none, heap => some (heap, false)
  | 0, some _, _ => none
  | fuel + 1, some osPort, heap => do
    let entry ← heap osPort
    if entry.port = port then
      let heap := Function.update heap osPort (some (entry.setVersion version))
      let (heap, _) ← writeVersion port version fuel entry.next heap
      some (heap, true)
    else writeVersion port version fuel entry.next heap

def findPrev (port : Int) (heap : Nat → Option OsPortEntry) :
    Nat → Option Nat → Option Nat → Option (Option Nat)
  | _, prev, none => some prev
  | 0, _, some _ => none
  | fuel + 1, prev, some osPort => do
    let entry ← heap osPort
    if entry.port > port then some prev else findPrev port heap fuel (some osPort) entry.next

/-- What is done when no entry has the port.  `service` is what `getservbyport` finds, and `block`
    what `malloc` returns. -/
def insertPort (fuel : Nat) (service : Option (List UInt8)) (block : Nat) (port : Int)
    (version : List UInt8) (po : Nat) (data : OsStats) (p : Ports) : Option Ports := do
  let prev ← findPrev port p.heap fuel none data.ports
  match service with
  | none => some p
  | some name =>
    let newOs := { OsPortEntry.zero with
      port, protocol := 6, version := some version, name := some name }
    match prev with
    | some prev =>
      let heap := Function.update p.heap block (some newOs)
      let entry ← heap prev
      -- `new_os` is lost here: it becomes what `prev` already points to
      let newOs := entry.next
      some { p with heap := Function.update heap prev (some { entry with next := newOs }) }
    | none =>
      some {
        osData := Function.update p.osData po (some { data with ports := some block })
        heap := Function.update p.heap block (some { newOs with next := data.ports }) }

def OsStats.unknown : OsStats where
  os := some (text "unknown")
  ports := none
  uptimeSeconds := 0
  uptimeLastBoot := none

def probed (fuel : Nat) (service : Option (List UInt8)) (block : Nat) (port : Int)
    (version : List UInt8) (po : Nat) (p : Ports) : Option Ports :=
  match p.osData po with
  | some data => do
    let (heap, found) ← writeVersion port version fuel data.ports p.heap
    let p := { p with heap }
    if found then some p else insertPort fuel service block port version po data p
  | none =>
    let p := { p with osData := Function.update p.osData po (some .unknown) }
    insertPort fuel service block port version po .unknown p

/-- `handle_probe_reply` on a host of byte order `o`.  `getByIp` is `page_object_get_by_ip`, and
    `getservbyport` gives the name of a service. -/
def handleProbeReply (o : ByteOrder) (getByIp : List UInt8 → Nat → Option Nat)
    (getservbyport : Nat → Option (List UInt8)) (fuel block : Nat) (e : Mem) (p : Ports) :
    Option Ports :=
  let (ip, port) := Fields.handleProbeReply o e
  match getByIp (slice e 8 8) ip with
  | some po => probed fuel (getservbyport port) block port (cstring e 16) po p
  | none => some p

/-! ## What a reply should do -/

def Ports.Listed (p : Ports) (po : Nat) (entries : List Nat) : Prop :=
  Seg p.heap OsPortEntry.next ((p.osData po).bind OsStats.ports) entries none

def Ports.ports (p : Ports) (entries : List Nat) : List Int :=
  entries.filterMap fun a => (p.heap a).map OsPortEntry.port

/-- The entry is the same but for its place in the list and, if it is of the port, its version. -/
def OsPortEntry.Same (port : Int) (entry entry' : OsPortEntry) : Prop :=
  entry' = { entry with next := entry'.next, version := entry'.version } ∧
    (entry.port ≠ port → entry'.version = entry.version)

/-- The list of the host is still there, and has the version of the port. -/
structure Follows (port : Int) (version : List UInt8) (po : Nat) (entries : List Nat)
    (p p' : Ports) (entries' : List Nat) : Prop where
  listed : p'.Listed po entries'
  once : entries'.Nodup
  /-- The old entries are in the list, in the same order. -/
  order : entries.Sublist entries'
  same : ∀ a ∈ entries, ∃ entry entry', p.heap a = some entry ∧ p'.heap a = some entry' ∧
    entry.Same port entry'
  found : ∃ a ∈ entries', ∃ entry, p'.heap a = some entry ∧ entry.port = port ∧
    entry.version = some version
  sorted : (p.ports entries).Pairwise (· ≤ ·) → (p'.ports entries').Pairwise (· ≤ ·)

/-- The port is in the list, or its place is at the front. -/
def Placed (port : Int) (ports : List Int) : Prop :=
  port ∈ ports ∨ ∀ first ∈ ports.head?, port < first

instance (port : Int) (ports : List Int) : Decidable (Placed port ports) :=
  inferInstanceAs (Decidable (_ ∨ _))

/-! ## The loops -/

section Loops

variable {port : Int} {version : List UInt8} {fuel : Nat} {osPort prev : Option Nat}
  {heap : Nat → Option OsPortEntry} {entries : List Nat}

/-- The version is written into the entries of the port, and nothing else changes. -/
theorem writeVersion_spec (port : Int) (version : List UInt8)
    (seg : Seg heap OsPortEntry.next osPort entries none) (enough : entries.length ≤ fuel) :
    ∃ heap' found, writeVersion port version fuel osPort heap = some (heap', found) ∧
      (∀ a, a ∉ entries → heap' a = heap a) ∧
      (∀ a ∈ entries, ∀ entry, heap a = some entry →
        heap' a = some (if entry.port = port then entry.setVersion version else entry)) ∧
      (found = true ↔ ∃ a ∈ entries, ∃ entry, heap a = some entry ∧ entry.port = port) := by
  induction entries generalizing osPort heap fuel with
  | nil =>
    obtain rfl : osPort = none := seg
    refine ⟨heap, false, by unfold writeVersion; rfl, fun _ _ => rfl, nofun, ?_⟩
    exact iff_of_false Bool.false_ne_true fun ⟨a, member, _⟩ => nomatch member
  | cons a entries ih =>
    have nodup := List.nodup_cons.mp seg.nodup
    obtain ⟨rfl, entry, allocated, rest⟩ := seg
    cases fuel with
    | zero => cases enough
    | succ fuel =>
      have enough := Nat.le_of_succ_le_succ enough
      by_cases here : entry.port = port
      case pos =>
        have kept {b : Nat} (other : b ≠ a) : Function.update heap a
            (some (entry.setVersion version)) b = heap b :=
          Function.update_of_ne other ..
        have apart : ∀ b ∈ entries, b ≠ a := fun b member same => nodup.1 (same ▸ member)
        obtain ⟨heap', found, run, frame, written, -⟩ := ih (rest.update nodup.1 _) enough
        refine ⟨heap', true, ?_, ?_, ?_, ?_⟩
        · unfold writeVersion
          simp only [allocated, Option.bind_eq_bind, Option.bind_some]
          rw [if_pos here, run]
          rfl
        · intro b outside
          rw [List.mem_cons, not_or] at outside
          rw [frame b outside.2, kept outside.1]
        · intro b member c allocated'
          rcases List.mem_cons.mp member with rfl | member
          · cases allocated.symm.trans allocated'
            rw [frame b nodup.1, Function.update_self, if_pos here]
          · exact written b member c ((kept (apart b member)).trans allocated')
        · exact iff_of_true rfl ⟨a, List.mem_cons_self, entry, allocated, here⟩
      case neg =>
        obtain ⟨heap', found, run, frame, written, sound⟩ := ih rest enough
        refine ⟨heap', found, ?_, ?_, ?_, ?_⟩
        · unfold writeVersion
          simp only [allocated, Option.bind_eq_bind, Option.bind_some]
          rw [if_neg here, run]
        · intro b outside
          exact frame b fun member => outside (List.mem_cons_of_mem a member)
        · intro b member c allocated'
          rcases List.mem_cons.mp member with rfl | member
          · cases allocated.symm.trans allocated'
            rw [frame b nodup.1, allocated, if_neg here]
          · exact written b member c allocated'
        · rw [sound]
          constructor
          · rintro ⟨b, member, found⟩
            exact ⟨b, List.mem_cons_of_mem a member, found⟩
          · rintro ⟨b, member, c, allocated', same⟩
            rcases List.mem_cons.mp member with rfl | member
            · cases allocated.symm.trans allocated'
              exact absurd same here
            · exact ⟨b, member, c, allocated', same⟩

/-- Behind an entry the loop finds one to insert after. -/
theorem findPrev_some (port : Int) (q : Nat)
    (seg : Seg heap OsPortEntry.next osPort entries none) (enough : entries.length ≤ fuel) :
    ∃ r ∈ q :: entries, findPrev port heap fuel (some q) osPort = some (some r) := by
  induction entries generalizing osPort fuel q with
  | nil =>
    obtain rfl : osPort = none := seg
    exact ⟨q, List.mem_cons_self, by unfold findPrev; rfl⟩
  | cons a entries ih =>
    obtain ⟨rfl, entry, allocated, rest⟩ := seg
    cases fuel with
    | zero => cases enough
    | succ fuel =>
      unfold findPrev
      simp only [allocated, Option.bind_eq_bind, Option.bind_some]
      by_cases bigger : entry.port > port
      case pos => exact ⟨q, List.mem_cons_self, if_pos bigger⟩
      case neg =>
        obtain ⟨r, member, run⟩ := ih (q := a) rest (Nat.le_of_succ_le_succ enough)
        exact ⟨r, List.mem_cons_of_mem q member, (if_neg bigger).trans run⟩

/-- Nothing comes before the place of the port exactly if no first entry has a port up to it. -/
theorem findPrev_spec (port : Int)
    (seg : Seg heap OsPortEntry.next osPort entries none) (enough : entries.length ≤ fuel) :
    ∃ prev, findPrev port heap fuel none osPort = some prev ∧ (∀ q ∈ prev, q ∈ entries) ∧
      (prev = none ↔ ∀ a ∈ entries.head?, ∀ entry, heap a = some entry → port < entry.port) := by
  cases entries with
  | nil =>
    obtain rfl : osPort = none := seg
    exact ⟨none, by unfold findPrev; rfl, nofun, iff_of_true rfl nofun⟩
  | cons a entries =>
    obtain ⟨rfl, entry, allocated, rest⟩ := seg
    cases fuel with
    | zero => cases enough
    | succ fuel =>
      unfold findPrev
      simp only [allocated, Option.bind_eq_bind, Option.bind_some, List.head?_cons,
        Option.mem_some_iff]
      by_cases bigger : entry.port > port
      case pos =>
        refine ⟨none, if_pos bigger, nofun, iff_of_true rfl ?_⟩
        rintro b rfl c allocated'
        cases allocated.symm.trans allocated'
        exact bigger
      case neg =>
        obtain ⟨r, member, run⟩ := findPrev_some port a rest
          (Nat.le_of_succ_le_succ enough)
        refine ⟨some r, (if_neg bigger).trans run, ?_, iff_of_false nofun ?_⟩
        · rintro q ⟨rfl⟩
          exact member
        · intro first
          exact bigger (first a rfl entry allocated)

end Loops

/-! ## The reply -/

section Reply

variable {p : Ports} {po fuel block : Nat} {port : Int} {version : List UInt8}
  {entries : List Nat}

theorem mem_ports {x : Int} :
    x ∈ p.ports entries ↔ ∃ a ∈ entries, ∃ entry, p.heap a = some entry ∧ entry.port = x := by
  simp [Ports.ports]

/-- The first port is the one of the first entry. -/
theorem front_iff (allocated : ∀ a ∈ entries, ∃ entry, p.heap a = some entry) :
    (∀ first ∈ (p.ports entries).head?, port < first) ↔
      ∀ a ∈ entries.head?, ∀ entry, p.heap a = some entry → port < entry.port := by
  cases entries with
  | nil => simp [Ports.ports]
  | cons a entries =>
    obtain ⟨entry, here⟩ := allocated a List.mem_cons_self
    simp [Ports.ports, here]

/-- The ports depend on the entries alone. -/
theorem ports_congr {p' : Ports}
    (same : ∀ a ∈ entries, (p'.heap a).map OsPortEntry.port = (p.heap a).map OsPortEntry.port) :
    p'.ports entries = p.ports entries := by
  unfold Ports.ports
  induction entries with
  | nil => rfl
  | cons a entries ih =>
    rw [List.filterMap_cons, List.filterMap_cons, same a List.mem_cons_self,
      ih fun b member => same b (List.mem_cons_of_mem a member)]

/-- A port that is smaller than the first is smaller than all of a sorted list. -/
theorem pairwise_cons_of_head {x : Int} {xs : List Int} (sorted : xs.Pairwise (· ≤ ·))
    (front : ∀ first ∈ xs.head?, x < first) : (x :: xs).Pairwise (· ≤ ·) := by
  refine List.pairwise_cons.mpr ⟨?_, sorted⟩
  cases xs with
  | nil => exact nofun
  | cons y ys =>
    have first := front y rfl
    intro z member
    rcases List.mem_cons.mp member with rfl | member
    · omega
    · have le := (List.pairwise_cons.mp sorted).1 z member
      omega

def newOs (port : Int) (version name : List UInt8) (next : Option Nat) : OsPortEntry :=
  { OsPortEntry.zero with
    port, protocol := 6, version := some version, name := some name, next }

/-- No entry has the port: the new one comes first, or it is lost. -/
theorem insertPort_spec (po : Nat) (port : Int) (version name : List UInt8) (data : OsStats)
    (seg : Seg p.heap OsPortEntry.next data.ports entries none) (enough : entries.length ≤ fuel)
    (fresh : p.heap block = none) :
    ((∀ first ∈ (p.ports entries).head?, port < first) ∧
      insertPort fuel (some name) block port version po data p = some {
        osData := Function.update p.osData po (some { data with ports := some block })
        heap := Function.update p.heap block (some (newOs port version name data.ports)) }) ∨
    ((¬ ∀ first ∈ (p.ports entries).head?, port < first) ∧
      insertPort fuel (some name) block port version po data p = some { p with
        heap := Function.update p.heap block (some (newOs port version name none)) }) := by
  have allocated := seg.allocated
  obtain ⟨prev, run, inside, front⟩ := findPrev_spec port seg enough
  rw [front_iff allocated, ← front]
  unfold insertPort
  rw [run]
  cases prev with
  | none => exact .inl ⟨rfl, rfl⟩
  -- behind another entry: nothing that is in the list leads to the new one
  | some q =>
    refine .inr ⟨nofun, ?_⟩
    obtain ⟨entry, here⟩ := allocated q (inside q rfl)
    have other : q ≠ block := by
      rintro rfl
      rw [fresh] at here
      cases here
    have read : Function.update p.heap block (some (newOs port version name none)) q =
        some entry := by
      rw [Function.update_of_ne other, here]
    -- what is written to the entry before is what it has already
    have idle : Function.update (Function.update p.heap block (some (newOs port version name none)))
        q (some entry) = Function.update p.heap block (some (newOs port version name none)) :=
      Function.update_eq_self_iff.mpr read.symm
    simp only [Option.bind_eq_bind, Option.bind_some]
    change (Function.update p.heap block (some (newOs port version name none)) q).bind _ = _
    rw [read, Option.bind_some]
    exact congrArg (fun heap => some { p with heap }) idle

/-- The entry in front of the old ones. -/
theorem follows_front {p' : Ports} {data : OsStats} {name : List UInt8}
    (listed : p.Listed po entries) (fresh : p.heap block = none)
    (ports : data.ports = (p.osData po).bind OsStats.ports)
    (heap : p'.heap = Function.update p.heap block (some (newOs port version name data.ports)))
    (osData : p'.osData po = some { data with ports := some block })
    (front : ∀ first ∈ (p.ports entries).head?, port < first) :
    Follows port version po entries p p' (block :: entries) := by
  have absent : block ∉ entries := listed.fresh fresh
  have kept : ∀ a ∈ entries, p'.heap a = p.heap a := by
    intro a member
    rw [heap, Function.update_of_ne (ne_of_mem_of_not_mem member absent)]
  have new : p'.heap block = some (newOs port version name data.ports) := by
    rw [heap, Function.update_self]
  constructor
  case listed =>
    unfold Ports.Listed
    rw [osData]
    refine ⟨rfl, _, new, ?_⟩
    change Seg p'.heap OsPortEntry.next data.ports entries none
    rw [ports, heap]
    exact listed.update absent _
  case once => exact List.nodup_cons.mpr ⟨absent, listed.nodup⟩
  case order => exact List.sublist_cons_self block entries
  case same =>
    intro a member
    obtain ⟨entry, allocated⟩ := listed.allocated a member
    exact ⟨entry, entry, allocated, (kept a member).trans allocated, rfl, fun _ => rfl⟩
  case found => exact ⟨block, List.mem_cons_self, _, new, rfl, rfl⟩
  case sorted =>
    intro sorted
    have rest : p'.ports entries = p.ports entries :=
      ports_congr fun a member => by rw [kept a member]
    have all : p'.ports (block :: entries) = port :: p.ports entries := by
      rw [← rest, Ports.ports, List.filterMap_cons, new]
      rfl
    rw [all]
    exact pairwise_cons_of_head sorted front

/-- The entries that have the port are given the version. -/
theorem follows_written {heap' : Nat → Option OsPortEntry} (listed : p.Listed po entries)
    (written : ∀ a ∈ entries, ∀ entry, p.heap a = some entry →
      heap' a = some (if entry.port = port then entry.setVersion version else entry))
    (found : ∃ a ∈ entries, ∃ entry, p.heap a = some entry ∧ entry.port = port) :
    Follows port version po entries p { p with heap := heap' } entries := by
  constructor
  case listed =>
    refine listed.congr fun a member entry allocated => ⟨_, written a member entry allocated, ?_⟩
    split <;> rfl
  case once => exact listed.nodup
  case order => exact .refl entries
  case same =>
    intro a member
    obtain ⟨entry, allocated⟩ := listed.allocated a member
    refine ⟨entry, _, allocated, written a member entry allocated, ?_, fun other => ?_⟩
    · split <;> rfl
    · rw [if_neg other]
  case found =>
    obtain ⟨a, member, entry, allocated, same⟩ := found
    refine ⟨a, member, _, written a member entry allocated, ?_⟩
    rw [if_pos same]
    exact ⟨same, rfl⟩
  case sorted =>
    intro sorted
    have same : ({ p with heap := heap' } : Ports).ports entries = p.ports entries := by
      apply ports_congr
      intro a member
      obtain ⟨entry, allocated⟩ := listed.allocated a member
      rw [show ({ p with heap := heap' } : Ports).heap a = _ from written a member entry allocated,
        allocated]
      simp only [Option.map_some, Option.some.injEq]
      split <;> rfl
    rwa [same]

/-- Where nothing is put into the list and no entry has the port, the version is lost. -/
theorem not_follows {entry : OsPortEntry} (listed : p.Listed po entries)
    (fresh : p.heap block = none) (missing : port ∉ p.ports entries) (entries' : List Nat) :
    ¬ Follows port version po entries p
      { p with heap := Function.update p.heap block (some entry) } entries' := by
  intro follows
  have kept : ∀ a ∈ entries, Function.update p.heap block (some entry) a = p.heap a := by
    intro a member
    refine Function.update_of_ne ?_ ..
    rintro rfl
    obtain ⟨entry, allocated⟩ := listed.allocated a member
    rw [fresh] at allocated
    cases allocated
  have same : entries' = entries := by
    refine follows.listed.unique ?_
    exact listed.congr fun a member entry allocated =>
      ⟨entry, (kept a member).trans allocated, rfl⟩
  subst same
  obtain ⟨a, member, found, allocated, here, -⟩ := follows.found
  exact missing (mem_ports.mpr ⟨a, member, found, (kept a member).symm.trans allocated, here⟩)

/-- The host that is found gets the version exactly if the port is placed. -/
theorem probed_iff {name : List UInt8} (listed : p.Listed po entries)
    (enough : entries.length ≤ fuel) (fresh : p.heap block = none) :
    ∃ p', probed fuel (some name) block port version po p = some p' ∧
      ((∃ entries', Follows port version po entries p p' entries') ↔
        Placed port (p.ports entries)) := by
  have seg := listed
  unfold Ports.Listed at seg
  unfold probed
  cases data : p.osData po with
  | none =>
    rw [data] at seg
    obtain rfl := seg.nil_of_none.1
    obtain ⟨front, run⟩ | ⟨behind, -⟩ := insertPort_spec po port version name .unknown
      (p := { p with osData := Function.update p.osData po (some .unknown) })
      (show Seg _ _ _ [] none from rfl) enough fresh
    · refine ⟨_, run, iff_of_true ⟨_, follows_front listed fresh ?_ rfl ?_ front⟩ (.inr front)⟩
      · rw [data]
        rfl
      · exact Function.update_self ..
    · exact absurd nofun behind
  | some data' =>
    rw [data, Option.bind_some] at seg
    obtain ⟨heap', found, run, frame, written, sound⟩ :=
      writeVersion_spec port version seg enough
    simp only [run, Option.bind_eq_bind, Option.bind_some]
    cases found with
    | true =>
      have found := sound.mp rfl
      exact ⟨_, rfl, iff_of_true ⟨entries, follows_written listed written found⟩
        (.inl (mem_ports.mpr found))⟩
    | false =>
      have missing : port ∉ p.ports entries := by
        intro member
        exact Bool.false_ne_true (sound.mpr (mem_ports.mp member))
      have same : heap' = p.heap := by
        funext a
        by_cases member : a ∈ entries
        case neg => exact frame a member
        case pos =>
          obtain ⟨entry, allocated⟩ := listed.allocated a member
          have other : ¬ entry.port = port := fun here =>
            missing (mem_ports.mpr ⟨a, member, entry, allocated, here⟩)
          rw [written a member entry allocated, if_neg other, allocated]
      subst same
      rw [if_neg Bool.false_ne_true]
      obtain ⟨front, run⟩ | ⟨behind, run⟩ := insertPort_spec po port version name data' seg
        enough fresh
      · refine ⟨_, run, iff_of_true ⟨_, follows_front listed fresh ?_ rfl ?_ front⟩ (.inr front)⟩
        · rw [data]
          rfl
        · exact Function.update_self ..
      · refine ⟨_, run, iff_of_false ?_ ?_⟩
        · rintro ⟨entries', follows⟩
          exact not_follows listed fresh missing entries' follows
        · rintro (member | front)
          · exact missing member
          · exact behind front

end Reply

/-! ## The handler -/

theorem handleProbeReply_eq {o : ByteOrder} {getByIp : List UInt8 → Nat → Option Nat}
    {getservbyport : Nat → Option (List UInt8)} {fuel block po : Nat} {e : Mem} {p : Ports}
    (host : getByIp (slice e 8 8) (Fields.handleProbeReply o e).1 = some po) :
    handleProbeReply o getByIp getservbyport fuel block e p =
      probed fuel (getservbyport (Fields.handleProbeReply o e).2) block
        (Fields.handleProbeReply o e).2 (cstring e 16) po p := by
  unfold handleProbeReply
  dsimp only
  rw [host]

/-- A reply about a service that is known puts the version into the list of the host that it is
    about, and keeps the list, if and only if the port is placed. -/
theorem handleProbeReply_iff {o : ByteOrder} {getByIp : List UInt8 → Nat → Option Nat}
    {getservbyport : Nat → Option (List UInt8)} {fuel block po : Nat} {e : Mem} {p : Ports}
    {entries : List Nat} (host : getByIp (slice e 8 8) (Fields.handleProbeReply o e).1 = some po)
    (known : getservbyport (Fields.handleProbeReply o e).2 ≠ none) (listed : p.Listed po entries)
    (enough : entries.length ≤ fuel) (fresh : p.heap block = none) :
    let port := (Fields.handleProbeReply o e).2
    ∃ p', handleProbeReply o getByIp getservbyport fuel block e p = some p' ∧
      ((∃ entries', Follows port (cstring e 16) po entries p p' entries') ↔
        Placed port (p.ports entries)) := by
  obtain ⟨name, service⟩ := Option.ne_none_iff_exists'.mp known
  dsimp only
  rw [handleProbeReply_eq host, service]
  exact probed_iff listed enough fresh

def sshOnly : Ports where
  osData _ := some { OsStats.unknown with ports := some 1 }
  heap a := if a = 1 then some { OsPortEntry.zero with port := 22 } else none

theorem sshOnly_listed : sshOnly.Listed 7 [1] := ⟨rfl, _, rfl, rfl⟩

def versionReply (port : Nat) : Mem :=
  Fields.myProbeCallback .little 0x7f000001 port (text "5") (List.replicate 8 0) fun _ => 0

def theHost (_ : List UInt8) (_ : Nat) : Option Nat := some 7
def anyService (_ : Nat) : Option (List UInt8) := some (text "service")

def threePorts : Ports where
  osData _ := some { OsStats.unknown with ports := some 1 }
  heap
    | 1 => some { OsPortEntry.zero with port := 22, next := some 3 }
    | 3 => some { OsPortEntry.zero with port := 80, next := some 4 }
    | 4 => some { OsPortEntry.zero with port := 443 }
    | _ => none

/-- The version of what listens at port 21 is put in front. -/
theorem handleProbeReply_iff_front :
    ∃ p', handleProbeReply .little theHost anyService 3 2 (versionReply 21) threePorts = some p' ∧
      ∃ entries', Follows ((Fields.handleProbeReply .little (versionReply 21)).2 : Nat)
        (cstring (versionReply 21) 16) 7 [1, 3, 4] threePorts p' entries' := by
  have listed : threePorts.Listed 7 [1, 3, 4] := ⟨rfl, _, rfl, rfl, _, rfl, rfl, _, rfl, rfl⟩
  obtain ⟨p', run, iff⟩ := @handleProbeReply_iff .little theHost anyService 3 2 7 (versionReply 21)
    threePorts [1, 3, 4] rfl nofun listed le_rfl rfl
  exact ⟨p', run, iff.mpr (by decide)⟩

/-- The version of what listens at port 80 is lost. -/
theorem handleProbeReply_loses_version :
    Fields.handleProbeReply .little (versionReply 80) = (0x7f000001, 80) ∧
      cstring (versionReply 80) 16 = text "5" ∧
      ∃ p', handleProbeReply .little theHost anyService 1 2 (versionReply 80) sshOnly = some p' ∧
        ¬ ∃ entries', Follows 80 (text "5") 7 [1] sshOnly p' entries' := by
  have read : Fields.handleProbeReply .little (versionReply 80) = (0x7f000001, 80) := by decide
  have version : cstring (versionReply 80) 16 = text "5" := by decide
  refine ⟨read, version, ?_⟩
  obtain ⟨p', run, iff⟩ : ∃ p', probed 1 (some (text "service")) 2 80 (text "5") 7 sshOnly =
      some p' ∧ ((∃ entries', Follows 80 (text "5") 7 [1] sshOnly p' entries') ↔
        Placed 80 (sshOnly.ports [1])) :=
    probed_iff sshOnly_listed (Nat.le_refl _) rfl
  refine ⟨p', ?_, iff.not.mpr (by decide)⟩
  rw [handleProbeReply_eq rfl, read, version]
  exact run

end Cheops.Gui
