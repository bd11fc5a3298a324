import Cheops.Canvas.Remove
import Cheops.Lib.Numerals
import Cheops.Lib.Run
import Cheops.OsScan.Arrival

/-! # Reverse lookups (`gui-dns.c`, `gui-handlers.c`)

`add_discovered_node` asks for the name of a host that it has none for.  The query keeps the
address of the host's record until the answer is there, and `reverse_lookup_cb` writes the name to
that address.  While a query waits, and in the main loops that the lookup routines run themselves,
anything may happen: hosts are discovered and deleted, pages removed, other answers arrive.

`lookups_safe` says that all goes well as long as no host is freed that a query waits for.
-/

namespace Cheops.Gui

open Cheops.Lib Cheops.OsScan
open Cheops.Canvas (NetPage PageObject pageObjectDelete netPageRemove)

/-! ## The state -/

/-- What the lookups read and write of a `page_object`.  The ghost `serial` numbers the records
    that `page_object_new` has returned. -/
structure Host where
  ip : Nat
  name : Option (List UInt8)
  serial : Nat
deriving DecidableEq, Repr

/-- `dns_query`, for a reverse lookup.  `serial` is that of the record at `data` when the lookup
    was started. -/
structure DnsQuery where
  ip : List UInt8
  data : Nat
  serial : Nat
deriving DecidableEq, Repr

inductive Activation where
  /-- `dns_reverse_lookup`, before it makes the query. -/
  | starting (data serial : Nat)
  /-- `dns_reverse_lookup`, after `adns_submit_reverse`. -/
  | submitted
  /-- `dns_timer`, which has found an answer; a failure has no name. -/
  | answering (q : DnsQuery) (hostname : Option (List UInt8))
deriving DecidableEq, Repr

/-- The pages and the records of their hosts that are allocated, `dns_query_list`, the calls that
    run the main loop, innermost first, and the address whose text `inet_ntoa` has written last.
    `fault` is set when memory is used that has been freed; `discovered` counts the records. -/
structure Lookups where
  pages : Nat → Option NetPage
  hosts : Nat → Option Host
  queries : List DnsQuery
  stack : List Activation
  ntoa : Nat
  discovered : Nat
  fault : Bool

def Lookups.start : Lookups :=
  { pages := fun _ => none, hosts := fun _ => none, queries := [], stack := [], ntoa := 0,
    discovered := 0, fault := false }

variable (o : ByteOrder)

/-! ## Hosts -/

/-- What `page_object_display` makes of the name: that of a host which is called by its address is
    dropped. -/
def displayedName (ip : Nat) (name : List UInt8) : Option (List UInt8) :=
  if (inetAton name).map (o.hton 4) = some ip then none else some name

/-- The loop of `add_host_entry_to_net_page`. -/
def findIp (hosts : Nat → Option Host) (ip : Nat) (pageObjects : List Nat) : Option Nat :=
  pageObjects.find? fun po => (hosts po).any (·.ip == ip)

/-- `add_host_entry_to_net_page`, for a page that exists.  The record of a new host is at `block`,
    which must not be in use. -/
def addHostEntryToNetPage (np : Nat) (page : NetPage) (ip : Nat) (name : Option (List UInt8))
    (block : Nat) (s : Lookups) : Option (Nat × Lookups) :=
  match findIp s.hosts ip page.pageObjects with
  | some po =>
    match name with
    | some name => some (po, { s with
        hosts := Function.update s.hosts po ((s.hosts po).map fun h => { h with name }) })
    | none => some (po, s)
  | none =>
    if (s.hosts block).isNone then
      let host : Host :=
        { ip, name := displayedName o ip (name.getD (ip2strOn o ip)), serial := s.discovered }
      let record : PageObject := { merge := none, mergePrimary := none, links := [] }
      some (block, { s with
        pages := Function.update s.pages np (some { page with
          pageObjects := block :: page.pageObjects
          objects := Function.update page.objects block (some record) })
        hosts := Function.update s.hosts block (some host)
        discovered := s.discovered + 1 })
    else none

/-- `add_discovered_node`, up to the first main loop of `dns_reverse_lookup`. -/
def addDiscoveredNode (np ip : Nat) (name : Option (List UInt8)) (block : Nat)
    (optionsReverseDns : Bool) (s : Lookups) : Option Lookups :=
  match s.pages np with
  | none => some s
  | some page => do
    let (po, s) ← addHostEntryToNetPage o np page ip name block s
    let host ← s.hosts po
    if name.isNone && optionsReverseDns then
      return { s with stack := .starting po host.serial :: s.stack, ntoa := ip }
    else return s

def Lookups.free (s : Lookups) (page page' : NetPage) : Lookups :=
  { s with
    hosts := fun po =>
      if po ∈ page.pageObjects ∧ po ∉ page'.pageObjects then none else s.hosts po }

/-! ## Lookups -/

def reverseLookupCb (ip hostname : List UInt8) (po : Nat) (s : Lookups) : Lookups :=
  match s.hosts po with
  | none => { s with fault := true }
  | some host =>
    -- the callback overwrites the buffer of `inet_ntoa`, too
    let s := { s with ntoa := host.ip }
    if ip2strOn o host.ip = ip then
      { s with
        hosts := Function.update s.hosts po
          (some { host with name := displayedName o host.ip hostname }) }
    else s

/-- The rest of `dns_reverse_lookup` after its first main loop.  The address is still in the buffer
    of `inet_ntoa`, or another one is by now. -/
def submitReverse (data serial : Nat) (stack : List Activation) (s : Lookups) : Lookups :=
  let ip := ip2strOn o s.ntoa
  match inetAton ip with
  | none => { s with stack }
  | some _ => { s with queries := { ip, data, serial } :: s.queries, stack := .submitted :: stack }

/-- The rest of `dns_timer` with an answer; the queries have no `timeout_cb`. -/
def dnsAnswer (q : DnsQuery) (hostname : Option (List UInt8)) (stack : List Activation)
    (s : Lookups) : Lookups :=
  let s := { s with queries := s.queries.erase q, stack }
  match hostname with
  | some hostname => reverseLookupCb o q.ip hostname q.data s
  | none => s

/-! ## The steps -/

inductive LookupAction where
  | addPage (np : Nat)
  /-- Whatever else is done to the groups and links of a page. -/
  | edit (np : Nat) (page : NetPage)
  | discover (np ip : Nat) (name : Option (List UInt8)) (block : Nat) (optionsReverseDns : Bool)
  | delete (np po : Nat) (force yes : Bool) (fuel : Nat)
  | removePage (np fuel : Nat)
  /-- Another call of `inet_ntoa`. -/
  | inetNtoa (ip : Nat)
  /-- `dns_reverse_lookup` goes on after its first main loop, and after its second. -/
  | submit
  | dnsLoop
  /-- `dns_timer` finds an answer, and goes on after its main loop. -/
  | answered (q : DnsQuery) (hostname : Option (List UInt8))
  | answer

def Activation.isAnswering : Activation → Bool
  | .answering .. => true
  | _ => false

/-- A step, in a main loop.  The calls that run one return in reverse order, and GTK does not call
    `dns_timer` while it runs. -/
def lookupStep (s : Lookups) : LookupAction → Option Lookups
  | .addPage np =>
    if (s.pages np).isNone then
      some { s with
        pages := Function.update s.pages np
          (some { pageObjects := [], objects := fun _ => none, links := fun _ => none }) }
    else none
  | .edit np page' => do
    let page ← s.pages np
    if page'.pageObjects = page.pageObjects then
      return { s with pages := Function.update s.pages np (some page') }
    else none
  | .discover np ip name block optionsReverseDns =>
    addDiscoveredNode o np ip name block optionsReverseDns s
  | .delete np po force yes fuel => do
    let page ← s.pages np
    let page' ← (pageObjectDelete fuel force yes po page).toOption
    return { s.free page page' with pages := Function.update s.pages np (some page') }
  | .removePage np fuel => do
    let page ← s.pages np
    let page' ← (netPageRemove fuel page).toOption
    return { s.free page page' with pages := Function.update s.pages np none }
  | .inetNtoa ip => some { s with ntoa := ip }
  | .submit =>
    match s.stack with
    | .starting data serial :: stack => some (submitReverse o data serial stack s)
    | _ => none
  | .dnsLoop =>
    match s.stack with
    | .submitted :: stack => some { s with stack }
    | _ => none
  | .answered q hostname =>
    if q ∈ s.queries ∧ s.stack.all (!·.isAnswering) then
      some { s with stack := .answering q hostname :: s.stack }
    else none
  | .answer =>
    match s.stack with
    | .answering q hostname :: stack => some (dnsAnswer o q hostname stack s)
    | _ => none

def LookupStep (s : Lookups) (l : LookupAction) (s' : Lookups) : Prop := lookupStep o s l = some s'

/-! ## What an answer may do -/

/-- The record that a lookup has been started for is there, on some page. -/
def Lookups.OnPage (s : Lookups) (po serial : Nat) : Prop :=
  (s.hosts po).map Host.serial = some serial ∧
    ∃ np page, s.pages np = some page ∧ po ∈ page.pageObjects

/-- What an answer to `q` does between `s` and `s'` is right; with a name, `reverse_lookup_cb`
    runs. -/
structure AnswerOk (s s' : Lookups) (q : DnsQuery) (hostname : Option (List UInt8)) : Prop where
  onPage : hostname.isSome → s.OnPage q.data q.serial
  pages : s'.pages = s.pages
  others : ∀ po, po ≠ q.data → s'.hosts po = s.hosts po
  onlyName : ∀ h, s.hosts q.data = some h → ∃ name, s'.hosts q.data = some { h with name }
  deleted : (s.hosts q.data).map Host.serial ≠ some q.serial → s'.hosts = s.hosts

/-- No freed memory has been used, and the answer that is being handled, if any, does right. -/
structure Lookups.Safe (s : Lookups) : Prop where
  fault : s.fault = false
  answer : ∀ q hostname stack s', s.stack = .answering q hostname :: stack →
    LookupStep o s .answer s' → AnswerOk s s' q hostname

/-! ## Lookups that are under way -/

def Activation.pending : Activation → Option (Nat × Nat)
  | .starting data serial => some (data, serial)
  | .submitted => none
  | .answering q _ => some (q.data, q.serial)

def Lookups.pending (s : Lookups) : List (Nat × Nat) :=
  s.stack.filterMap Activation.pending ++ s.queries.map fun q => (q.data, q.serial)

def Lookups.Frees (s : Lookups) (po : Nat) : LookupAction → Prop
  | .delete np victim force yes fuel => ∃ page page', s.pages np = some page ∧
      pageObjectDelete fuel force yes victim page = .ok page' ∧
      po ∈ page.pageObjects ∧ po ∉ page'.pageObjects
  | .removePage np _ => ∃ page, s.pages np = some page ∧ po ∈ page.pageObjects
  | _ => False

/-- The step frees no record that a lookup will still use. -/
def Spares (s : Lookups) (l : LookupAction) : Prop := ∀ p ∈ s.pending, ¬ s.Frees p.1 l

structure Lookups.Inv (s : Lookups) : Prop where
  fault : s.fault = false
  pending : ∀ p ∈ s.pending, s.OnPage p.1 p.2

section Steps

variable {o : ByteOrder} {s s' : Lookups} {po serial np : Nat} {page page' : NetPage}

theorem Lookups.OnPage.mono (on : s.OnPage po serial)
    (hosts : (s'.hosts po).map Host.serial = (s.hosts po).map Host.serial)
    (pages : ∀ np page, s.pages np = some page → po ∈ page.pageObjects →
      ∃ page', s'.pages np = some page' ∧ po ∈ page'.pageObjects) : s'.OnPage po serial := by
  obtain ⟨there, np, page, isPage, listed⟩ := on
  obtain ⟨page', isPage', listed'⟩ := pages np page isPage listed
  exact ⟨hosts.trans there, np, page', isPage', listed'⟩

/-- One page is replaced by another that still has the host. -/
theorem Lookups.OnPage.replace (on : s.OnPage po serial)
    (hosts : (s'.hosts po).map Host.serial = (s.hosts po).map Host.serial)
    (pages : s'.pages = Function.update s.pages np (some page'))
    (kept : ∀ page, s.pages np = some page → po ∈ page.pageObjects → po ∈ page'.pageObjects) :
    s'.OnPage po serial := by
  refine on.mono hosts fun np₁ page₁ isPage listed => ?_
  rw [pages]
  by_cases here : np₁ = np
  case pos =>
    subst here
    exact ⟨page', Function.update_self .., kept page₁ isPage listed⟩
  case neg => exact ⟨page₁, (Function.update_of_ne here ..).trans isPage, listed⟩

/-- A step that puts nothing under way and spares what is keeps the invariant. -/
theorem Lookups.Inv.keep (inv : s.Inv) (fault : s'.fault = false)
    (fewer : ∀ p ∈ s'.pending, p ∈ s.pending)
    (kept : ∀ p ∈ s.pending, s.OnPage p.1 p.2 → s'.OnPage p.1 p.2) : s'.Inv :=
  ⟨fault, fun p member => kept p (fewer p member) (inv.pending p (fewer p member))⟩

/-! ## Discoveries -/

structure AddsHost (s s' : Lookups) (po : Nat) : Prop where
  queries : s'.queries = s.queries
  stack : s'.stack = s.stack
  fault : s'.fault = s.fault
  kept : ∀ {po serial}, s.OnPage po serial → s'.OnPage po serial
  listed : ∀ h, s'.hosts po = some h → s'.OnPage po h.serial

theorem addHostEntryToNetPage_spec {ip block : Nat} {name : Option (List UInt8)}
    (isPage : s.pages np = some page)
    (run : addHostEntryToNetPage o np page ip name block s = some (po, s')) :
    AddsHost s s' po := by
  unfold addHostEntryToNetPage at run
  cases found : findIp s.hosts ip page.pageObjects with
  | some known =>
    have member : known ∈ page.pageObjects := List.mem_of_find?_eq_some found
    cases name with
    | none =>
      simp only [found, Option.some.injEq, Prod.mk.injEq] at run
      obtain ⟨rfl, rfl⟩ := run
      exact ⟨rfl, rfl, rfl, id, fun h here => ⟨by rw [here]; rfl, np, page, isPage, member⟩⟩
    | some name =>
      simp only [found, Option.some.injEq, Prod.mk.injEq] at run
      obtain ⟨rfl, rfl⟩ := run
      refine ⟨rfl, rfl, rfl, fun {old _} on => ?_, fun h here => ⟨?_, np, page, isPage, member⟩⟩
      · refine on.mono ?_ fun np page isPage listed => ⟨page, isPage, listed⟩
        dsimp only
        by_cases same : old = known
        case pos =>
          rw [same, Function.update_self, Option.map_map]
          rfl
        case neg => rw [Function.update_of_ne same]
      · rw [here]
        rfl
  | none =>
    rw [found] at run
    dsimp only at run
    split at run
    case isFalse => cases run
    case isTrue free =>
      rw [Option.isNone_iff_eq_none] at free
      simp only [Option.some.injEq, Prod.mk.injEq] at run
      obtain ⟨rfl, rfl⟩ := run
      refine ⟨rfl, rfl, rfl, fun {old serial} on => ?_, fun h here => ?_⟩
      · -- the new host is at an address that was free, and lookups are for hosts that are there
        have other : old ≠ block := by
          rintro rfl
          have there := on.1
          rw [free] at there
          cases there
        refine on.replace ?_ rfl fun page₁ isPage₁ listed => ?_
        · dsimp only
          rw [Function.update_of_ne other]
        · cases isPage.symm.trans isPage₁
          exact List.mem_cons_of_mem _ listed
      · exact ⟨by rw [here]; rfl, np, _, Function.update_self .., List.mem_cons_self⟩

theorem Lookups.Inv.discover {ip block : Nat} {name : Option (List UInt8)}
    {optionsReverseDns : Bool} (inv : s.Inv)
    (run : addDiscoveredNode o np ip name block optionsReverseDns s = some s') : s'.Inv := by
  unfold addDiscoveredNode at run
  cases isPage : s.pages np with
  | none =>
    rw [isPage] at run
    cases run
    exact inv
  | some page =>
    rw [isPage] at run
    obtain ⟨⟨po, s₁⟩, added, run⟩ := Option.bind_eq_some_iff.mp run
    obtain ⟨host, here, run⟩ := Option.bind_eq_some_iff.mp run
    have adds := addHostEntryToNetPage_spec isPage added
    have inv₁ : s₁.Inv := by
      refine inv.keep (adds.fault.trans inv.fault) (fun p member => ?_) fun p _ => adds.kept
      rwa [Lookups.pending, adds.queries, adds.stack] at member
    split at run
    · cases run
      refine ⟨inv₁.fault, fun p member => ?_⟩
      rcases List.mem_cons.mp member with rfl | member
      · exact adds.listed host here
      · exact inv₁.pending p member
    · cases run
      exact inv₁

/-! ## Deletions -/

/-- Records that stay on their page, or are on another, are not freed with it. -/
theorem Lookups.Inv.free {pages : Nat → Option NetPage} (inv : s.Inv)
    (spared : ∀ p ∈ s.pending, p.1 ∈ page.pageObjects → p.1 ∈ page'.pageObjects)
    (kept : ∀ p ∈ s.pending, ∀ np page, s.pages np = some page → p.1 ∈ page.pageObjects →
      ∃ page', pages np = some page' ∧ p.1 ∈ page'.pageObjects) :
    ({ s.free page page' with pages } : Lookups).Inv := by
  refine inv.keep inv.fault (fun p member => member) fun p member on => on.mono ?_ (kept p member)
  -- what is freed is on the old page and not on the new one
  have stays : ¬ (p.1 ∈ page.pageObjects ∧ p.1 ∉ page'.pageObjects) :=
    fun gone => gone.2 (spared p member gone.1)
  dsimp only [Lookups.free]
  rw [if_neg stays]

/-! ## Answers -/

/-- The callback on a record that is there. -/
theorem reverseLookupCb_eq (o : ByteOrder) (ip hostname : List UInt8) {h : Host}
    (here : s.hosts po = some h) :
    ∃ name, reverseLookupCb o ip hostname po s =
      { s with ntoa := h.ip, hosts := Function.update s.hosts po (some { h with name }) } := by
  unfold reverseLookupCb
  simp only [here]
  by_cases same : ip2strOn o h.ip = ip
  case pos => exact ⟨_, if_pos same⟩
  case neg =>
    refine ⟨h.name, (if_neg same).trans ?_⟩
    have unchanged : Function.update s.hosts po (some { h with name := h.name }) = s.hosts := by
      rw [Function.update_eq_self_iff, here]
    rw [unchanged]

/-- With its record on a page, an answer writes the name there, at most, and is gone. -/
theorem dnsAnswer_eq (o : ByteOrder) {q : DnsQuery} (hostname : Option (List UInt8))
    (stack : List Activation) (on : s.OnPage q.data q.serial) :
    ∃ h name ntoa, s.hosts q.data = some h ∧ h.serial = q.serial ∧
      dnsAnswer o q hostname stack s =
        { s with
          queries := s.queries.erase q, stack, ntoa
          hosts := Function.update s.hosts q.data (some { h with name }) } := by
  obtain ⟨h, here, serial⟩ := Option.map_eq_some_iff.mp on.1
  refine ⟨h, ?_⟩
  cases hostname with
  | none =>
    refine ⟨h.name, s.ntoa, here, serial, ?_⟩
    have unchanged : Function.update s.hosts q.data (some { h with name := h.name }) = s.hosts := by
      rw [Function.update_eq_self_iff, here]
    rw [unchanged]
    rfl
  | some hostname =>
    have here' : ({ s with queries := s.queries.erase q, stack } : Lookups).hosts q.data = some h :=
      here
    obtain ⟨name, wrote⟩ := reverseLookupCb_eq o q.ip hostname here'
    exact ⟨name, h.ip, here, serial, wrote⟩

theorem Lookups.Inv.answer {q : DnsQuery} {hostname : Option (List UInt8)}
    {stack : List Activation} (inv : s.Inv) (top : s.stack = .answering q hostname :: stack) :
    (dnsAnswer o q hostname stack s).Inv := by
  -- the answer that is handled is still pending, and so its host is on a page
  have on : s.OnPage q.data q.serial := by
    refine inv.pending (q.data, q.serial) (List.mem_append_left _ ?_)
    rw [top]
    exact List.mem_cons_self
  obtain ⟨h, name, ntoa, here, -, eq⟩ := dnsAnswer_eq o hostname stack on
  rw [eq]
  refine inv.keep inv.fault (fun p member => ?_) fun p _ on => ?_
  · rcases List.mem_append.mp member with call | waits
    · refine List.mem_append_left _ ?_
      rw [top]
      exact List.mem_cons_of_mem _ call
    · obtain ⟨q', still, rfl⟩ := List.mem_map.mp waits
      exact List.mem_append_right _ (List.mem_map_of_mem (List.mem_of_mem_erase still))
  · refine on.mono ?_ fun np page isPage listed => ⟨page, isPage, listed⟩
    dsimp only
    by_cases same : p.1 = q.data
    case pos =>
      rw [same, Function.update_self, here]
      rfl
    case neg => rw [Function.update_of_ne same]

/-! ## Runs -/

/-- `dns_reverse_lookup` hands its record on to the query. -/
theorem Lookups.Inv.submit {data : Nat} {stack : List Activation} (inv : s.Inv)
    (top : s.stack = .starting data serial :: stack) :
    (submitReverse o data serial stack s).Inv := by
  have here : (data, serial) ∈ s.pending := by
    refine List.mem_append_left _ ?_
    rw [top]
    exact List.mem_cons_self
  have below (p : Nat × Nat) (member : p ∈ stack.filterMap Activation.pending) :
      p ∈ s.pending := by
    refine List.mem_append_left _ ?_
    rw [top]
    exact List.mem_cons_of_mem _ member
  unfold submitReverse
  dsimp only
  split
  · refine inv.keep inv.fault (fun p member => ?_) fun p _ on => on
    rcases List.mem_append.mp member with call | waits
    · exact below p call
    · exact List.mem_append_right _ waits
  · refine inv.keep inv.fault (fun p member => ?_) fun p _ on => on
    rcases List.mem_append.mp member with call | waits
    · exact below p call
    · rcases List.mem_cons.mp waits with rfl | waits
      · exact here
      · exact List.mem_append_right _ waits

theorem Lookups.Inv.step {l : LookupAction} (inv : s.Inv) (spares : Spares s l)
    (step : LookupStep o s l s') : s'.Inv := by
  unfold LookupStep lookupStep at step
  cases l with
  | addPage np =>
    dsimp only at step
    split at step
    case isFalse => cases step
    case isTrue free =>
      rw [Option.isNone_iff_eq_none] at free
      cases step
      refine inv.keep inv.fault (fun p member => member) fun p _ on => on.replace rfl rfl ?_
      intro page isPage
      rw [free] at isPage
      cases isPage
  | edit np page' =>
    obtain ⟨page, isPage, step⟩ := Option.bind_eq_some_iff.mp step
    split at step
    case isFalse => cases step
    case isTrue same =>
      cases step
      refine inv.keep inv.fault (fun p member => member) fun p _ on => on.replace rfl rfl ?_
      intro page₁ isPage₁ listed
      cases isPage.symm.trans isPage₁
      rwa [same]
  | discover => exact inv.discover step
  | delete np victim force yes fuel =>
    obtain ⟨page, isPage, step⟩ := Option.bind_eq_some_iff.mp step
    obtain ⟨page', deleted, step⟩ := Option.bind_eq_some_iff.mp step
    have ran : pageObjectDelete fuel force yes victim page = .ok page' := by
      cases ran : pageObjectDelete fuel force yes victim page with
      | error => rw [ran] at deleted; cases deleted
      | ok => rw [ran] at deleted; cases deleted; rfl
    cases step
    have spared (p : Nat × Nat) (member : p ∈ s.pending) (listed : p.1 ∈ page.pageObjects) :
        p.1 ∈ page'.pageObjects := by
      by_contra gone
      exact spares p member ⟨page, page', isPage, ran, listed, gone⟩
    refine inv.free spared fun p member np₂ page₂ isPage₂ listed => ?_
    by_cases same : np₂ = np
    case pos =>
      subst same
      cases isPage.symm.trans isPage₂
      exact ⟨page', Function.update_self .., spared p member listed⟩
    case neg => exact ⟨page₂, (Function.update_of_ne same ..).trans isPage₂, listed⟩
  | removePage np fuel =>
    obtain ⟨page, isPage, step⟩ := Option.bind_eq_some_iff.mp step
    obtain ⟨page', -, step⟩ := Option.bind_eq_some_iff.mp step
    cases step
    have elsewhere (p : Nat × Nat) (member : p ∈ s.pending) : p.1 ∉ page.pageObjects :=
      fun listed => spares p member ⟨page, isPage, listed⟩
    refine inv.free (fun p member listed => absurd listed (elsewhere p member)) ?_
    intro p member np₂ page₂ isPage₂ listed
    have other : np₂ ≠ np := by
      rintro rfl
      cases isPage.symm.trans isPage₂
      exact elsewhere p member listed
    exact ⟨page₂, (Function.update_of_ne other ..).trans isPage₂, listed⟩
  | inetNtoa ip =>
    cases step
    exact inv.keep inv.fault (fun p member => member) fun p _ on => on
  | submit =>
    dsimp only at step
    split at step
    case h_1 top =>
      cases step
      exact inv.submit top
    case h_2 => cases step
  | dnsLoop =>
    dsimp only at step
    split at step
    case h_1 top =>
      cases step
      refine inv.keep inv.fault (fun p member => ?_) fun p _ on => on
      rwa [Lookups.pending, top]
    case h_2 => cases step
  | answered q hostname =>
    dsimp only at step
    split at step
    case isFalse => cases step
    case isTrue found =>
      cases step
      refine inv.keep inv.fault (fun p member => ?_) fun p _ on => on
      rcases List.mem_cons.mp member with rfl | member
      · exact List.mem_append_right _ (List.mem_map_of_mem found.1)
      · exact member
  | answer =>
    dsimp only at step
    split at step
    case h_1 top =>
      cases step
      exact inv.answer top
    case h_2 => cases step

/-- An answer does right where the invariant holds. -/
theorem Lookups.Inv.safe (inv : s.Inv) : s.Safe o := by
  refine ⟨inv.fault, fun q hostname stack s' top step => ?_⟩
  have on : s.OnPage q.data q.serial := by
    refine inv.pending (q.data, q.serial) (List.mem_append_left _ ?_)
    rw [top]
    exact List.mem_cons_self
  obtain ⟨h, name, ntoa, here, -, eq⟩ := dnsAnswer_eq o hostname stack on
  unfold LookupStep lookupStep at step
  simp only [top, Option.some.injEq] at step
  subst step
  rw [eq]
  refine ⟨fun _ => on, rfl, fun po other => Function.update_of_ne other .., fun h' here' => ?_,
    fun deleted => absurd on.1 deleted⟩
  cases here.symm.trans here'
  exact ⟨name, Function.update_self ..⟩

/-- In every run in which no step frees a record that a lookup has been started for and will still
    use, `reverse_lookup_cb` gets hosts that are on a page, changes their names and nothing else,
    and no freed memory is used. -/
theorem lookups_safe {ls : List LookupAction}
    (run : Run (Guarded Spares (LookupStep o)) Lookups.start ls s) : s.Safe o := by
  have inv : s.Inv := by
    refine run.state_invariant ⟨rfl, fun p none => by cases none⟩ ?_
    exact fun _ _ _ inv step => inv.step step.1 step.2
  exact inv.safe

end Steps

def asks (rest : List LookupAction) : List LookupAction :=
  [.addPage 0, .discover 0 0x0100007f none 100 true, .submit, .dnsLoop] ++ rest

def asked : DnsQuery := { ip := text "127.0.0.1", data := 100, serial := 0 }

/-- The answer comes while the host is on its page. -/
theorem lookups_safe_asked :
    ∃ s, Run (Guarded Spares (LookupStep .little)) Lookups.start
      (asks [.answered asked (some (text "localhost"))]) s ∧ s.Safe .little := by
  have runs : ((asks [.answered asked (some (text "localhost"))]).foldlM (lookupStep .little)
      Lookups.start).isSome = true := by
    decide
  obtain ⟨s, runs⟩ := Option.isSome_iff_exists.mp runs
  have run : Run (LookupStep .little) Lookups.start
      (asks [.answered asked (some (text "localhost"))]) s := Run.of_exec id runs
  have spares : ∀ l ∈ asks [.answered asked (some (text "localhost"))], ∀ s, Spares s l := by
    intro l member s p _ frees
    simp only [asks, List.mem_append, List.mem_cons, List.not_mem_nil, or_false] at member
    rcases member with (rfl | rfl | rfl | rfl) | rfl <;> exact frees
  exact ⟨s, run.guarded spares, lookups_safe (run.guarded spares)⟩

/-- The host is deleted before the answer comes, and `reverse_lookup_cb` gets its address. -/
theorem lookups_unsafe_deleted :
    ∃ s, Run (LookupStep .little) Lookups.start
      (asks [.delete 0 100 false false 2, .answered asked (some (text "localhost"))]) s ∧
      ¬ s.Safe .little := by
  have runs : ((asks [.delete 0 100 false false 2,
      .answered asked (some (text "localhost"))]).foldlM (lookupStep .little) Lookups.start).map
        (fun s => (s.stack, s.hosts 100)) =
      some ([.answering asked (some (text "localhost"))], none) := by
    decide
  obtain ⟨s, runs, ends⟩ := Option.map_eq_some_iff.mp runs
  obtain ⟨top, gone⟩ := Prod.mk.inj ends
  refine ⟨s, Run.of_exec id runs, fun safe => ?_⟩
  have right := safe.answer _ _ _ _ top (by
    unfold LookupStep lookupStep
    rw [top])
  have there := (right.onPage rfl).1
  rw [show s.hosts asked.data = none from gone] at there
  cases there

end Cheops.Gui
