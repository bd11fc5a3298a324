import Cheops.ServiceList.Basic

/-! # The service list is a map

What the list is for is a map from ports to commands, with one entry for each port and protocol.
`services_refine_iff` says in which sequences of calls the list is that map.
-/

namespace Cheops.ServiceList

open Cheops.Lib Cheops.Lib.Keyed

/-! ## The map -/

def keyOf (port protocol : Int) : Int × Int := (port, protocolOf protocol)

def Service.key (p : Service) : Int × Int := keyOf p.port p.protocol

abbrev ServiceMap := Int × Int → Option (List UInt8 × List UInt8)

def Service.value (p : Service) : List UInt8 × List UInt8 := (p.name, p.command)

def mapOf (list : List Service) : ServiceMap := fun k => (lookup Service.key list k).map (·.value)

def defaultMap : ServiceMap :=
  defaultList.foldl
    (fun m c => Function.update m (keyOf c.2.1 c.2.2.1) (some (text c.1, text c.2.2.2)))
    fun _ => none

/-- The call does to the map what it is for, and says so. -/
def Meant (s : Services) : Op → Prop
  | .add name port protocol string =>
    let (s', p) := serviceListAdd s name port protocol string
    mapOf s'.list = Function.update (mapOf s.list) (keyOf port protocol) (some (name, string)) ∧
      ∃ q ∈ s'.list, q.addr = p ∧ q.key = keyOf port protocol
  | .change service name port protocol string =>
    let (s', ret) := serviceListChange s service name port protocol string
    ∀ p ∈ s.list, p.addr = service →
      if p.key ≠ keyOf port protocol ∧ mapOf s.list (keyOf port protocol) ≠ none then
        mapOf s'.list = Function.update (mapOf s.list) p.key none ∧ ret = none
      else
        mapOf s'.list = Function.update (Function.update (mapOf s.list) p.key none)
          (keyOf port protocol) (some (name, string)) ∧ ret = some service
  | .remove port protocol =>
    mapOf (serviceListRemove s port protocol).list =
      Function.update (mapOf s.list) (keyOf port protocol) none
  | .get port protocol =>
    let (s', command) := serviceListGet s port protocol
    if s.list = [] then mapOf s'.list = defaultMap
    else s' = s ∧ command = (mapOf s.list (keyOf port protocol)).map (·.2)

/-- Moreover no two entries have the same key after it. -/
def Faithful (s : Services) (op : Op) : Prop := Distinct Service.key (exec s op).list ∧ Meant s op

/-! ## Where the tests go wrong -/

/-- The entry that the call is about, if any, is the one that its test finds. -/
def Finds (s : Services) : Op → Prop
  | .add _ port protocol _ =>
    ∀ p ∈ s.list, p.key = keyOf port protocol → p.protocol = protocolOf protocol
  | .change service _ port protocol _ =>
    ∀ p ∈ s.list, p.addr ≠ service → p.key = keyOf port protocol → p.protocol = protocol
  | .remove port protocol =>
    if protocol = 0 then ∀ p ∈ s.list, p.key ≠ keyOf port 0
    else ∀ p, s.list.find? (fun p => port = p.port ∧ p.protocol ≠ 0) = some p →
      p.key = keyOf port protocol
  | .get port protocol =>
    s.list = [] ∨ ∀ p ∈ s.list, p.key = keyOf port protocol → p.protocol = protocol

/-! ## Changes of the map -/

variable {s s' : Services} {l l₁ l₂ : List Service} {p : Service}

theorem protocolOf_protocolOf (protocol : Int) :
    protocolOf (protocolOf protocol) = protocolOf protocol := by
  unfold protocolOf
  split_ifs <;> simp_all [PORT_PROTOCOL_TCP, PORT_PROTOCOL_UDP]

theorem protocolOf_eq_zero {protocol : Int} : protocolOf protocol = 0 ↔ protocol = 0 := by
  unfold protocolOf
  split_ifs <;> simp_all [PORT_PROTOCOL_TCP, PORT_PROTOCOL_UDP]

theorem mapOf_eq_none {k : Int × Int} : mapOf l k = none ↔ ∀ p ∈ l, p.key ≠ k := by
  unfold mapOf
  rw [Option.map_eq_none_iff, lookup_eq_none]

theorem mapOf_key (keys : Distinct Service.key l) (member : p ∈ l) :
    mapOf l p.key = some p.value := by
  unfold mapOf
  rw [keys.lookup member]
  rfl

theorem mapOf_middle (keys : Distinct Service.key (l₁ ++ p :: l₂)) :
    mapOf (l₁ ++ p :: l₂) = Function.update (mapOf (l₁ ++ l₂)) p.key (some p.value) := by
  funext k
  unfold mapOf Function.update
  rw [lookup_middle keys]
  split
  next same =>
    subst same
    rfl
  next => rfl

theorem mapOf_without (keys : Distinct Service.key (l₁ ++ p :: l₂)) :
    Function.update (mapOf (l₁ ++ p :: l₂)) p.key none = mapOf (l₁ ++ l₂) := by
  rw [mapOf_middle keys, Function.update_idem]
  apply Function.update_eq_self_iff.mpr
  exact (mapOf_eq_none.mpr (Distinct.middle.mp keys).2).symm

/-! ## Addresses -/

structure Allocated (s : Services) : Prop where
  distinct : Distinct Service.addr s.list
  bound : ∀ p ∈ s.list, p.addr < s.mallocs

theorem Allocated.sublist (allocated : Allocated s) (sub : l.Sublist s.list) :
    Allocated { s with list := l } :=
  ⟨(sub.map _).nodup allocated.distinct, fun p member => allocated.bound p (sub.subset member)⟩

theorem Allocated.removePtr (allocated : Allocated s) (t : Nat) :
    Allocated (serviceListRemovePtr s t) :=
  allocated.sublist List.eraseP_sublist

theorem addr_write {addr : Nat} {f : Service → Service} (kept : ∀ p, (f p).addr = p.addr) :
    (write addr f l).map (·.addr) = l.map (·.addr) := by
  unfold write
  rw [List.map_map]
  apply List.map_congr_left
  intro p _
  rw [Function.comp_apply]
  split
  · exact kept p
  · rfl

theorem Allocated.write (allocated : Allocated s) {addr : Nat} {f : Service → Service}
    (kept : ∀ p, (f p).addr = p.addr) :
    Allocated { s with list := write addr f s.list } := by
  have same := @addr_write s.list addr f kept
  constructor
  · change List.Nodup _
    rw [same]
    exact allocated.distinct
  · intro p member
    have listed : p.addr ∈ s.list.map (·.addr) := same ▸ List.mem_map_of_mem member
    obtain ⟨q, member, same⟩ := List.mem_map.mp listed
    rw [← same]
    exact allocated.bound q member

theorem Allocated.add (allocated : Allocated s) (name : List UInt8) (port protocol : Int)
    (string : List UInt8) : Allocated (serviceListAdd s name port protocol string).1 := by
  unfold serviceListAdd
  dsimp only
  split
  · exact allocated.write fun p => rfl
  · constructor
    · apply List.nodup_cons.mpr
      refine ⟨?_, allocated.distinct⟩
      intro listed
      obtain ⟨p, member, same⟩ := List.mem_map.mp listed
      have bound := allocated.bound p member
      change p.addr = s.mallocs at same
      omega
    · intro p member
      cases member with
      | head => exact Nat.lt_succ_self _
      | tail _ member => exact Nat.lt_succ_of_lt (allocated.bound p member)

theorem Allocated.default (allocated : Allocated s) : Allocated (serviceListDefault s) := by
  unfold serviceListDefault
  have empty : Allocated { s with list := [] } := allocated.sublist (List.nil_sublist _)
  revert empty
  generalize ({ s with list := [] } : Services) = s
  generalize defaultList = entries
  intro allocated
  induction entries generalizing s with
  | nil => exact allocated
  | cons c entries ih => exact ih _ (allocated.add ..)

theorem Allocated.exec (allocated : Allocated s) (op : Op) : Allocated (exec s op) := by
  cases op with
  | add name port protocol string => exact allocated.add name port protocol string
  | change service name port protocol string =>
    change Allocated (serviceListChange s service name port protocol string).1
    unfold serviceListChange
    split
    · dsimp only
      split
      · apply Allocated.removePtr
        exact allocated.write fun p => rfl
      · exact allocated.write fun p => rfl
    · exact allocated
  | remove port protocol => exact allocated.sublist List.eraseP_sublist
  | get port protocol =>
    change Allocated (if s.list = [] then serviceListDefault s else s)
    split
    · exact allocated.default
    · exact allocated

/-- A write through the address of an entry. -/
theorem write_middle (distinct : Distinct Service.addr (l₁ ++ p :: l₂)) (f : Service → Service) :
    write p.addr f (l₁ ++ p :: l₂) = l₁ ++ f p :: l₂ :=
  map_write_middle distinct f

/-! ## The four operations -/

theorem add_faithful_iff (allocated : Allocated s) (keys : Distinct Service.key s.list)
    {name : List UInt8} {port protocol : Int} {string : List UInt8} :
    Faithful s (.add name port protocol string) ↔ Finds s (.add name port protocol string) := by
  unfold Faithful Meant exec serviceListAdd Finds
  dsimp only
  split
  next p found =>
    have test := List.find?_some found
    simp only [decide_eq_true_eq] at test
    obtain ⟨rfl, raw⟩ := test
    have same : p.key = keyOf p.port protocol := by
      unfold Service.key keyOf
      rw [← raw, protocolOf_protocolOf]
    obtain ⟨l₁, l₂, split, -⟩ := split_of_find? found
    have middle := split ▸ keys
    have changed := Distinct.middle.mp middle
    apply iff_of_true
    · dsimp only
      rw [split, write_middle (split ▸ allocated.distinct)]
      have keys' : Distinct Service.key (l₁ ++ { p with name, command := string } :: l₂) :=
        Distinct.middle.mpr changed
      refine ⟨keys', ?_, _, List.mem_append_right _ (.head _), rfl, same⟩
      rw [mapOf_middle keys', mapOf_middle middle, same, Function.update_idem, ← same]
      rfl
    · intro q member hit
      rw [keys.eq member (List.mem_of_find?_eq_some found) (hit.trans same.symm), raw]
  next missed =>
    have missing : ∀ q ∈ s.list, port = q.port → protocolOf protocol ≠ q.protocol := by
      simpa using missed
    constructor
    · rintro ⟨keys', -⟩ q member hit
      have fresh := (@Distinct.middle _ _ _ [] s.list _).mp keys'
      cases fresh.2 q member (hit.trans (by unfold Service.key keyOf; rw [protocolOf_protocolOf]))
    · intro finds
      have fresh : ∀ q ∈ s.list, q.key ≠ keyOf port protocol := by
        intro q member hit
        exact missing q member (congrArg Prod.fst hit).symm (finds q member hit).symm
      have same : keyOf port (protocolOf protocol) = keyOf port protocol := by
        unfold keyOf
        rw [protocolOf_protocolOf]
      have keys' : Distinct Service.key
          ([] ++ ⟨s.mallocs, name, port, protocolOf protocol, string⟩ :: s.list) :=
        Distinct.middle.mpr ⟨keys, fun q member hit => fresh q member (hit.trans same)⟩
      refine ⟨keys', ?_, _, .head _, rfl, same⟩
      have added := mapOf_middle keys'
      unfold Service.key at added
      rw [same] at added
      exact added

theorem remove_faithful_iff (keys : Distinct Service.key s.list) {port protocol : Int} :
    Faithful s (.remove port protocol) ↔ Finds s (.remove port protocol) := by
  unfold Faithful Meant exec serviceListRemove Finds
  dsimp only
  cases found : s.list.find? fun p => port = p.port ∧ protocol ≠ 0 ∧ p.protocol ≠ 0 with
  | some p =>
    obtain ⟨-, nonzero, -⟩ : port = p.port ∧ protocol ≠ 0 ∧ p.protocol ≠ 0 := by
      simpa using List.find?_some found
    obtain ⟨l₁, l₂, split, erased⟩ := split_of_find? found
    have middle := split ▸ keys
    have others := Distinct.middle.mp middle
    rw [erased]
    rw [if_neg nonzero]
    simp only [nonzero, ne_eq, not_false_eq_true, true_and] at found
    have without := mapOf_without middle
    constructor
    · rintro ⟨-, meant⟩ q found'
      cases Option.some.inj (found.symm.trans found')
      by_contra other
      have here := congrFun meant p.key
      rw [Function.update_of_ne other, mapOf_key keys (List.mem_of_find?_eq_some found),
        mapOf_eq_none.mpr others.2] at here
      cases here
    · intro finds
      refine ⟨others.1, ?_⟩
      rw [← without, ← split, finds p found]
  | none =>
    have missing : ∀ q ∈ s.list, port = q.port → protocol ≠ 0 → q.protocol = 0 := by
      simpa using found
    rw [List.eraseP_of_forall_not (by simpa using found)]
    have unchanged : mapOf s.list = Function.update (mapOf s.list) (keyOf port protocol) none ↔
        ∀ q ∈ s.list, q.key ≠ keyOf port protocol := by
      rw [eq_comm, Function.update_eq_self_iff, eq_comm, mapOf_eq_none]
    rw [unchanged]
    split
    next zero =>
      subst zero
      exact ⟨fun faithful => faithful.2, fun finds => ⟨keys, finds⟩⟩
    next nonzero =>
      have absent : ∀ q ∈ s.list, q.key ≠ keyOf port protocol := by
        intro q member hit
        have zero := missing q member (congrArg Prod.fst hit).symm nonzero
        have number : protocolOf q.protocol = protocolOf protocol := congrArg Prod.snd hit
        rw [protocolOf_eq_zero.mpr zero] at number
        exact nonzero (protocolOf_eq_zero.mp number.symm)
      apply iff_of_true ⟨keys, absent⟩
      intro p found'
      have test : port = p.port ∧ p.protocol ≠ 0 := by simpa using List.find?_some found'
      cases test.2 (missing p (List.mem_of_find?_eq_some found') test.1 nonzero)

theorem change_faithful_iff (allocated : Allocated s) (keys : Distinct Service.key s.list)
    {service : Nat} {name : List UInt8} {port protocol : Int} {string : List UInt8}
    (callable : Callable s (.change service name port protocol string)) :
    Faithful s (.change service name port protocol string) ↔
      Finds s (.change service name port protocol string) := by
  obtain ⟨p, member, rfl⟩ := callable
  have found : s.list.find? (·.addr = p.addr) = some p := allocated.distinct.lookup member
  obtain ⟨l₁, l₂, split, -⟩ := split_of_find? found
  have middle := split ▸ keys
  have addresses := split ▸ allocated.distinct
  have others := Distinct.middle.mp middle
  obtain ⟨p', hp'⟩ : ∃ p' : Service, p' = { p with name, port, protocol, command := string } :=
    ⟨_, rfl⟩
  have addr : p'.addr = p.addr := by rw [hp']
  have key : p'.key = keyOf port protocol := by rw [hp', Service.key]
  have addresses' : Distinct Service.addr (l₁ ++ p' :: l₂) :=
    Distinct.middle.mpr (addr ▸ Distinct.middle.mp addresses)
  have written : write p.addr (fun p => { p with name, port, protocol, command := string })
      s.list = l₁ ++ p' :: l₂ := by
    rw [split, write_middle addresses, hp']
  have listed : ∀ q ∈ l₁ ++ l₂, q ∈ s.list ∧ q.addr ≠ p.addr := by
    intro q member
    refine ⟨?_, (Distinct.middle.mp addresses).2 q member⟩
    rw [split, List.perm_middle.mem_iff]
    exact .tail _ member
  have taken : (l₁ ++ p' :: l₂).any
        (fun q => q.addr ≠ p.addr ∧ q.port = port ∧ q.protocol = protocol) = true ↔
      ∃ q ∈ l₁ ++ l₂, q.port = port ∧ q.protocol = protocol := by
    rw [List.any_eq_true]
    constructor
    · rintro ⟨q, member, test⟩
      simp only [decide_eq_true_eq] at test
      rw [List.perm_middle.mem_iff] at member
      cases member with
      | head => cases test.1 addr
      | tail _ member => exact ⟨q, member, test.2⟩
    · rintro ⟨q, member, test⟩
      refine ⟨q, ?_, ?_⟩
      · rw [List.perm_middle.mem_iff]
        exact .tail _ member
      · simpa using ⟨(listed q member).2, test⟩
  unfold Faithful Meant exec serviceListChange Finds
  dsimp only
  rw [found]
  dsimp only
  rw [written]
  by_cases clash : ∃ q ∈ l₁ ++ l₂, q.port = port ∧ q.protocol = protocol
  · rw [if_pos (taken.mpr clash)]
    obtain ⟨q, inRest, rfl, rfl⟩ := clash
    have removed : (l₁ ++ p' :: l₂).eraseP (·.addr = p.addr) = l₁ ++ l₂ :=
      addr ▸ eraseP_middle addresses'
    unfold serviceListRemovePtr
    rw [removed]
    apply iff_of_true
    · refine ⟨others.1, ?_⟩
      intro p₂ member₂ same
      cases allocated.distinct.eq member₂ member same
      have holder : mapOf s.list (keyOf q.port q.protocol) ≠ none := by
        rw [← Service.key, mapOf_key keys (listed q inRest).1]
        exact Option.some_ne_none _
      rw [if_pos ⟨(others.2 q inRest).symm, holder⟩, split, mapOf_without middle]
      exact ⟨rfl, rfl⟩
    · intro q' member' _ hit
      rw [keys.eq member' (listed q inRest).1 hit]
  · rw [if_neg (mt taken.mp clash)]
    have distinct_iff : Distinct Service.key (l₁ ++ p' :: l₂) ↔
        ∀ q ∈ l₁ ++ l₂, q.key ≠ keyOf port protocol := by
      rw [Distinct.middle, key]
      exact and_iff_right others.1
    have finds_iff : (∀ q ∈ s.list, q.addr ≠ p.addr → q.key = keyOf port protocol →
        q.protocol = protocol) ↔ ∀ q ∈ l₁ ++ l₂, q.key ≠ keyOf port protocol := by
      constructor
      · intro finds q inRest hit
        obtain ⟨member', other⟩ := listed q inRest
        exact clash ⟨q, inRest, congrArg Prod.fst hit, finds q member' other hit⟩
      · intro fresh q member' other hit
        rw [split, List.perm_middle.mem_iff] at member'
        cases member' with
        | head => cases other rfl
        | tail _ member' => cases fresh q member' hit
    rw [finds_iff]
    constructor
    · intro faithful
      exact distinct_iff.mp faithful.1
    · intro fresh
      have keys' := distinct_iff.mpr fresh
      refine ⟨keys', ?_⟩
      intro p₂ member₂ same
      cases allocated.distinct.eq member₂ member same
      have notHeld :
          ¬ (p.key ≠ keyOf port protocol ∧ mapOf s.list (keyOf port protocol) ≠ none) := by
        rintro ⟨other, held⟩
        apply held
        apply mapOf_eq_none.mpr
        intro q member'
        rw [split, List.perm_middle.mem_iff] at member'
        cases member' with
        | head => exact other
        | tail _ member' => exact fresh q member'
      rw [if_neg notHeld, split, mapOf_without middle, mapOf_middle keys', key, hp']
      exact ⟨rfl, rfl⟩

/-! ## The default list -/

/-- No entry has an old protocol number. -/
def Normal (l : List Service) : Prop := ∀ p ∈ l, protocolOf p.protocol = p.protocol

theorem Normal.add (normal : Normal s.list) (name : List UInt8) (port protocol : Int)
    (string : List UInt8) : Normal (serviceListAdd s name port protocol string).1.list := by
  unfold serviceListAdd
  dsimp only
  split
  · intro p member
    obtain ⟨q, listed, rfl⟩ := List.mem_map.mp member
    split
    · exact normal q listed
    · exact normal q listed
  · intro p member
    cases member with
    | head => exact protocolOf_protocolOf protocol
    | tail _ member => exact normal p member

/-- In a list without old numbers `service_list_add` finds its entry. -/
theorem Normal.add_faithful (normal : Normal s.list) (allocated : Allocated s)
    (keys : Distinct Service.key s.list) (name : List UInt8) (port protocol : Int)
    (string : List UInt8) : Faithful s (.add name port protocol string) := by
  apply (add_faithful_iff allocated keys).mpr
  intro p member hit
  rw [← normal p member]
  exact congrArg Prod.snd hit

theorem default_faithful (s : Services) :
    Distinct Service.key (serviceListDefault s).list ∧
      mapOf (serviceListDefault s).list = defaultMap := by
  unfold serviceListDefault defaultMap
  have normal : Normal ({ s with list := [] } : Services).list := by
    intro p member
    cases member
  have allocated : Allocated { s with list := [] } := by
    constructor
    · exact List.nodup_nil
    · intro p member
      cases member
  have keys : Distinct Service.key ({ s with list := [] } : Services).list := List.nodup_nil
  have map : mapOf ({ s with list := [] } : Services).list = fun _ => none := rfl
  revert normal allocated keys map
  generalize ({ s with list := [] } : Services) = s
  generalize (fun _ => none : ServiceMap) = m
  generalize defaultList = entries
  intro normal allocated keys map
  -- Every call keeps the list free of old numbers, so the next one is faithful as well.
  induction entries generalizing s m with
  | nil => exact ⟨keys, map⟩
  | cons c entries ih =>
    rw [List.foldl_cons, List.foldl_cons]
    obtain ⟨keys', meant, -⟩ := normal.add_faithful allocated keys (text c.1) c.2.1 c.2.2.1
      (text c.2.2.2)
    exact ih _ _ (normal.add _ _ _ _) (allocated.add ..) keys' (map ▸ meant)

theorem get_faithful_iff (keys : Distinct Service.key s.list) {port protocol : Int} :
    Faithful s (.get port protocol) ↔ Finds s (.get port protocol) := by
  unfold Faithful Meant exec serviceListGet Finds
  dsimp only
  by_cases empty : s.list = []
  · rw [if_pos empty, if_pos empty]
    exact iff_of_true (default_faithful s) (.inl empty)
  · rw [if_neg empty, if_neg empty]
    constructor
    · rintro ⟨-, -, reply⟩
      refine .inr fun p member hit => ?_
      rw [← hit, mapOf_key keys member] at reply
      obtain ⟨q, found, -⟩ := Option.map_eq_some_iff.mp reply
      have test := List.find?_some found
      simp only [decide_eq_true_eq] at test
      obtain ⟨rfl, rfl⟩ := test
      rw [keys.eq member (List.mem_of_find?_eq_some found) hit]
    · intro finds
      replace finds := finds.resolve_left empty
      refine ⟨keys, rfl, ?_⟩
      unfold mapOf lookup
      rw [Option.map_map]
      have tests : ∀ p ∈ s.list, decide (port = p.port ∧ protocol = p.protocol) =
          decide (p.key = keyOf port protocol) := by
        intro p member
        apply decide_eq_decide.mpr
        constructor
        · rintro ⟨rfl, rfl⟩
          rfl
        · intro hit
          exact ⟨(congrArg Prod.fst hit).symm, (finds p member hit).symm⟩
      rw [List.find?_congr tests]
      rfl

/-! ## Sequences of calls -/

/-- What holds of the list as long as every call is faithful. -/
structure Inv (s : Services) : Prop where
  allocated : Allocated s
  keys : Distinct Service.key s.list

theorem initial_inv : Inv initial := by
  refine ⟨⟨List.nodup_nil, ?_⟩, List.nodup_nil⟩
  intro p member
  cases member

theorem Inv.faithful_iff (inv : Inv s) {op : Op} (callable : Callable s op) :
    Faithful s op ↔ Finds s op := by
  cases op with
  | add => exact add_faithful_iff inv.allocated inv.keys
  | change => exact change_faithful_iff inv.allocated inv.keys callable
  | remove => exact remove_faithful_iff inv.keys
  | get => exact get_faithful_iff inv.keys

theorem Inv.step (inv : Inv s) {op : Op} (faithful : Faithful s op) : Inv (exec s op) :=
  ⟨inv.allocated.exec op, faithful.1⟩

theorem faithful_run_inv {ops : List Op} (run : Run (Guarded Faithful Step) initial ops s) :
    Inv s := by
  refine run.state_invariant initial_inv ?_
  rintro s op s' inv ⟨faithful, -, rfl⟩
  exact inv.step faithful

/-- The calls of a sequence all do what they are for exactly if each finds the entry that it is
    about. -/
theorem services_refine_iff (ops : List Op) (s : Services) :
    Run (Guarded Faithful Step) initial ops s ↔ Run (Guarded Finds Step) initial ops s := by
  constructor
  · intro run
    induction run with
    | refl => exact .refl
    | snoc run step ih =>
      have inv := faithful_run_inv run
      exact .snoc ih ⟨(inv.faithful_iff step.2.1).mp step.1, step.2⟩
  · intro run
    induction run with
    | refl => exact .refl
    | snoc run step ih =>
      have inv := faithful_run_inv ih
      exact .snoc ih ⟨(inv.faithful_iff step.2.1).mpr step.1, step.2⟩

/-- With both protocols of a port in the list, removing the one removes the other. -/
theorem remove_takes_other :
    let add (protocol : Int) (string : String) : Op := .add (text "dns") 53 protocol (text string)
    let s := [add PORT_PROTOCOL_TCP "tcp", add PORT_PROTOCOL_UDP "udp"].foldl exec initial
    Run Step initial [add PORT_PROTOCOL_TCP "tcp", add PORT_PROTOCOL_UDP "udp"] s ∧
      Callable s (.remove 53 PORT_PROTOCOL_TCP) ∧
      (serviceListGet (exec s (.remove 53 PORT_PROTOCOL_TCP)) 53 PORT_PROTOCOL_TCP).2 =
        some (text "tcp") ∧
      (serviceListGet (exec s (.remove 53 PORT_PROTOCOL_TCP)) 53 PORT_PROTOCOL_UDP).2 = none ∧
      ¬ Faithful s (.remove 53 PORT_PROTOCOL_TCP) := by
  refine ⟨.cons ⟨trivial, rfl⟩ (.single ⟨trivial, rfl⟩), trivial, by decide +kernel,
    by decide +kernel, ?_⟩
  rintro ⟨-, meant⟩
  have left : (mapOf (serviceListRemove
      ([Op.add (text "dns") 53 PORT_PROTOCOL_TCP (text "tcp"),
        Op.add (text "dns") 53 PORT_PROTOCOL_UDP (text "udp")].foldl exec initial)
      53 PORT_PROTOCOL_TCP).list (53, PORT_PROTOCOL_TCP)).isSome := by decide +kernel
  rw [show mapOf _ = _ from meant] at left
  simp [keyOf, protocolOf, PORT_PROTOCOL_TCP] at left

end Cheops.ServiceList
