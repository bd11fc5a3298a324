import Cheops.Lib.Bytes
import Cheops.Lib.Keyed
import Cheops.Lib.Run
import Cheops.Lib.Segment

/-! # OS scans: the names of services (`cheops-osscan.c`)

The GUI keeps the names that scans give to ports in a linked list.  The list is for a map from
ports and protocols to names, where the first name stays.

`remove_service` never sets `prev`, and goes on from an entry that it has freed.
`names_refine_iff` says that the list is the map as long as nothing is removed that is there.
-/

namespace Cheops.OsScan

open Cheops.Lib Cheops.Lib.Keyed

/-! ## The list -/

structure ServiceCache where
  next : Option Nat
  port : UInt16
  protocol : UInt8
  name : List UInt8
deriving DecidableEq, Repr

/-- The entries that are allocated, and `services`. -/
structure Services where
  heap : Nat → Option ServiceCache
  services : Option Nat

def Services.start : Services := ⟨fun _ => none, none⟩

def ServiceCache.key (p : ServiceCache) : UInt16 × UInt8 := (p.port, p.protocol)

/-- The loop of `add_service` and `get_service`.  All loops fail if they read what is not
    allocated, or are longer than `fuel`. -/
def findService (heap : Nat → Option ServiceCache) (port : UInt16) (protocol : UInt8) :
    Nat → Option Nat → Option (Option ServiceCache)
  | _, none => some none
  | 0, some _ => none
  | fuel + 1, some p => do
    let entry ← heap p
    if entry.port = port ∧ entry.protocol = protocol then some (some entry)
    else findService heap port protocol fuel entry.next

/-- `add_service`; `block` is what `malloc` returns. -/
def addService (fuel block : Nat) (port : UInt16) (protocol : UInt8) (name : List UInt8)
    (s : Services) : Option Services := do
  match ← findService s.heap port protocol fuel s.services with
  | some _ => some s
  | none => some {
      heap := Function.update s.heap block (some ⟨s.services, port, protocol, name⟩)
      services := some block }

/-- What `remove_service` does with an entry of the key. -/
def removeEntry (prev : Option Nat) (p : Nat) (entry : ServiceCache) (s : Services) :
    Option Services := do
  let s ← match prev with
    | some prev => do
      let before ← s.heap prev
      some { s with heap := Function.update s.heap prev (some { before with next := entry.next }) }
    | none => some { s with services := entry.next }
  some { s with heap := Function.update s.heap p none }

/-- The loop of `remove_service`, in which `prev` stays what it is. -/
def removeServiceLoop (port : UInt16) (protocol : UInt8) (prev : Option Nat) :
    Nat → Option Nat → Services → Option Services
  | _, none, s => some s
  | 0, some _, _ => none
  | fuel + 1, some p, s => do
    let entry ← s.heap p
    let s ←
      if entry.port = port ∧ entry.protocol = protocol then removeEntry prev p entry s else some s
    -- `p = p->next`, after `free(p)`
    let entry ← s.heap p
    removeServiceLoop port protocol prev fuel entry.next s

def removeService (fuel : Nat) (port : UInt16) (protocol : UInt8) (s : Services) :
    Option Services :=
  removeServiceLoop port protocol none fuel s.services s

/-- The loop of `remove_all_services`. -/
def removeAllLoop : Nat → Option Nat → Services → Option Services
  | _, none, s => some s
  | 0, some _, _ => none
  | fuel + 1, some p, s => do
    let entry ← s.heap p
    let s := { heap := Function.update s.heap p none, services := entry.next }
    removeAllLoop fuel s.services s

def removeAllServices (fuel : Nat) (s : Services) : Option Services :=
  removeAllLoop fuel s.services s

def getService (fuel : Nat) (port : UInt16) (protocol : UInt8) (s : Services) :
    Option (Option (List UInt8)) := do
  let p ← findService s.heap port protocol fuel s.services
  some (p.map (·.name))

/-! ## Sequences of calls -/

inductive ServiceOp where
  | add (block : Nat) (port : UInt16) (protocol : UInt8) (name : List UInt8)
  | remove (port : UInt16) (protocol : UInt8)
  | removeAll
  | get (port : UInt16) (protocol : UInt8)
deriving DecidableEq, Repr

def execService (fuel : Nat) (s : Services) : ServiceOp → Option (Services × Option (List UInt8))
  | .add block port protocol name =>
    (addService fuel block port protocol name s).map fun s => (s, none)
  | .remove port protocol => (removeService fuel port protocol s).map fun s => (s, none)
  | .removeAll => (removeAllServices fuel s).map fun s => (s, none)
  | .get port protocol => (getService fuel port protocol s).map fun name => (s, name)

/-- `malloc` returns memory that is not in use. -/
def Allocates (s : Services) : ServiceOp → Prop
  | .add block .. => s.heap block = none
  | _ => True

def Returns (s : Services) (op : ServiceOp) (result : Services × Option (List UInt8)) : Prop :=
  ∃ n, ∀ fuel, n ≤ fuel → execService fuel s op = some result

def ServiceStep (s : Services) (op : ServiceOp) (s' : Services) : Prop :=
  Allocates s op ∧ ∃ name, Returns s op (s', name)

/-! ## The map -/

abbrev ServiceNames := UInt16 × UInt8 → Option (List UInt8)

def mapService (m : ServiceNames) : ServiceOp → ServiceNames × Option (List UInt8)
  | .add _ port protocol name =>
    match m (port, protocol) with
    | some _ => (m, none)
    | none => (Function.update m (port, protocol) (some name), none)
  | .remove port protocol => (Function.update m (port, protocol) none, none)
  | .removeAll => (fun _ => none, none)
  | .get port protocol => (m, m (port, protocol))

def mapAfter (ops : List ServiceOp) : ServiceNames :=
  ops.foldl (fun m op => (mapService m op).1) fun _ => none

def entriesAt (heap : Nat → Option ServiceCache) (xs : List Nat) : List ServiceCache :=
  xs.filterMap heap

/-- The list ends, and its entries are those of the map. -/
def Services.Refines (s : Services) (m : ServiceNames) : Prop :=
  ∃ xs, Seg s.heap ServiceCache.next s.services xs none ∧
    ∀ k, m k = (lookup ServiceCache.key (entriesAt s.heap xs) k).map (·.name)

/-- The call returns what the map has, and leaves the list of the new map; a key that is there is
    not added. -/
def Meets (s : Services) (m : ServiceNames) (op : ServiceOp) : Prop :=
  ∃ s', Returns s op (s', (mapService m op).2) ∧ s'.Refines (mapService m op).1 ∧
    ∀ block port protocol name, op = .add block port protocol name →
      (m (port, protocol)).isSome → s' = s

def Services.Holds (s : Services) (port : UInt16) (protocol : UInt8) : Prop :=
  ∃ xs, Seg s.heap ServiceCache.next s.services xs none ∧
    ∃ x ∈ xs, (s.heap x).map (·.key) = some (port, protocol)

def Spares (s : Services) : ServiceOp → Prop
  | .remove port protocol => ¬ s.Holds port protocol
  | _ => True

/-! ## Walks -/

section Walks

variable {s s' : Services} {m : ServiceNames} {heap : Nat → Option ServiceCache} {p : Option Nat}
  {xs : List Nat} {port : UInt16} {protocol : UInt8} {fuel : Nat} {entry : ServiceCache}

theorem entriesAt_cons {x : Nat} (here : heap x = some entry) :
    entriesAt heap (x :: xs) = entry :: entriesAt heap xs := by
  rw [entriesAt, List.filterMap_cons, here]
  rfl

theorem lookup_cons (k : UInt16 × UInt8) (l : List ServiceCache) :
    lookup ServiceCache.key (entry :: l) k =
      if entry.key = k then some entry else lookup ServiceCache.key l k := by
  unfold lookup
  rw [List.find?_cons]
  by_cases same : entry.key = k
  case pos => simp [same]
  case neg => simp [same]

theorem key_eq : entry.key = (port, protocol) ↔ entry.port = port ∧ entry.protocol = protocol := by
  rw [ServiceCache.key, Prod.mk.injEq]

/-- Entries that are not in the list may change. -/
theorem entriesAt_update {x : Nat} (apart : x ∉ xs) (a : Option ServiceCache) :
    entriesAt (Function.update heap x a) xs = entriesAt heap xs :=
  List.filterMap_congr fun _ member =>
    Function.update_of_ne (ne_of_mem_of_not_mem member apart) a heap

theorem findService_eq (seg : Seg heap ServiceCache.next p xs none) (enough : xs.length ≤ fuel) :
    findService heap port protocol fuel p =
      some (lookup ServiceCache.key (entriesAt heap xs) (port, protocol)) := by
  induction xs generalizing p fuel with
  | nil =>
    obtain rfl : p = none := seg
    unfold findService
    rfl
  | cons x xs ih =>
    obtain ⟨rfl, entry, here, rest⟩ := seg
    obtain ⟨fuel, rfl⟩ := Nat.exists_eq_add_one_of_ne_zero (Nat.ne_zero_of_lt enough)
    rw [findService, entriesAt_cons here, lookup_cons, here]
    simp only [bind, Option.bind_some, key_eq]
    split
    · rfl
    · exact ih rest (Nat.le_of_succ_le_succ enough)

/-- Nothing happens if no entry has the key. -/
theorem removeServiceLoop_absent {prev : Option Nat}
    (seg : Seg s.heap ServiceCache.next p xs none) (enough : xs.length ≤ fuel)
    (absent : lookup ServiceCache.key (entriesAt s.heap xs) (port, protocol) = none) :
    removeServiceLoop port protocol prev fuel p s = some s := by
  induction xs generalizing p fuel with
  | nil =>
    obtain rfl : p = none := seg
    unfold removeServiceLoop
    rfl
  | cons x xs ih =>
    obtain ⟨rfl, entry, here, rest⟩ := seg
    obtain ⟨fuel, rfl⟩ := Nat.exists_eq_add_one_of_ne_zero (Nat.ne_zero_of_lt enough)
    rw [entriesAt_cons here, lookup_cons] at absent
    split at absent
    case isTrue => cases absent
    case isFalse other =>
      rw [key_eq] at other
      rw [removeServiceLoop, here]
      simp only [bind, Option.bind_some, if_neg other, here]
      exact ih rest (Nat.le_of_succ_le_succ enough) absent

/-- The loop unlinks the first entry of the key, frees it, and reads it. -/
theorem removeServiceLoop_present (seg : Seg s.heap ServiceCache.next p xs none)
    (present : lookup ServiceCache.key (entriesAt s.heap xs) (port, protocol) = some entry) :
    removeServiceLoop port protocol none fuel p s = none := by
  induction xs generalizing p fuel with
  | nil => cases present
  | cons x xs ih =>
    obtain ⟨rfl, entry', here, rest⟩ := seg
    cases fuel with
    | zero => rw [removeServiceLoop]
    | succ fuel =>
      rw [entriesAt_cons here, lookup_cons] at present
      rw [removeServiceLoop, here]
      split at present
      case isTrue same =>
        rw [key_eq] at same
        simp [same, removeEntry]
      case isFalse other =>
        rw [key_eq] at other
        simp only [bind, Option.bind_some, if_neg other, here]
        exact ih rest present

/-- What is left of the list when the freed entry is read: the entries in front of it are lost. -/
theorem removeEntry_drops {front back : List Nat} {x : Nat}
    (seg : Seg s.heap ServiceCache.next s.services (front ++ x :: back) none)
    (here : s.heap x = some entry) :
    ∃ s', removeEntry none x entry s = some s' ∧
      Seg s'.heap ServiceCache.next s'.services back none ∧
      entriesAt s'.heap back = entriesAt s.heap back := by
  obtain ⟨q, -, rfl, entry', here', rest⟩ := Seg.append_iff.mp seg
  cases here.symm.trans here'
  have alone : x ∉ back := (List.nodup_cons.mp (List.nodup_append.mp seg.nodup).2.1).1
  exact ⟨_, rfl, rest.update alone none, entriesAt_update alone none⟩

theorem removeAllLoop_eq (seg : Seg s.heap ServiceCache.next p xs none) (here : s.services = p) :
    ∃ s', s'.services = none ∧ ∀ fuel, xs.length ≤ fuel → removeAllLoop fuel p s = some s' := by
  induction xs generalizing s p with
  | nil =>
    obtain rfl : p = none := seg
    refine ⟨s, here, fun fuel _ => ?_⟩
    unfold removeAllLoop
    rfl
  | cons x xs ih =>
    have nodup := List.nodup_cons.mp seg.nodup
    obtain ⟨rfl, entry, allocated, rest⟩ := seg
    obtain ⟨s', empty, runs⟩ :=
      ih (s := ⟨Function.update s.heap x none, entry.next⟩) (rest.update nodup.1 none) rfl
    refine ⟨s', empty, fun fuel enough => ?_⟩
    obtain ⟨fuel, rfl⟩ := Nat.exists_eq_add_one_of_ne_zero (Nat.ne_zero_of_lt enough)
    rw [removeAllLoop, allocated]
    exact runs fuel (Nat.le_of_succ_le_succ enough)

/-! ## Calls -/

theorem start_refines : Services.start.Refines fun _ => none := ⟨[], rfl, fun _ => rfl⟩

theorem Services.Refines.holds_iff (refines : s.Refines m) :
    s.Holds port protocol ↔ (m (port, protocol)).isSome := by
  obtain ⟨xs, seg, content⟩ := refines
  rw [content, Option.isSome_map, Option.isSome_iff_ne_none, ne_eq, lookup_eq_none]
  push Not
  constructor
  · rintro ⟨ys, seg', x, listed, key⟩
    cases seg.unique seg'
    obtain ⟨entry, here, same⟩ := Option.map_eq_some_iff.mp key
    exact ⟨entry, List.mem_filterMap.mpr ⟨x, listed, here⟩, same⟩
  · rintro ⟨entry, member, same⟩
    obtain ⟨x, listed, here⟩ := List.mem_filterMap.mp member
    exact ⟨xs, seg, x, listed, by rw [here, Option.map_some, same]⟩

theorem add_meets (refines : s.Refines m) {block : Nat} {name : List UInt8}
    (free : s.heap block = none) : Meets s m (.add block port protocol name) := by
  obtain ⟨xs, seg, content⟩ := refines
  have found {fuel : Nat} (enough : xs.length ≤ fuel) :
      findService s.heap port protocol fuel s.services =
        some (lookup ServiceCache.key (entriesAt s.heap xs) (port, protocol)) :=
    findService_eq seg enough
  cases there : lookup ServiceCache.key (entriesAt s.heap xs) (port, protocol) with
  | some entry =>
    have known : m (port, protocol) = some entry.name := by rw [content, there, Option.map_some]
    refine ⟨s, ⟨xs.length, fun fuel enough => ?_⟩, ?_, fun _ _ _ _ _ _ => rfl⟩
    · rw [execService, addService, found enough, there]
      simp only [mapService, known]
      rfl
    · simp only [mapService, known]
      exact ⟨xs, seg, content⟩
  | none =>
    have unknown : m (port, protocol) = none := by rw [content, there, Option.map_none]
    have fresh : block ∉ xs := seg.fresh free
    refine ⟨⟨Function.update s.heap block (some ⟨s.services, port, protocol, name⟩), some block⟩,
      ⟨xs.length, fun fuel enough => ?_⟩, ?_, ?_⟩
    · rw [execService, addService, found enough, there]
      simp only [mapService, unknown]
      rfl
    · simp only [mapService, unknown]
      refine ⟨block :: xs, ⟨rfl, _, Function.update_self .., ?_⟩, fun k => ?_⟩
      · exact seg.update fresh _
      · rw [entriesAt_cons (Function.update_self ..), lookup_cons, entriesAt_update fresh]
        by_cases same : k = (port, protocol)
        case pos => simp [same, ServiceCache.key]
        case neg =>
          rw [Function.update_of_ne same, if_neg (fun eq => same eq.symm), content]
    · rintro _ _ _ _ ⟨⟩ known
      rw [unknown] at known
      cases known

theorem get_meets (refines : s.Refines m) : Meets s m (.get port protocol) := by
  obtain ⟨xs, seg, content⟩ := refines
  refine ⟨s, ⟨xs.length, fun fuel enough => ?_⟩, ⟨xs, seg, content⟩, ?_⟩
  · rw [execService, getService, findService_eq seg enough]
    simp only [mapService, content]
    rfl
  · intro _ _ _ _ _ _
    rfl

theorem removeAll_meets (refines : s.Refines m) : Meets s m .removeAll := by
  obtain ⟨xs, seg, -⟩ := refines
  obtain ⟨s', empty, runs⟩ := removeAllLoop_eq seg rfl
  refine ⟨s', ⟨xs.length, fun fuel enough => ?_⟩, ⟨[], empty, fun _ => rfl⟩, ?_⟩
  · rw [execService, removeAllServices, runs fuel enough]
    rfl
  · rintro _ _ _ _ ⟨⟩

theorem remove_meets_iff (refines : s.Refines m) :
    Meets s m (.remove port protocol) ↔ ¬ s.Holds port protocol := by
  rw [refines.holds_iff, Bool.not_eq_true, Option.isSome_eq_false_iff, Option.isNone_iff_eq_none]
  obtain ⟨xs, seg, content⟩ := refines
  constructor
  · rintro ⟨s', ⟨n, runs⟩, -⟩
    -- the call would end with enough fuel, but fails with any
    by_contra present
    rw [content, Option.map_eq_none_iff, ← ne_eq, Option.ne_none_iff_exists'] at present
    obtain ⟨entry, present⟩ := present
    have fails := runs n (Nat.le_refl n)
    rw [execService, removeService, removeServiceLoop_present seg present] at fails
    cases fails
  · intro absent
    have nothing : Function.update m (port, protocol) none = m :=
      Function.update_eq_self_iff.mpr absent.symm
    rw [content, Option.map_eq_none_iff] at absent
    refine ⟨s, ⟨xs.length, fun fuel enough => ?_⟩, ?_, fun _ _ _ _ _ _ => rfl⟩
    · rw [execService, removeService, removeServiceLoop_absent seg enough absent]
      rfl
    · rw [mapService, nothing]
      exact ⟨xs, seg, content⟩

theorem Services.Refines.meets_iff (refines : s.Refines m) {op : ServiceOp}
    (allocates : Allocates s op) : Meets s m op ↔ Spares s op := by
  cases op with
  | add block port protocol name => exact iff_of_true (add_meets refines allocates) trivial
  | remove port protocol => exact remove_meets_iff refines
  | removeAll => exact iff_of_true (removeAll_meets refines) trivial
  | get port protocol => exact iff_of_true (get_meets refines) trivial

theorem Returns.unique {op : ServiceOp} {a b : Services × Option (List UInt8)}
    (returns : Returns s op a) (returns' : Returns s op b) : a = b := by
  obtain ⟨n, runs⟩ := returns
  obtain ⟨n', runs'⟩ := returns'
  have both := (runs (max n n') (Nat.le_max_left _ _)).symm.trans
    (runs' (max n n') (Nat.le_max_right _ _))
  exact Option.some.inj both

theorem Meets.refines {op : ServiceOp} (meets : Meets s m op) (step : ServiceStep s op s') :
    s'.Refines (mapService m op).1 := by
  obtain ⟨t, returns, refines, -⟩ := meets
  obtain ⟨-, name, returns'⟩ := step
  cases returns.unique returns'
  exact refines

end Walks

theorem run_refines {ops : List ServiceOp} {s : Services}
    (run : Run (Guarded Spares ServiceStep) Services.start ops s) : s.Refines (mapAfter ops) := by
  refine run.invariant (I := fun ops s => s.Refines (mapAfter ops)) start_refines ?_
  intro ops s op s' _ refines step
  obtain ⟨spares, step⟩ := step
  rw [mapAfter, List.foldl_append]
  exact ((refines.meets_iff step.1).mpr spares).refines step

/-- As long as nothing is removed that is there, the list is the map of the calls so far; and then
    a call does what it does to the map if and only if it removes nothing that is there. -/
theorem names_refine_iff {ops : List ServiceOp} {s : Services}
    (run : Run (Guarded Spares ServiceStep) Services.start ops s) :
    s.Refines (mapAfter ops) ∧
      ∀ op, Allocates s op → (Meets s (mapAfter ops) op ↔ Spares s op) := by
  have refines := run_refines run
  exact ⟨refines, fun op allocates => refines.meets_iff allocates⟩

def twoServices : List ServiceOp := [.add 0 80 6 (text "http"), .add 1 22 6 (text "ssh")]

def twoEntries : Services where
  heap :=
    Function.update (Function.update Services.start.heap 0 (some ⟨none, 80, 6, text "http"⟩)) 1
      (some ⟨some 0, 22, 6, text "ssh"⟩)
  services := some 1

theorem twoEntries_run :
    Run (Guarded Spares ServiceStep) Services.start twoServices twoEntries := by
  let one : Services :=
    ⟨Function.update Services.start.heap 0 (some ⟨none, 80, 6, text "http"⟩), some 0⟩
  have first : ServiceStep Services.start (.add 0 80 6 (text "http")) one := by
    refine ⟨rfl, none, 1, fun fuel enough => ?_⟩
    obtain ⟨k, rfl⟩ := Nat.exists_eq_add_of_le' enough
    rfl
  have second : ServiceStep one (.add 1 22 6 (text "ssh")) twoEntries := by
    refine ⟨rfl, none, 2, fun fuel enough => ?_⟩
    obtain ⟨k, rfl⟩ := Nat.exists_eq_add_of_le' enough
    rfl
  exact (Run.single ⟨trivial, first⟩).snoc ⟨trivial, second⟩

theorem twoEntries_seg : Seg twoEntries.heap ServiceCache.next twoEntries.services [1, 0] none :=
  ⟨rfl, _, rfl, rfl, _, rfl, rfl⟩

def moreCalls : List ServiceOp := twoServices ++ [.add 2 80 6 (text "www"), .remove 443 6]

/-- The first name stays. -/
theorem names_refine_iff_first :
    ∃ s, Run (Guarded Spares ServiceStep) Services.start moreCalls s ∧
      s.Refines (mapAfter moreCalls) ∧
      mapAfter moreCalls (80, 6) = some (text "http") ∧ Meets s (mapAfter moreCalls) (.get 80 6) ∧
      ¬ Meets s (mapAfter moreCalls) (.remove 22 6) := by
  have again : ServiceStep twoEntries (.add 2 80 6 (text "www")) twoEntries := by
    refine ⟨rfl, none, 2, fun fuel enough => ?_⟩
    obtain ⟨k, rfl⟩ := Nat.exists_eq_add_of_le' enough
    rfl
  have present : Spares twoEntries (.add 2 80 6 (text "www")) := trivial
  have removes : ServiceStep twoEntries (.remove 443 6) twoEntries := by
    refine ⟨trivial, none, 2, fun fuel enough => ?_⟩
    rw [execService, removeService, removeServiceLoop_absent twoEntries_seg enough (by decide)]
    rfl
  have absent : Spares twoEntries (.remove 443 6) := by
    rintro ⟨xs, seg, x, member, key⟩
    obtain rfl := seg.unique twoEntries_seg
    fin_cases member <;> cases key
  have run : Run (Guarded Spares ServiceStep) Services.start moreCalls twoEntries :=
    (twoEntries_run.snoc ⟨present, again⟩).snoc ⟨absent, removes⟩
  obtain ⟨refines, meets⟩ := names_refine_iff run
  refine ⟨_, run, refines, by decide, (meets (.get 80 6) trivial).mpr trivial, ?_⟩
  exact mt (meets (.remove 22 6) trivial).mp (not_not.mpr ⟨[1, 0], twoEntries_seg, 1, .head _, rfl⟩)

/-- The older one is removed.  The call reads the entry that it has freed, and the younger one is
    lost before. -/
theorem remove_service_loses :
    ∃ s, Run ServiceStep Services.start twoServices s ∧ s.Refines (mapAfter twoServices) ∧
      mapAfter (twoServices ++ [.remove 80 6]) (22, 6) = some (text "ssh") ∧
      ¬ Meets s (mapAfter twoServices) (.remove 80 6) ∧
      (∀ fuel, removeService fuel 80 6 s = none) ∧
      ∃ entry s', s.heap 0 = some entry ∧ removeEntry none 0 entry s = some s' ∧
        s'.services = none := by
  have refines := run_refines twoEntries_run
  refine ⟨twoEntries, twoEntries_run.of_guarded, refines, by decide, ?_, fun fuel => ?_, _, _, rfl,
    rfl, rfl⟩
  · exact mt (remove_meets_iff refines).mp
      (not_not.mpr ⟨[1, 0], twoEntries_seg, 0, by simp, rfl⟩)
  · exact removeServiceLoop_present twoEntries_seg
      (show _ = some (⟨none, 80, 6, text "http"⟩ : ServiceCache) from rfl)

end Cheops.OsScan
