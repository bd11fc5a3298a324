import Cheops.Gui.ConfigGraph

/-! # The graph is restored

`read_config_file` makes the calls that it has read on a page whose hosts have been restored.  Each
host of the page is the `twin` of the one with its address on the page that has been written.

The number of a host in its group is not counted up when the group is written, so only the last host
of a group comes back with its primary (`graph_restored_iff`).  Later saves lose nothing more
(`saved_again`).
-/

namespace Cheops.Gui.ConfigGraph

open Cheops.Lib Cheops.Canvas
open Config (Section)

/-! ## The calls are made -/

section Replay

variable {np np' : NetPage} {s : Shape} {fuel : Nat} {hosts : List Nat}
  {calls all : List (Nat × Nat)} {own : Nat → Nat}

/-- All groups are merged. -/
theorem merges_run {target : Nat → Nat} (merging : Merging hosts (fun _ => none) target calls np s)
    (enough : hosts.length ≤ fuel) :
    (∃ np', Run (CallStep fuel) np (calls.map fun call => .merge call.1 call.2) np') ∧
    ∀ np', Run (CallStep fuel) np (calls.map fun call => .merge call.1 call.2) np' →
      ∃ s', Merging hosts (fun _ => none) target [] np' s' := by
  let I (ls : List Call) (np : NetPage) : Prop :=
    ∃ calls s, ls = calls.map (fun call => .merge call.1 call.2) ∧
      Merging hosts (fun _ => none) target calls np s
  have next : ∀ l ls np, I (l :: ls) np →
      (∃ np', CallStep fuel np l np') ∧ ∀ np', CallStep fuel np l np' → I ls np' := by
    rintro l ls np ⟨_ | ⟨call, calls⟩, s, labels, merging⟩
    · cases labels
    cases labels
    obtain ⟨np', s', run, merging'⟩ := merging.step enough
    refine ⟨⟨np', run⟩, fun np'' run' => ?_⟩
    cases run.symm.trans run'
    exact ⟨calls, s', rfl, merging'⟩
  obtain ⟨possible, done⟩ := Run.follow (I := I) ⟨calls, s, rfl, merging⟩ next
  refine ⟨possible, fun np' run => ?_⟩
  obtain ⟨rest, s', none, merging'⟩ := done np' run
  rw [List.map_eq_nil_iff.mp none.symm] at merging'
  exact ⟨s', merging'⟩

/-- The ends of the links after two hosts have been linked. -/
theorem remap_ends {E : Nat → Option (Nat × Nat)} {a b pol : Nat}
    (free : E pol = none ∨ Joins a b (E pol)) (ends : Nat × Nat) :
    (∃ x, remap a b pol E x = some ends) ↔
      ends = (a, b) ∨ ¬ Joins a b (some ends) ∧ ∃ x, E x = some ends := by
  constructor
  · rintro ⟨x, at_⟩
    unfold remap at at_
    by_cases here : x = pol
    case pos =>
      rw [here, Function.update_self] at at_
      exact .inl (Option.some.inj at_).symm
    case neg =>
      rw [Function.update_of_ne here] at at_
      split at at_
      · cases at_
      next other => exact .inr ⟨at_ ▸ other, x, at_⟩
  · rintro (rfl | ⟨other, x, at_⟩)
    · exact ⟨pol, Function.update_self ..⟩
    · have here : x ≠ pol := by
        rintro rfl
        rcases free with none | joins
        · exact absurd (at_.symm.trans none) nofun
        · exact other (at_ ▸ joins)
      refine ⟨x, ?_⟩
      rw [remap, Function.update_of_ne here, at_, if_neg other]

/-- The page can make the links of `calls`, and then has those of `all`. -/
structure Mapping (hosts : List Nat) (own : Nat → Nat) (all calls : List (Nat × Nat))
    (np : NetPage) (s : Shape) : Prop where
  formed : Formed np s
  pageObjects : np.pageObjects = hosts
  own : s.own = own
  listed : ∀ call ∈ calls, call.1 ∈ hosts ∧ call.2 ∈ hosts ∧ call.1 ≠ call.2
  links : ∀ ends, ends ∈ all ↔ ends ∈ calls ∨ ∃ pol, np.realEnds pol = some ends

theorem Mapping.step (fuel : Nat) {call : Nat × Nat}
    (mapping : Mapping hosts own all (call :: calls) np s)
    (oneWay : ∀ a b, (a, b) ∈ all → (b, a) ∉ all) :
    (∃ np', CallStep fuel np (.map call.1 call.2) np') ∧
    ∀ np', CallStep fuel np (.map call.1 call.2) np' → Mapping hosts own all calls np' s := by
  obtain ⟨⟨listed, listed2, other⟩, later⟩ := List.forall_mem_cons.mp mapping.listed
  have pageObjects := mapping.pageObjects
  constructor
  · obtain ⟨pol, free⟩ := mapping.formed.free
    have permitted : (Op.map call.1 call.2 pol).Permitted np := fun _ _ _ => .inl free
    obtain ⟨np', run, -⟩ := mapping.formed.map permitted
    exact ⟨np', pol, permitted, run⟩
  · rintro np' ⟨pol, permitted, run⟩
    obtain ⟨np₁, run₁, formed', pageObjects', realEnds'⟩ := mapping.formed.map permitted
    cases run.symm.trans run₁
    refine ⟨formed', pageObjects'.trans pageObjects, mapping.own, later, fun ends => ?_⟩
    rw [← pageObjects] at listed listed2
    have free : np.realEnds pol = none ∨ Joins call.1 call.2 (np.realEnds pol) := by
      refine (permitted listed listed2 other).imp_left fun none => ?_
      rw [NetPage.realEnds, none, Option.map_none]
    rw [realEnds', Op.ends, if_pos ⟨listed, listed2, other⟩, remap_ends free, mapping.links ends,
      List.mem_cons]
    have linked : call ∈ all := (mapping.links call).mpr (.inl (.head _))
    constructor
    · rintro ((here | later) | old)
      · exact .inr (.inl here)
      · exact .inl later
      · by_cases joins : Joins call.1 call.2 (some ends)
        case neg => exact .inr (.inr ⟨joins, old⟩)
        case pos =>
          rcases joins with same | turned
          · exact .inr (.inl (Option.some.inj same))
          · have back : ends ∈ all := (mapping.links ends).mpr (.inr old)
            rw [Option.some.inj turned] at back
            exact absurd linked (oneWay _ _ back)
    · rintro (later | here | ⟨-, old⟩)
      · exact .inl (.inr later)
      · exact .inl (.inl here)
      · exact .inr old

/-- All links are made. -/
theorem maps_run (fuel : Nat) (mapping : Mapping hosts own all calls np s)
    (oneWay : ∀ a b, (a, b) ∈ all → (b, a) ∉ all) :
    (∃ np', Run (CallStep fuel) np (calls.map fun call => .map call.1 call.2) np') ∧
    ∀ np', Run (CallStep fuel) np (calls.map fun call => .map call.1 call.2) np' →
      Mapping hosts own all [] np' s := by
  let I (ls : List Call) (np : NetPage) : Prop :=
    ∃ calls, ls = calls.map (fun call => .map call.1 call.2) ∧ Mapping hosts own all calls np s
  have next : ∀ l ls np, I (l :: ls) np →
      (∃ np', CallStep fuel np l np') ∧ ∀ np', CallStep fuel np l np' → I ls np' := by
    rintro l ls np ⟨_ | ⟨call, calls⟩, labels, mapping⟩
    · cases labels
    cases labels
    obtain ⟨possible, keeps⟩ := mapping.step fuel oneWay
    exact ⟨possible, fun np' step => ⟨calls, rfl, keeps np' step⟩⟩
  obtain ⟨possible, done⟩ := Run.follow (I := I) ⟨calls, rfl, mapping⟩ next
  refine ⟨possible, fun np' run => ?_⟩
  obtain ⟨rest, none, mapping'⟩ := done np' run
  rwa [List.map_eq_nil_iff.mp none.symm] at mapping'

end Replay

/-! ## The graph comes back -/

section Hosts

variable {c c' : Section} {j : Nat}

/-- The hosts are read from their keys only. -/
theorem readPorts_congr (same : ∀ key : Config.Key, c key.text = c' key.text)
    (turns portCount : Nat) : Config.readPorts c j turns portCount =
      Config.readPorts c' j turns portCount := by
  induction turns generalizing portCount with
  | zero => rfl
  | succ turns ih =>
    have port : Config.readPort c j portCount = Config.readPort c' j portCount := by
      unfold Config.readPort Config.getInt Config.getString
      simp only [same]
    rw [Config.readPorts, Config.readPorts, port, ih]

theorem readHosts_congr (same : ∀ key : Config.Key, c key.text = c' key.text)
    (portTurns turns : Nat) (np : List Config.PageObject) :
    Config.readHosts c portTurns turns j np = Config.readHosts c' portTurns turns j np := by
  induction turns generalizing j np with
  | zero => rfl
  | succ turns ih =>
    rw [Config.readHosts, Config.readHosts]
    simp only [Config.getString, same, readPorts_congr same, ih]

end Hosts

/-- A page whose hosts have the addresses `ips`, and are not merged or linked yet. -/
structure View.Fresh (np : View) (ips : List (BitVec 32)) : Prop where
  graph : np.page.MergeGraph
  ips : np.page.pageObjects.map np.ip = ips
  objects : ∀ h o, np.page.objects h = some o → o = ⟨none, none, []⟩
  links : ∀ pol, np.page.links pol = none

def View.Owned (np : View) (x y : BitVec 32) : Prop :=
  ∃ h ∈ np.page.pageObjects, np.ip h = x ∧ np.ip (np.page.owner h) = y

instance (np : View) (x y : BitVec 32) : Decidable (np.Owned x y) :=
  inferInstanceAs (Decidable (∃ h ∈ np.page.pageObjects, np.ip h = x ∧ np.ip (np.page.owner h) = y))

def View.Linked (np : View) (x y : BitVec 32) : Prop :=
  ∃ pol a b, np.page.realEnds pol = some (a, b) ∧ np.ip a = x ∧ np.ip b = y

/-- No group has more than one host besides its primary. -/
def Pairs (np : NetPage) : Prop :=
  ∀ a ∈ np.pageObjects, ∀ b ∈ np.pageObjects, np.owner a = np.owner b →
    np.owner a ≠ a → np.owner b ≠ b → a = b

/-! ### The hosts that are found -/

section Found

variable {v v₀ : View} {s : Shape} {ips : List (BitVec 32)}

theorem View.getByIp_mem {h : Nat} (distinct : (v.page.pageObjects.map v.ip).Nodup)
    (member : h ∈ v.page.pageObjects) : v.getByIp (v.ip h) = some h := by
  unfold View.getByIp
  cases found : v.page.pageObjects.find? (v.ip · = v.ip h) with
  | none =>
    have absent := List.find?_eq_none.mp found h member
    exact absurd (decide_eq_true rfl) absent
  | some x =>
    have same : v.ip x = v.ip h := by simpa using List.find?_some found
    rw [List.inj_on_of_nodup_map distinct (List.mem_of_find?_eq_some found) member same]

def View.twin (v₀ v : View) (h : Nat) : Nat := (v₀.getByIp (v.ip h)).getD 0

variable (shown : v.page.pageObjects.map v.ip = ips) (fresh : v₀.Fresh ips.reverse)
  (distinct : ips.Nodup)

include shown fresh distinct

theorem twin_found {h : Nat} (member : h ∈ v.page.pageObjects) :
    v₀.getByIp (v.ip h) = some (v₀.twin v h) ∧ v₀.twin v h ∈ v₀.page.pageObjects ∧
      v₀.ip (v₀.twin v h) = v.ip h := by
  have listed : v.ip h ∈ v₀.page.pageObjects.map v₀.ip := by
    rw [fresh.ips, List.mem_reverse, ← shown]
    exact List.mem_map_of_mem member
  obtain ⟨h', member', same⟩ := List.mem_map.mp listed
  have nodup : (v₀.page.pageObjects.map v₀.ip).Nodup := by
    rw [fresh.ips]
    exact List.nodup_reverse.mpr distinct
  have found := v₀.getByIp_mem nodup member'
  rw [same] at found
  rw [View.twin, found, Option.getD_some]
  exact ⟨rfl, member', same⟩

theorem twin_injective {a b : Nat} (member : a ∈ v.page.pageObjects)
    (member' : b ∈ v.page.pageObjects) (same : v₀.twin v a = v₀.twin v b) : a = b := by
  obtain ⟨-, -, ip⟩ := twin_found shown fresh distinct member
  obtain ⟨-, -, ip'⟩ := twin_found shown fresh distinct member'
  rw [same, ip'] at ip
  exact List.inj_on_of_nodup_map (shown ▸ distinct) member member' ip.symm

/-- Every host of the restored page is the twin of one that has been written. -/
theorem twin_surjective {h' : Nat} (member' : h' ∈ v₀.page.pageObjects) :
    ∃ h ∈ v.page.pageObjects, v₀.twin v h = h' ∧ v.ip h = v₀.ip h' := by
  have listed : v₀.ip h' ∈ v.page.pageObjects.map v.ip := by
    rw [shown, ← List.mem_reverse, ← fresh.ips]
    exact List.mem_map_of_mem member'
  obtain ⟨h, member, same⟩ := List.mem_map.mp listed
  obtain ⟨-, twin, ip⟩ := twin_found shown fresh distinct member
  have nodup : (v₀.page.pageObjects.map v₀.ip).Nodup := by
    rw [fresh.ips]
    exact List.nodup_reverse.mpr distinct
  exact ⟨h, member, List.inj_on_of_nodup_map nodup twin member' (ip.trans same), same⟩

end Found

/-! ### The calls for a page -/

def lastOf (s : Shape) (p : Nat) : Nat := (s.members p).getLast?.getD p

def leaders (s : Shape) (np : NetPage) : List Nat := np.pageObjects.filter fun p => Leads s p

/-- The owner that a host comes back with. -/
def ownRead (s : Shape) (h : Nat) : Nat := if h = lastOf s (s.own h) then s.own h else h

theorem mem_leaders {np : NetPage} {s : Shape} {p : Nat} :
    p ∈ leaders s np ↔ p ∈ np.pageObjects ∧ Leads s p := by
  rw [leaders, List.mem_filter, decide_eq_true_eq]

theorem lastOf_mem {s : Shape} {p : Nat} (leads : Leads s p) : lastOf s p ∈ s.members p := by
  rw [lastOf, List.getLast?_eq_some_getLast leads.2, Option.getD_some]
  exact List.getLast_mem leads.2

theorem leader_last {np : NetPage} {s : Shape} (formed : Formed np s) {p : Nat}
    (member : p ∈ leaders s np) :
    lastOf s p ∈ np.pageObjects ∧ s.own (lastOf s p) = p ∧ lastOf s p ≠ p := by
  obtain ⟨listed, leads⟩ := mem_leaders.mp member
  have inside := lastOf_mem leads
  exact ⟨formed.has.members_alive listed leads.1 _ inside,
    (formed.has.members p listed leads.1).2 _ inside⟩

theorem ownRead_mem {np : NetPage} {s : Shape} (formed : Formed np s) {h : Nat}
    (member : h ∈ np.pageObjects) : ownRead s h ∈ np.pageObjects := by
  unfold ownRead
  split
  · exact formed.has.own_mem member
  · exact member

/-- The hosts of a page that has been restored are in no group. -/
theorem View.Fresh.own {v₀ : View} {s₀ : Shape} {ips : List (BitVec 32)} (fresh : v₀.Fresh ips)
    (formed₀ : Formed v₀.page s₀) {h : Nat} (member : h ∈ v₀.page.pageObjects) :
    s₀.own h = h := by
  obtain ⟨o, object⟩ := (formed₀.has.alive h).mp member
  have owner := formed₀.has.owner h o object
  rw [fresh.objects h o object] at owner
  exact owner.symm

section Calls

variable {v v₀ : View} {s : Shape} {hosts : Config.NetPage} {fuel : Nat}
  {c : Section} {merged : List Nat} {pols : List PageObjectLink}

/-- Each group is merged from its primary and its last host. -/
theorem readMerges_stored (empty : ∀ key : Key, c key.text = none) {φ : Nat → Nat}
    (found : ∀ p ∈ merged, v₀.getByIp (v.ip p) = some (φ p) ∧
      v₀.getByIp (v.ip (lastOf s p)) = some (φ (lastOf s p))) {turns : Nat}
    (enough : merged.length < turns) (secondaryTurns : Nat) :
    readMerges v₀ (stored c v.ip (merged.map fun p => p :: s.members p) pols)
        (secondaryTurns + 2) turns 0 =
      some ((merged.map fun p => (φ p, φ (lastOf s p))).map fun call => .merge call.1 call.2) := by
  refine readMerges_eq (fun i => ?_) (fun i => ?_) (fun i => ?_) ?_ secondaryTurns
  · have text : stored c v.ip (merged.map fun p => p :: s.members p) pols (Key.primary i).text =
        _ := stored_primary empty
    rw [Nat.zero_add]
    rw [List.getElem?_map] at text ⊢
    cases at_ : merged[i]? with
    | none =>
      rw [at_] at text
      exact host_missing text
    | some p =>
      rw [at_] at text
      exact (host_stored text).trans (found p (List.mem_of_getElem? at_)).1
  · have text : stored c v.ip (merged.map fun p => p :: s.members p) pols
        (Key.secondary i 0).text = _ := stored_secondary empty 0
    rw [Nat.zero_add]
    rw [if_pos rfl, List.getElem?_map] at text
    rw [List.getElem?_map]
    cases at_ : merged[i]? with
    | none =>
      rw [at_] at text
      exact host_missing text
    | some p =>
      rw [at_, Option.map_some, Option.bind_some, List.getLast?_cons] at text
      exact (host_stored text).trans (found p (List.mem_of_getElem? at_)).2
  · exact host_missing (stored_secondary empty 1)
  · rwa [List.length_map]

theorem readLinks_stored (empty : ∀ key : Key, c key.text = none) {φ : Nat → Nat}
    {groups : List (List Nat)} (found : ∀ l ∈ pols, v₀.getByIp (v.ip l.po1) = some (φ l.po1) ∧
      v₀.getByIp (v.ip l.po2) = some (φ l.po2)) {turns : Nat} (enough : pols.length < turns) :
    readLinks v₀ (stored c v.ip groups pols) turns 0 =
      some ((pols.map fun l => (φ l.po1, φ l.po2)).map fun call => .map call.1 call.2) := by
  refine readLinks_eq (fun i => ?_) (fun i => ?_) ?_ ?_
  · have text : stored c v.ip groups pols (Key.ip1 i).text = _ := stored_ip1 empty
    rw [Nat.zero_add, List.getElem?_map]
    cases at_ : pols[i]? with
    | none =>
      rw [at_] at text
      exact host_missing text
    | some l =>
      rw [at_] at text
      exact (host_stored text).trans (found l (List.mem_of_getElem? at_)).1
  · have text : stored c v.ip groups pols (Key.ip2 i).text = _ := stored_ip2 empty
    rw [Nat.zero_add, List.getElem?_map]
    cases at_ : pols[i]? with
    | none =>
      rw [at_] at text
      exact host_missing text
    | some l =>
      rw [at_] at text
      exact (host_stored text).trans (found l (List.mem_of_getElem? at_)).2
  · rw [stored_ip1 empty, List.length_map, Nat.zero_add, List.getElem?_length, Option.map_none]
  · rwa [List.length_map]

variable (formed : Formed v.page s) {ips : List (BitVec 32)}
  (shown : v.page.pageObjects.map v.ip = ips) (fresh : v₀.Fresh ips.reverse)
  (distinct : ips.Nodup)

include formed shown fresh distinct

/-- The restored page can make all merges. -/
theorem merging {s₀ : Shape} (formed₀ : Formed v₀.page s₀) :
    Merging v₀.page.pageObjects (fun _ => none)
      (mergeOwn s₀.own ((leaders s v.page).map fun p => (v₀.twin v p, v₀.twin v (lastOf s p))))
      ((leaders s v.page).map fun p => (v₀.twin v p, v₀.twin v (lastOf s p))) v₀.page s₀ := by
  have twin {h : Nat} (member : h ∈ v.page.pageObjects) :=
    (twin_found shown fresh distinct member).2.1
  have own {h : Nat} (member : h ∈ v.page.pageObjects) :
      s₀.own (v₀.twin v h) = v₀.twin v h := fresh.own formed₀ (twin member)
  refine ⟨formed₀, rfl, ?_, rfl, ?_, ?_, ?_⟩
  · funext pol
    rw [NetPage.realEnds, fresh.links, Option.map_none]
  · intro call member
    obtain ⟨p, leads, rfl⟩ := List.mem_map.mp member
    obtain ⟨listed, -, other⟩ := leader_last formed leads
    have here := (mem_leaders.mp leads).1
    refine ⟨twin here, twin listed, fun same => other ?_⟩
    exact (twin_injective shown fresh distinct here listed same).symm
  · intro call member
    obtain ⟨p, leads, rfl⟩ := List.mem_map.mp member
    exact ⟨own (mem_leaders.mp leads).1, own (leader_last formed leads).1⟩
  · rw [List.pairwise_map]
    refine (formed.has.nodup.filter _).imp_of_mem fun {p q} member member' other => ?_
    obtain ⟨listed, owned, away⟩ := leader_last formed member
    obtain ⟨listed', owned', -⟩ := leader_last formed member'
    obtain ⟨here', leads'⟩ := mem_leaders.mp member'
    refine ⟨fun same => ?_, fun same => ?_⟩
    -- the last host of a group leads none, and is in no other group
    · have equal := twin_injective shown fresh distinct listed here' same
      rw [equal, leads'.1] at owned
      exact away (equal.trans owned)
    · have equal := twin_injective shown fresh distinct listed listed' same
      rw [equal, owned'] at owned
      exact other owned.symm

/-- What the hosts belong to after the merges. -/
theorem mergeOwn_twin {s₀ : Shape} (formed₀ : Formed v₀.page s₀) {h : Nat}
    (member : h ∈ v.page.pageObjects) :
    mergeOwn s₀.own ((leaders s v.page).map fun p => (v₀.twin v p, v₀.twin v (lastOf s p)))
        (v₀.twin v h) = v₀.twin v (ownRead s h) := by
  unfold ownRead
  have ready := merging formed shown fresh distinct formed₀
  have self : s₀.own (v₀.twin v h) = v₀.twin v h :=
    fresh.own formed₀ (twin_found shown fresh distinct member).2.1
  have primaries : ∀ a ∈ (leaders s v.page).map fun p => (v₀.twin v p, v₀.twin v (lastOf s p)),
      ∀ b ∈ (leaders s v.page).map fun p => (v₀.twin v p, v₀.twin v (lastOf s p)),
        a.1 ≠ b.2 := by
    intro a member b member' same
    obtain ⟨p, leads, rfl⟩ := List.mem_map.mp member
    obtain ⟨q, leads', rfl⟩ := List.mem_map.mp member'
    obtain ⟨here, own⟩ := mem_leaders.mp leads
    obtain ⟨listed, owned, away⟩ := leader_last formed leads'
    have equal := twin_injective shown fresh distinct here listed same
    rw [← equal, own.1] at owned
    exact away (equal.symm.trans owned)
  by_cases isLast : h = lastOf s (s.own h)
  case pos =>
    rw [if_pos isLast]
    by_cases leads : Leads s (s.own h)
    case pos =>
      have leader : s.own h ∈ leaders s v.page :=
        mem_leaders.mpr ⟨formed.has.own_mem member, leads⟩
      have call := List.mem_map_of_mem
        (f := fun p => (v₀.twin v p, v₀.twin v (lastOf s p))) leader
      rw [← isLast] at call
      exact mergeOwn_merged call self ready.apart primaries
    case neg =>
      have alone : s.members (s.own h) = [] := by
        by_contra some
        exact leads ⟨s.own_own h, some⟩
      have here : s.own h = h := by rw [isLast, lastOf, alone, List.getLast?_nil, Option.getD_none,
        s.own_own]
      rw [mergeOwn_other, self, here]
      intro call member' same
      obtain ⟨p, leads', rfl⟩ := List.mem_map.mp member'
      obtain ⟨listed, owned, away⟩ := leader_last formed leads'
      have equal := twin_injective shown fresh distinct member listed (self ▸ same)
      rw [← equal, here] at owned
      exact away (equal.symm.trans owned)
  case neg =>
    rw [if_neg isLast, mergeOwn_other, self]
    intro call member' same
    obtain ⟨p, leads, rfl⟩ := List.mem_map.mp member'
    obtain ⟨listed, owned, -⟩ := leader_last formed leads
    have equal := twin_injective shown fresh distinct member listed (self ▸ same)
    rw [← equal] at owned
    exact isLast (owned ▸ equal)

end Calls

/-! ### Links -/

section Links

variable {v v₀ : View} {s : Shape} {ips : List (BitVec 32)} {pols : List PageObjectLink}
  (formed : Formed v.page s) (shown : v.page.pageObjects.map v.ip = ips)
  (fresh : v₀.Fresh ips.reverse) (distinct : ips.Nodup)
  (ends : ∀ pair, pair ∈ pols.map (fun l => (l.po1, l.po2)) ↔
    ∃ pol, v.page.realEnds pol = some pair)

include formed ends

theorem written_linked {l : PageObjectLink} (member : l ∈ pols) :
    l.po1 ≠ l.po2 ∧ l.po1 ∈ v.page.pageObjects ∧ l.po2 ∈ v.page.pageObjects := by
  obtain ⟨pol, same⟩ := (ends _).mp (List.mem_map_of_mem member)
  obtain ⟨l', link, same⟩ := Option.map_eq_some_iff.mp same
  obtain ⟨first, second⟩ := Prod.mk.inj same
  rw [← first, ← second]
  exact ⟨formed.has.listed.apart pol l' link, formed.link pol l' link⟩

include shown fresh distinct

/-- No two hosts are linked in both directions. -/
theorem twins_oneWay {a b : Nat}
    (forward : (a, b) ∈ pols.map fun l => (v₀.twin v l.po1, v₀.twin v l.po2)) :
    (b, a) ∉ pols.map fun l => (v₀.twin v l.po1, v₀.twin v l.po2) := by
  intro backward
  obtain ⟨l, member, same⟩ := List.mem_map.mp forward
  obtain ⟨l', member', same'⟩ := List.mem_map.mp backward
  obtain ⟨first, second⟩ := Prod.mk.inj same
  obtain ⟨first', second'⟩ := Prod.mk.inj same'
  obtain ⟨apart, here1, here2⟩ := written_linked formed ends member
  obtain ⟨-, here1', here2'⟩ := written_linked formed ends member'
  have back1 := twin_injective shown fresh distinct here1' here2 (first'.trans second.symm)
  have back2 := twin_injective shown fresh distinct here2' here1 (second'.trans first.symm)
  obtain ⟨x, endsx⟩ := (ends _).mp (List.mem_map_of_mem member)
  obtain ⟨y, endsy⟩ := (ends _).mp (List.mem_map_of_mem member')
  rw [back1, back2] at endsy
  cases formed.simple _ _ x y (.inl endsx) (.inr endsy)
  exact apart (Prod.mk.inj (Option.some.inj (endsx.symm.trans endsy))).1

/-- A page has the links that have been written if the twins of their ends are linked. -/
theorem linked_iff {np' : NetPage}
    (twins : ∀ pair, pair ∈ pols.map (fun l => (v₀.twin v l.po1, v₀.twin v l.po2)) ↔
      ∃ pol, np'.realEnds pol = some pair) (x y : BitVec 32) :
    View.Linked ⟨np', v₀.ip⟩ x y ↔ v.Linked x y := by
  have ip {h : Nat} (member : h ∈ v.page.pageObjects) : v₀.ip (v₀.twin v h) = v.ip h :=
    (twin_found shown fresh distinct member).2.2
  constructor
  · rintro ⟨pol, a, b, same, rfl, rfl⟩
    obtain ⟨l, member, same⟩ := List.mem_map.mp ((twins (a, b)).mpr ⟨pol, same⟩)
    obtain ⟨rfl, rfl⟩ := Prod.mk.inj same
    obtain ⟨-, here1, here2⟩ := written_linked formed ends member
    obtain ⟨x, endsx⟩ := (ends _).mp (List.mem_map_of_mem member)
    exact ⟨x, _, _, endsx, (ip here1).symm, (ip here2).symm⟩
  · rintro ⟨pol, a, b, same, rfl, rfl⟩
    obtain ⟨l, member, same'⟩ := List.mem_map.mp ((ends (a, b)).mpr ⟨pol, same⟩)
    obtain ⟨rfl, rfl⟩ := Prod.mk.inj same'
    obtain ⟨-, here1, here2⟩ := written_linked formed ends member
    obtain ⟨x, endsx⟩ := (twins _).mp (List.mem_map_of_mem member)
    exact ⟨x, _, _, endsx, ip here1, ip here2⟩

end Links

/-! ### Groups -/

/-- Everything that comes back is right if the group of each host is. -/
theorem owned_iff {v v₀ : View} {ips : List (BitVec 32)} {np' : NetPage}
    (shown : v.page.pageObjects.map v.ip = ips) (fresh : v₀.Fresh ips.reverse)
    (distinct : ips.Nodup) (graph : v.page.MergeGraph)
    (pageObjects : np'.pageObjects = v₀.page.pageObjects) {own : Nat → Nat}
    (owner : ∀ h ∈ v.page.pageObjects, np'.owner (v₀.twin v h) = v₀.twin v (own h))
    (inside : ∀ h ∈ v.page.pageObjects, own h ∈ v.page.pageObjects) :
    (∀ x y, View.Owned ⟨np', v₀.ip⟩ x y ↔ v.Owned x y) ↔
      ∀ h ∈ v.page.pageObjects, own h = v.page.owner h := by
  have twin {h : Nat} (member : h ∈ v.page.pageObjects) := twin_found shown fresh distinct member
  have nodup : (v.page.pageObjects.map v.ip).Nodup := shown ▸ distinct
  constructor
  · intro same h member
    -- the host is owned, after all, by the one that its address says
    obtain ⟨-, twin_mem, twin_ip⟩ := twin member
    have owned : View.Owned ⟨np', v₀.ip⟩ (v.ip h) (v.ip (own h)) := by
      refine ⟨v₀.twin v h, pageObjects ▸ twin_mem, twin_ip, ?_⟩
      change v₀.ip (np'.owner _) = _
      rw [owner h member]
      exact (twin (inside h member)).2.2
    obtain ⟨h₁, member₁, ip₁, ip₂⟩ := (same _ _).mp owned
    cases List.inj_on_of_nodup_map nodup member₁ member ip₁
    exact (List.inj_on_of_nodup_map nodup (graph.owner_mem member) (inside h member) ip₂).symm
  · intro same x y
    constructor
    · rintro ⟨h', member', rfl, rfl⟩
      change h' ∈ np'.pageObjects at member'
      rw [pageObjects] at member'
      obtain ⟨h, member, rfl, ip⟩ := twin_surjective shown fresh distinct member'
      refine ⟨h, member, ip, ?_⟩
      change _ = v₀.ip (np'.owner _)
      rw [owner h member, (twin (inside h member)).2.2, same h member]
    · rintro ⟨h, member, rfl, rfl⟩
      obtain ⟨-, twin_mem, twin_ip⟩ := twin member
      refine ⟨v₀.twin v h, pageObjects ▸ twin_mem, twin_ip, ?_⟩
      change v₀.ip (np'.owner _) = _
      rw [owner h member, (twin (inside h member)).2.2, same h member]

/-- The last host of a group is owned right, and so is a primary. -/
theorem pairs_iff {np : NetPage} {s : Shape} (formed : Formed np s) :
    (∀ h ∈ np.pageObjects, ownRead s h = np.owner h) ↔ Pairs np := by
  unfold ownRead
  have owner {h : Nat} (member : h ∈ np.pageObjects) : np.owner h = s.own h :=
    formed.has.owner_eq member
  constructor
  · intro right a member b member' same away away'
    have last {h : Nat} (member : h ∈ np.pageObjects) (away : np.owner h ≠ h) :
        h = lastOf s (s.own h) := by
      by_contra other
      have here := right h member
      rw [if_neg other] at here
      exact away here.symm
    rw [owner member, owner member'] at same
    rw [last member away, same, ← last member' away']
  · intro pairs h member
    rw [owner member]
    by_cases own : s.own h = h
    case pos => rw [own, ite_self]
    case neg =>
      obtain ⟨listed, inside⟩ := formed.has.member h member own
      have leads : Leads s (s.own h) := ⟨s.own_own h, List.ne_nil_of_mem inside⟩
      obtain ⟨listed', owned', away'⟩ :=
        leader_last formed (mem_leaders.mpr ⟨listed, leads⟩)
      have same : h = lastOf s (s.own h) := by
        refine pairs h member _ listed' ?_ ?_ ?_
        · rw [owner member, owner listed', owned']
        · rwa [owner member]
        · rw [owner listed', owned']
          exact away'.symm
      rw [if_pos same]

/-- The groups and links leave the hosts alone. -/
theorem hosts_read {v : View} {hosts : Config.NetPage} {file : Section} {fuel : Nat}
    {nullIsEmpty : Bool}
    (write : writeConfigFile fuel v (Config.writeConfigFile nullIsEmpty hosts) = .ok file) :
    ∃ n, ∀ turns, n ≤ turns →
      Config.readConfigFile turns file = some (hosts.pageObjects.map (·.restored)).reverse := by
  unfold writeConfigFile at write
  cases merged : groups fuel v.page v.page.pageObjects with
  | error fault => rw [merged] at write; cases write
  | ok merged' =>
  cases pols : links v.page v.page.pageObjects with
  | error fault => rw [merged, pols] at write; cases write
  | ok pols' =>
  rw [merged, pols] at write
  cases write
  obtain ⟨n, hostsRead⟩ := Config.readConfigFile_eq nullIsEmpty hosts
  refine ⟨n, fun turns large => ?_⟩
  rw [Config.readConfigFile, readHosts_congr fun key => stored_host key]
  exact hostsRead turns large

/-- A page is written and read: what its hosts are linked to, and what they belong to. -/
theorem replayed {v v₀ : View} {s : Shape} {hosts : Config.NetPage} {fuel : Nat}
    (formed : Formed v.page s) (shown : v.page.pageObjects.map v.ip = hosts.pageObjects.map (·.ip))
    (fresh : v₀.Fresh (hosts.pageObjects.map (·.ip)).reverse)
    (enough : hosts.pageObjects.length ≤ fuel) (nullIsEmpty : Bool) :
    ∃ file n calls,
      writeConfigFile fuel v (Config.writeConfigFile nullIsEmpty hosts) = .ok file ∧
      (∀ turns, n ≤ turns →
        Config.readConfigFile turns file = some (hosts.pageObjects.map (·.restored)).reverse ∧
        readConfigFile turns v₀ file = some calls) ∧
      (∃ np', Run (CallStep fuel) v₀.page calls np') ∧
      ∀ np', Run (CallStep fuel) v₀.page calls np' → np'.MergeGraph ∧
        np'.pageObjects = v₀.page.pageObjects ∧
        (∀ x y, View.Linked ⟨np', v₀.ip⟩ x y ↔ v.Linked x y) ∧
        ∀ h ∈ v.page.pageObjects, np'.owner (v₀.twin v h) = v₀.twin v (ownRead s h) := by
  obtain ⟨s₀, formed₀⟩ := fresh.graph.formed
  have distinct : (hosts.pageObjects.map (·.ip)).Nodup := hosts.distinct
  have twin {h : Nat} (member : h ∈ v.page.pageObjects) := twin_found shown fresh distinct member
  have size : v.page.pageObjects.length = hosts.pageObjects.length := by
    simpa using congrArg List.length shown
  have size₀ : v₀.page.pageObjects.length = hosts.pageObjects.length := by
    simpa using congrArg List.length fresh.ips
  have empty (key : Key) : Config.writeConfigFile nullIsEmpty hosts key.text = none := by
    refine written_of_ne fun write member => ?_
    obtain ⟨write, -, rfl⟩ := List.mem_map.mp member
    exact key.not_host write.1
  have listed : ∀ p ∈ v.page.pageObjects, p ∈ v.page.pageObjects := fun _ here => here
  have merges := groups_eq formed (size ▸ enough) listed
  obtain ⟨pols, links, ends⟩ := links_realEnds formed
  let file := stored (Config.writeConfigFile nullIsEmpty hosts) v.ip
    ((leaders s v.page).map fun p => p :: s.members p) pols
  let mergeCalls := (leaders s v.page).map fun p => (v₀.twin v p, v₀.twin v (lastOf s p))
  let mapCalls := pols.map fun l => (v₀.twin v l.po1, v₀.twin v l.po2)
  have linked {l : PageObjectLink} (member : l ∈ pols) := written_linked formed ends member
  have write : writeConfigFile fuel v (Config.writeConfigFile nullIsEmpty hosts) = .ok file := by
    rw [writeConfigFile, merges]
    change (ConfigGraph.links v.page v.page.pageObjects >>= _) = _
    rw [links]
    rfl
  obtain ⟨n, hostsRead⟩ := hosts_read write
  refine ⟨file, n + (leaders s v.page).length + pols.length + 2,
    mergeCalls.map (fun call => .merge call.1 call.2) ++
      mapCalls.map fun call => .map call.1 call.2, write,
    fun turns large => ⟨hostsRead turns (by omega), ?_⟩, ?_⟩
  · obtain ⟨more, rfl⟩ := Nat.exists_eq_add_of_le' (show 2 ≤ turns by omega)
    have mergesRead : readMerges v₀ file (more + 2) (more + 2) 0 =
        some (mergeCalls.map fun call => .merge call.1 call.2) :=
      readMerges_stored empty (fun p member =>
        ⟨(twin (mem_leaders.mp member).1).1, (twin (leader_last formed member).1).1⟩)
        (by omega) more
    have linksRead : readLinks v₀ file (more + 2) 0 =
        some (mapCalls.map fun call => .map call.1 call.2) :=
      readLinks_stored empty (fun l member =>
        ⟨(twin (linked member).2.1).1, (twin (linked member).2.2).1⟩) (by omega)
    rw [readConfigFile, mergesRead]
    change (readLinks v₀ file (more + 2) 0 >>= _) = _
    rw [linksRead]
    rfl
  have enough₀ : v₀.page.pageObjects.length ≤ fuel := size₀ ▸ enough
  obtain ⟨⟨np₁, run₁⟩, merged⟩ :=
    merges_run (merging formed shown fresh distinct formed₀) enough₀
  have oneWay (a b : Nat) (forward : (a, b) ∈ mapCalls) : (b, a) ∉ mapCalls :=
    twins_oneWay formed shown fresh distinct ends forward
  have mapping {np₁ : NetPage} {s₁ : Shape} (ready : Merging v₀.page.pageObjects (fun _ => none)
      (mergeOwn s₀.own mergeCalls) [] np₁ s₁) :
      Mapping v₀.page.pageObjects (mergeOwn s₀.own mergeCalls) mapCalls mapCalls np₁ s₁ := by
    refine ⟨ready.formed, ready.pageObjects, ready.target, ?_, fun pair => ?_⟩
    · intro call member
      obtain ⟨l, listed, rfl⟩ := List.mem_map.mp member
      obtain ⟨apart, here1, here2⟩ := linked listed
      exact ⟨(twin here1).2.1, (twin here2).2.1,
        mt (twin_injective shown fresh distinct here1 here2) apart⟩
    · refine ⟨.inl, fun either => either.resolve_right ?_⟩
      rintro ⟨pol, some⟩
      rw [ready.realEnds] at some
      cases some
  refine ⟨?_, fun np' run => ?_⟩
  · obtain ⟨s₁, ready⟩ := merged np₁ run₁
    obtain ⟨⟨np', run'⟩, -⟩ := maps_run fuel (mapping ready) oneWay
    exact ⟨np', run₁.trans run'⟩
  obtain ⟨np₁, run₁, run'⟩ := run.append_inv
  obtain ⟨s₁, ready⟩ := merged np₁ run₁
  have final := (maps_run fuel (mapping ready) oneWay).2 np' run'
  have pageObjects := final.pageObjects
  refine ⟨final.formed.graph, pageObjects,
    linked_iff formed shown fresh distinct ends fun pair => ?_, fun h member => ?_⟩
  · rw [final.links]
    exact or_iff_right (List.not_mem_nil (a := pair))
  · rw [final.formed.has.owner_eq (pageObjects ▸ (twin member).2.1), final.own]
    exact mergeOwn_twin formed shown fresh distinct formed₀ member

/-- A page is written and read.  Its hosts and links come back; its groups come back, with their
    primaries, if and only if none of them has more than one host besides its primary. -/
theorem graph_restored_iff {v v₀ : View} {hosts : Config.NetPage} {fuel : Nat}
    (graph : v.page.MergeGraph) (shown : v.page.pageObjects.map v.ip = hosts.pageObjects.map (·.ip))
    (fresh : v₀.Fresh (hosts.pageObjects.map (·.ip)).reverse)
    (enough : hosts.pageObjects.length ≤ fuel) (nullIsEmpty : Bool) :
    ∃ file n calls,
      writeConfigFile fuel v (Config.writeConfigFile nullIsEmpty hosts) = .ok file ∧
      (∀ turns, n ≤ turns →
        Config.readConfigFile turns file = some (hosts.pageObjects.map (·.restored)).reverse ∧
        readConfigFile turns v₀ file = some calls) ∧
      (∃ np', Run (CallStep fuel) v₀.page calls np') ∧
      ∀ np', Run (CallStep fuel) v₀.page calls np' → np'.MergeGraph ∧
        (∀ x y, View.Linked ⟨np', v₀.ip⟩ x y ↔ v.Linked x y) ∧
        ((∀ x y, View.Owned ⟨np', v₀.ip⟩ x y ↔ v.Owned x y) ↔ Pairs v.page) := by
  obtain ⟨s, formed⟩ := graph.formed
  obtain ⟨file, n, calls, write, read, possible, result⟩ :=
    replayed formed shown fresh enough nullIsEmpty
  refine ⟨file, n, calls, write, read, possible, fun np' run => ?_⟩
  obtain ⟨graph', pageObjects, linked, owner⟩ := result np' run
  refine ⟨graph', linked, ?_⟩
  rw [← pairs_iff formed]
  exact owned_iff shown fresh hosts.distinct graph pageObjects owner fun h => ownRead_mem formed

/-! ## A group of three -/

theorem blank_fresh (ip : Nat → BitVec 32) : View.Fresh ⟨blank, ip⟩ ([1, 2, 3].map ip) where
  graph := blank_graph
  ips := rfl
  objects _ _ object := blank_objects object
  links _ := rfl

/-- A host has two others merged with it, of which one comes back as a host of its own. -/
theorem graph_restored_three :
    ∃ np, Run (Step 3) blank [.map 1 2 7, .merge 1 2, .merge 1 3] np ∧ ¬ Pairs np ∧
      ∃ file calls,
        writeConfigFile 3 ⟨np, fun h => 0x0a000000 + BitVec.ofNat 32 h⟩
          (Config.writeConfigFile true Config.threeHosts) = .ok file ∧
        ∀ np', Run (CallStep 3) blank calls np' →
          ¬ ∀ x y, View.Owned ⟨np', fun h => 0x0a000004 - BitVec.ofNat 32 h⟩ x y ↔
            View.Owned ⟨np, fun h => 0x0a000000 + BitVec.ofNat 32 h⟩ x y := by
  have final :
      ([.map 1 2 7, .merge 1 2, .merge 1 3].foldlM (Op.call 3) blank).map (fun np =>
        (np.owner 2, np.owner 3)) = some (1, 1) := by decide
  obtain ⟨np, ended, owners⟩ := Option.map_eq_some_iff.mp final
  obtain ⟨owner2, owner3⟩ := Prod.mk.inj owners
  have run : Run (Step 3) blank [.map 1 2 7, .merge 1 2, .merge 1 3] np :=
    .of_exec Op.call_sound ended
  obtain ⟨s, formed⟩ := blank_graph.formed
  obtain ⟨⟨s', formed'⟩, pageObjects, -⟩ := formed.run (by decide) run
  have triple : ¬ Pairs np := by
    intro pairs
    rw [Pairs, pageObjects] at pairs
    have same := pairs 2 (by decide) 3 (by decide) (owner2.trans owner3.symm)
      (by rw [owner2]; decide) (by rw [owner3]; decide)
    exact absurd same (by decide)
  obtain ⟨file, n, calls, written, -, -, result⟩ := graph_restored_iff
    (v := ⟨np, fun h => 0x0a000000 + BitVec.ofNat 32 h⟩) formed'.graph
    (by rw [pageObjects]; rfl) (blank_fresh fun h => 0x0a000004 - BitVec.ofNat 32 h)
    (show Config.threeHosts.pageObjects.length ≤ 3 by decide) true
  exact ⟨np, run, triple, file, calls, written, fun np' run' same =>
    triple ((result np' run').2.2.mp same)⟩

/-- The host that has been merged last comes back as a host of its own. -/
theorem graph_lost_three :
    grouped.MergeGraph ∧
      View.Fresh ⟨blank, fun h => 0x0a000004 - BitVec.ofNat 32 h⟩
        (Config.threeHosts.pageObjects.map (·.ip)).reverse ∧
      ∃ file calls np',
      writeConfigFile 3 ⟨grouped, fun h => 0x0a000000 + BitVec.ofNat 32 h⟩
        (Config.writeConfigFile true Config.threeHosts) = .ok file ∧
      readConfigFile 4 ⟨blank, fun h => 0x0a000004 - BitVec.ofNat 32 h⟩ file = some calls ∧
      Run (CallStep 3) blank calls np' ∧
      View.Owned ⟨grouped, fun h => 0x0a000000 + BitVec.ofNat 32 h⟩ 0x0a000003 0x0a000001 ∧
      ¬ View.Owned ⟨np', fun h => 0x0a000004 - BitVec.ofNat 32 h⟩ 0x0a000003 0x0a000001 := by
  obtain ⟨s, formed⟩ := blank_graph.formed
  obtain ⟨⟨s', formed'⟩, -⟩ := formed.run (by decide) grouped_run
  have read : ((writeConfigFile 3 ⟨grouped, fun h => 0x0a000000 + BitVec.ofNat 32 h⟩
      (Config.writeConfigFile true Config.threeHosts)).toOption.bind
        (readConfigFile 4 ⟨blank, fun h => 0x0a000004 - BitVec.ofNat 32 h⟩)) =
      some [.merge 3 2, .map 3 1, .map 3 1] := by decide +kernel
  cases write : writeConfigFile 3 ⟨grouped, fun h => 0x0a000000 + BitVec.ofNat 32 h⟩
      (Config.writeConfigFile true Config.threeHosts) with
  | error fault => rw [write] at read; cases read
  | ok file =>
  rw [write] at read
  exact ⟨formed'.graph, blank_fresh _, file, _, _, rfl, read,
    .cons (show CallStep 3 blank (.merge 3 2) _ from rfl)
      (.cons ⟨8, by decide, rfl⟩ (.cons ⟨9, by decide, rfl⟩ .refl)), by decide, by decide⟩

/-! ## Saved again -/

/-- The page `v` is written with its hosts `l.1`, and read into `l.2`, where the hosts have been
    restored; `v'` is the page that results. -/
def Saved (fuel : Nat) (nullIsEmpty : Bool) (v : View) (l : Config.NetPage × View) (v' : View) :
    Prop :=
  v.page.pageObjects.map v.ip = l.1.pageObjects.map (·.ip) ∧ v'.ip = l.2.ip ∧
  ∃ file n read calls,
    writeConfigFile fuel v (Config.writeConfigFile nullIsEmpty l.1) = .ok file ∧
    (∀ turns, n ≤ turns → Config.readConfigFile turns file = some read ∧
      readConfigFile turns l.2 file = some calls) ∧
    l.2.Fresh (read.map (·.ip)) ∧ Run (CallStep fuel) l.2.page calls v'.page

section Saves

variable {fuel : Nat} {nullIsEmpty : Bool} {v v' v'' v₀ : View} {l : Config.NetPage × View}

theorem Saved.size (saved : Saved fuel nullIsEmpty v l v') :
    l.1.pageObjects.length = v.page.pageObjects.length := by
  simpa using (congrArg List.length saved.1).symm

theorem restored_ips (hosts : List Config.PageObject) :
    (hosts.map (·.restored)).reverse.map (·.ip) = (hosts.map (·.ip)).reverse := by
  rw [List.map_reverse, List.map_map]
  rfl

/-- The hosts that have been read can be written again. -/
def restoredHosts (hosts : Config.NetPage) : Config.NetPage where
  pageObjects := (hosts.pageObjects.map (·.restored)).reverse
  distinct := by
    rw [Keyed.Distinct, restored_ips]
    exact List.nodup_reverse.mpr hosts.distinct

theorem Saved.possible (nullIsEmpty : Bool) (graph : v.page.MergeGraph) (hosts : Config.NetPage)
    (shown : v.page.pageObjects.map v.ip = hosts.pageObjects.map (·.ip))
    (fresh : v₀.Fresh (hosts.pageObjects.map (·.ip)).reverse)
    (enough : v.page.pageObjects.length ≤ fuel) :
    ∃ v', Saved fuel nullIsEmpty v (hosts, v₀) v' := by
  obtain ⟨s, formed⟩ := graph.formed
  have size : v.page.pageObjects.length = hosts.pageObjects.length := by
    simpa using congrArg List.length shown
  obtain ⟨file, n, calls, write, read, ⟨np', run⟩, -⟩ :=
    replayed formed shown fresh (size ▸ enough) nullIsEmpty
  exact ⟨⟨np', v₀.ip⟩, shown, rfl, file, n, _, calls, write, read,
    (restored_ips hosts.pageObjects).symm ▸ fresh, run⟩

/-- Two hosts of the page that is read are in one group only if one of them is its primary. -/
theorem pairs_read {s : Shape} {ips : List (BitVec 32)} {np' : NetPage}
    (shown : v.page.pageObjects.map v.ip = ips) (fresh : v₀.Fresh ips.reverse)
    (distinct : ips.Nodup) (formed : Formed v.page s)
    (pageObjects : np'.pageObjects = v₀.page.pageObjects)
    (owner : ∀ h ∈ v.page.pageObjects, np'.owner (v₀.twin v h) = v₀.twin v (ownRead s h)) :
    Pairs np' := by
  have last {h : Nat} (away : ownRead s h ≠ h) :
      h = lastOf s (s.own h) ∧ ownRead s h = s.own h := by
    unfold ownRead at away ⊢
    split at away
    case isTrue isLast => exact ⟨isLast, if_pos isLast⟩
    case isFalse => exact absurd rfl away
  intro a' member b' member' same away away'
  rw [pageObjects] at member member'
  obtain ⟨a, here, rfl, -⟩ := twin_surjective shown fresh distinct member
  obtain ⟨b, here', rfl, -⟩ := twin_surjective shown fresh distinct member'
  rw [owner a here] at same away
  rw [owner b here'] at same away'
  obtain ⟨lastA, ownA⟩ := last fun equal => away (congrArg _ equal)
  obtain ⟨lastB, ownB⟩ := last fun equal => away' (congrArg _ equal)
  have owners := twin_injective shown fresh distinct (ownRead_mem formed here)
    (ownRead_mem formed here') same
  rw [ownA, ownB] at owners
  rw [lastA, owners, ← lastB]

/-- A save gives back all links, and makes pairs of the groups; groups that are pairs stay. -/
theorem Saved.spec (graph : v.page.MergeGraph) (enough : v.page.pageObjects.length ≤ fuel)
    (saved : Saved fuel nullIsEmpty v l v') :
    v'.page.MergeGraph ∧
      v'.page.pageObjects.map v'.ip = (v.page.pageObjects.map v.ip).reverse ∧
      Pairs v'.page ∧ (∀ x y, v'.Linked x y ↔ v.Linked x y) ∧
      (Pairs v.page → ∀ x y, v'.Owned x y ↔ v.Owned x y) := by
  obtain ⟨s, formed⟩ := graph.formed
  have size := saved.size
  obtain ⟨shown, ip, file, n, read, calls, write, reads, fresh, run⟩ := saved
  obtain ⟨m, hostsRead⟩ := hosts_read write
  cases (reads (max n m) (Nat.le_max_left ..)).1.symm.trans (hostsRead _ (Nat.le_max_right ..))
  rw [restored_ips] at fresh
  obtain ⟨file', n', calls', write', reads', -, result⟩ :=
    replayed formed shown fresh (size ▸ enough) nullIsEmpty
  cases write.symm.trans write'
  cases (reads (max n n') (Nat.le_max_left ..)).2.symm.trans (reads' _ (Nat.le_max_right ..)).2
  obtain ⟨graph', pageObjects, linked, owner⟩ := result v'.page run
  have same : v' = ⟨v'.page, l.2.ip⟩ := by rw [← ip]
  have ips : v'.page.pageObjects.map v'.ip = (v.page.pageObjects.map v.ip).reverse := by
    rw [pageObjects, ip, fresh.ips, shown]
  refine ⟨graph', ips, pairs_read shown fresh l.1.distinct formed pageObjects owner, ?_, ?_⟩
  · rw [same]
    exact linked
  · intro pairs
    rw [same]
    refine (owned_iff shown fresh l.1.distinct graph pageObjects owner
      fun h => ownRead_mem formed).mpr ?_
    exact (pairs_iff formed).mpr pairs

/-- After a first save, no number of further ones changes an owner or a link, and another one is
    always possible. -/
theorem saved_again {ls : List (Config.NetPage × View)} (graph : v.page.MergeGraph)
    (enough : v.page.pageObjects.length ≤ fuel) (first : Saved fuel nullIsEmpty v l v')
    (later : Run (Saved fuel nullIsEmpty) v' ls v'') :
    (∀ x y, v''.Linked x y ↔ v.Linked x y) ∧ (∀ x y, v''.Owned x y ↔ v'.Owned x y) ∧
      ∀ hosts v₀, v''.page.pageObjects.map v''.ip = hosts.pageObjects.map (·.ip) →
        v₀.Fresh (hosts.pageObjects.map (·.ip)).reverse →
        ∃ next, Saved fuel nullIsEmpty v'' (hosts, v₀) next := by
  have size {w w' : View} (ips : w'.page.pageObjects.map w'.ip =
      (w.page.pageObjects.map w.ip).reverse) :
      w'.page.pageObjects.length = w.page.pageObjects.length := by
    simpa using congrArg List.length ips
  obtain ⟨graph', ips', pairs', linked', -⟩ := first.spec graph enough
  let I (w : View) : Prop := w.page.MergeGraph ∧ w.page.pageObjects.length ≤ fuel ∧
    Pairs w.page ∧ (∀ x y, w.Linked x y ↔ v.Linked x y) ∧ ∀ x y, w.Owned x y ↔ v'.Owned x y
  have start : I v' := ⟨graph', size ips' ▸ enough, pairs', linked', fun _ _ => Iff.rfl⟩
  have keep : ∀ w l w', I w → Saved fuel nullIsEmpty w l w' → I w' := by
    rintro w l w' ⟨graph, short, pairs, linked, owned⟩ saved
    obtain ⟨graph', ips, pairs', linked', owned'⟩ := saved.spec graph short
    exact ⟨graph', size ips ▸ short, pairs', fun x y => (linked' x y).trans (linked x y),
      fun x y => (owned' pairs x y).trans (owned x y)⟩
  obtain ⟨graph, short, -, linked, owned⟩ := later.state_invariant start keep
  exact ⟨linked, owned, fun hosts v₀ shown fresh =>
    Saved.possible nullIsEmpty graph hosts shown fresh short⟩

/-- The group of three is a pair after the first save, and stays one. -/
theorem saved_again_grouped :
    ∃ v' v'', Saved 3 true ⟨grouped, fun h => 0x0a000000 + BitVec.ofNat 32 h⟩
        (Config.threeHosts, ⟨blank, fun h => 0x0a000004 - BitVec.ofNat 32 h⟩) v' ∧
      Saved 3 true v' (restoredHosts Config.threeHosts,
        ⟨blank, fun h => 0x0a000000 + BitVec.ofNat 32 h⟩) v'' ∧
      ∀ x y, v''.Owned x y ↔ v'.Owned x y := by
  obtain ⟨s, formed⟩ := blank_graph.formed
  obtain ⟨⟨s', formed'⟩, -⟩ := formed.run (by decide) grouped_run
  have enough : grouped.pageObjects.length ≤ 3 := by decide
  obtain ⟨v', first⟩ := Saved.possible true
    (v := ⟨grouped, fun h => 0x0a000000 + BitVec.ofNat 32 h⟩) formed'.graph Config.threeHosts
    (by decide) (blank_fresh fun h => 0x0a000004 - BitVec.ofNat 32 h) enough
  obtain ⟨graph', ips', -⟩ := first.spec formed'.graph enough
  have size : v'.page.pageObjects.length = grouped.pageObjects.length := by
    simpa using congrArg List.length ips'
  obtain ⟨v'', second⟩ := Saved.possible true graph' (restoredHosts Config.threeHosts)
    (ips'.trans (by decide))
    (blank_fresh fun h => 0x0a000000 + BitVec.ofNat 32 h) (size ▸ enough)
  exact ⟨v', v'', first, second,
    (saved_again formed'.graph enough first (.single second)).2.1⟩

end Saves

end Cheops.Gui.ConfigGraph
