import Cheops.Canvas.Mapping
import Cheops.Canvas.Ungroup
import Cheops.Lib.Run

/-! # The merge graph over whole runs

Hosts are merged, unmerged, made the primary of their group and linked, in any order.  The merge
graph stays well formed (`NetPage.MergeGraph`), and the ends of a link stay what they are.

`NetPage.MergeGraph` says it in terms of the records; `Formed` says the same of a shape, which is
what one operation is shown to keep.
-/

namespace Cheops.Canvas

open Cheops.Lib

/-! ## `page_object_set_merge_primary` -/

/-- Whether `for(p = primary; p; p = p->merge)` comes to a host. -/
def inChain (np : NetPage) (newPrimary : Nat) : Nat → Option Nat → Except Fault Bool
  | _, none => .ok false
  | 0, some _ => .error .endless
  | fuel + 1, some p =>
    if p = newPrimary then .ok true
    else do inChain np newPrimary fuel (← np.object p).merge

def pageObjectSetMergePrimary (fuel primary newPrimary : Nat) (np : NetPage) :
    Except Fault NetPage :=
  if primary ∈ np.pageObjects ∧ newPrimary ∈ np.pageObjects then do
    let o ← np.object newPrimary
    if o.mergePrimary = some newPrimary then return np
    else
      let found ← inChain np newPrimary fuel (some primary)
      if found then
        let np ← pageObjectUnmerge fuel newPrimary np
        pageObjectMerge fuel newPrimary primary np
      else return np
  else .ok np

/-! ## Runs -/

/-- A call.  The last argument of `map` is where `malloc` puts the link. -/
inductive Op where
  | merge (primary secondary : Nat)
  | unmerge (p : Nat)
  | setMergePrimary (primary newPrimary : Nat)
  | map (po po2 pol : Nat)
deriving DecidableEq, Repr

def Op.exec (fuel : Nat) : Op → NetPage → Except Fault NetPage
  | .merge primary secondary => pageObjectMerge fuel primary secondary
  | .unmerge p => pageObjectUnmerge fuel p
  | .setMergePrimary primary newPrimary => pageObjectSetMergePrimary fuel primary newPrimary
  | .map po po2 pol => netPageMapPageObjects po po2 pol

/-- What the callers make sure of: they merge hosts that are not members of a group, and call
    `page_object_set_merge_primary` with the primary of the host.  `malloc` returns a block that is
    free, or the one of the link that has just been destroyed. -/
def Op.Permitted (np : NetPage) : Op → Prop
  | .merge primary secondary =>
    primary ∈ np.pageObjects ∧ secondary ∈ np.pageObjects ∧ primary ≠ secondary ∧
      np.owner primary = primary ∧ np.owner secondary = secondary
  | .unmerge p => p ∈ np.pageObjects
  | .setMergePrimary primary newPrimary => primary ≠ newPrimary ∧ np.owner primary = primary
  | .map po po2 pol =>
    po ∈ np.pageObjects → po2 ∈ np.pageObjects → po ≠ po2 →
      np.links pol = none ∨ Joins po po2 (np.realEnds pol)

def Step (fuel : Nat) (np : NetPage) (op : Op) (np' : NetPage) : Prop :=
  op.Permitted np ∧ op.exec fuel np = .ok np'

/-- As `Op.Permitted`, with any two hosts for `page_object_set_merge_primary`. -/
def Op.Admitted (np : NetPage) : Op → Prop
  | .setMergePrimary _ _ => True
  | op => op.Permitted np

def AnyStep (fuel : Nat) (np : NetPage) (op : Op) (np' : NetPage) : Prop :=
  op.Admitted np ∧ op.exec fuel np = .ok np'

/-- The ends of the links after a call: only `map` makes or destroys a link. -/
def Op.ends (hosts : List Nat) (ends : Nat → Option (Nat × Nat)) : Op → Nat → Option (Nat × Nat)
  | .map po po2 pol =>
    if po ∈ hosts ∧ po2 ∈ hosts ∧ po ≠ po2 then remap po po2 pol ends else ends
  | _ => ends

def unmergeAll (fuel : Nat) : List Nat → NetPage → Except Fault NetPage
  | [], np => .ok np
  | p :: ps, np => do
    let np ← pageObjectUnmerge fuel p np
    unmergeAll fuel ps np

structure NetPage.MergeGraph (np : NetPage) : Prop where
  nodup : np.pageObjects.Nodup
  alive : ∀ h, h ∈ np.pageObjects ↔ ∃ o, np.objects h = some o
  unmerged : ∀ h o, np.objects h = some o → o.mergePrimary = none → o.merge = none
  /-- The chain of a primary ends.  It leads through the other hosts of the group, once each. -/
  chain : ∀ p o, np.objects p = some o → o.mergePrimary = some p →
    ∃ members, Seg np.objects PageObject.merge o.merge members none ∧ members.Nodup ∧
      ∀ h, h ∈ members ↔ h ≠ p ∧ ∃ o', np.objects h = some o' ∧ o'.mergePrimary = some p
  member : ∀ h o p, np.objects h = some o → o.mergePrimary = some p → h ≠ p →
    (∃ o', np.objects p = some o' ∧ o'.mergePrimary = some p) ∧ o.links = []
  linked : ∀ pol l, np.links pol = some l →
    l.po1 ≠ l.po2 ∧ l.po1 ∈ np.pageObjects ∧ l.po2 ∈ np.pageObjects
  /-- A link is listed once for each end, by the owner of the end. -/
  listed : ∀ h o, np.objects h = some o → ∀ pol,
    o.links.count pol = Canvas.ends np.owner (np.links pol) h
  /-- The owner of an end is named, unless it is the end itself. -/
  named : ∀ pol l, np.links pol = some l →
    (l.merge1 = some (np.owner l.po1) ∨ l.merge1 = none ∧ np.owner l.po1 = l.po1) ∧
    (l.merge2 = some (np.owner l.po2) ∨ l.merge2 = none ∧ np.owner l.po2 = l.po2)
  simple : ∀ a b x y, Joins a b (np.realEnds x) → Joins a b (np.realEnds y) → x = y

/-! ## Shapes -/

variable {np np' : NetPage} {s s' : Shape} {fuel p q : Nat}

structure Formed (np : NetPage) (s : Shape) : Prop where
  has : np.Has s
  whole : ∀ h ∈ np.pageObjects, s.own h = h → s.tail h = none
  linked : ∀ pol a b, np.realEnds pol = some (a, b) → a ∈ np.pageObjects ∧ b ∈ np.pageObjects
  simple : ∀ a b x y, Joins a b (np.realEnds x) → Joins a b (np.realEnds y) → x = y

theorem realEnds_of_link {pol : Nat} {l : PageObjectLink} (link : np.links pol = some l) :
    np.realEnds pol = some (l.po1, l.po2) := by
  rw [NetPage.realEnds, link, Option.map_some]

theorem Formed.link (formed : Formed np s) (pol : Nat) (l : PageObjectLink)
    (link : np.links pol = some l) : l.po1 ∈ np.pageObjects ∧ l.po2 ∈ np.pageObjects :=
  formed.linked pol l.po1 l.po2 (realEnds_of_link link)

/-- The links of the page are what they were. -/
theorem Formed.regroup (formed : Formed np s) (has : np'.Has s')
    (whole : ∀ h ∈ np'.pageObjects, s'.own h = h → s'.tail h = none)
    (pageObjects : np'.pageObjects = np.pageObjects) (realEnds : np'.realEnds = np.realEnds) :
    Formed np' s' where
  has := has
  whole := whole
  linked := by
    rw [realEnds, pageObjects]
    exact formed.linked
  simple := by
    rw [realEnds]
    exact formed.simple

theorem ends_congr {own own' : Nat → Nat} {pol : Option PageObjectLink} {h : Nat}
    (same : ∀ l, pol = some l → own l.po1 = own' l.po1 ∧ own l.po2 = own' l.po2) :
    ends own pol h = ends own' pol h := by
  cases pol with
  | none => rfl
  | some l =>
    obtain ⟨first, second⟩ := same l rfl
    rw [ends, ends, first, second]

/-- A shape gives the merge graph. -/
theorem Formed.graph (formed : Formed np s) : np.MergeGraph := by
  have has := formed.has
  have owner {h : Nat} (listed : h ∈ np.pageObjects) : np.owner h = s.own h := has.owner_eq listed
  have primary {h p : Nat} {o : PageObject} (object : np.objects h = some o)
      (merged : o.mergePrimary = some p) : s.own h = p := by
    have owner := has.owner h o object
    rw [merged] at owner
    exact owner.symm
  have fixed {h p : Nat} {o : PageObject} (object : np.objects h = some o)
      (merged : o.mergePrimary = some p) : s.own p = p := by
    have owned := primary object merged
    rw [← owned, s.own_own]
  refine ⟨has.nodup, has.alive, has.unmerged, ?_, ?_, ?_, ?_, ?_, formed.simple⟩
  case refine_1 =>
    intro p o object merged
    have own := fixed object merged
    have listed := has.mem object
    obtain ⟨nodup, members⟩ := has.members p listed own
    have chain := has.chain p o object own
    rw [formed.whole p listed own] at chain
    refine ⟨s.members p, chain, nodup, fun h => ⟨fun member => ?_, ?_⟩⟩
    · obtain ⟨owned, other⟩ := members h member
      obtain ⟨o', object'⟩ := chain.allocated h member
      exact ⟨other, o', object', owned ▸ has.mergePrimary object' (owned ▸ other.symm)⟩
    · rintro ⟨other, o', object', merged'⟩
      have owned := primary object' merged'
      have member := (has.member h (has.mem object') (owned ▸ other.symm)).2
      rwa [owned] at member
  case refine_2 =>
    intro h o p object merged other
    have owned := primary object merged
    have away : s.own h ≠ h := owned ▸ other.symm
    obtain ⟨listed, member⟩ := has.member h (has.mem object) away
    rw [owned] at listed member
    obtain ⟨o', object'⟩ := (has.alive p).mp listed
    refine ⟨⟨o', object', has.primary object' (fixed object merged) fun last => ?_⟩,
      has.no_links object away⟩
    have chain := has.chain p o' object' (fixed object merged)
    rw [last] at chain
    rw [chain.nil_of_none.1] at member
    cases member
  case refine_3 =>
    intro pol l link
    exact ⟨has.listed.apart pol l link, formed.link pol l link⟩
  case refine_4 =>
    intro h o object pol
    rw [has.listed.count h o object nofun]
    refine ends_congr fun l link => ?_
    obtain ⟨listed1, listed2⟩ := formed.link pol l link
    exact ⟨(owner listed1).symm, (owner listed2).symm⟩
  case refine_5 =>
    intro pol l link
    obtain ⟨listed1, listed2⟩ := formed.link pol l link
    have drawn1 := (has.listed.drawn1 pol l link).1
    have drawn2 := (has.listed.drawn2 pol l link).1
    rw [← owner listed1, PageObjectLink.end1] at drawn1
    rw [← owner listed2, PageObjectLink.end2] at drawn2
    constructor
    · cases merge : l.merge1 with
      | none => exact .inr ⟨rfl, by rw [← drawn1, merge, Option.getD_none]⟩
      | some m => exact .inl (by rw [← drawn1, merge, Option.getD_some])
    · cases merge : l.merge2 with
      | none => exact .inr ⟨rfl, by rw [← drawn2, merge, Option.getD_none]⟩
      | some m => exact .inl (by rw [← drawn2, merge, Option.getD_some])

theorem owner_of_object {h : Nat} {o : PageObject} (object : np.objects h = some o) :
    np.owner h = o.mergePrimary.getD h := by
  rw [NetPage.owner, object, Option.bind_some]

theorem NetPage.MergeGraph.owner_owner (graph : np.MergeGraph) (h : Nat) :
    np.owner (np.owner h) = np.owner h := by
  cases object : np.objects h with
  | none =>
    have here : np.owner h = h := by rw [NetPage.owner, object, Option.bind_none, Option.getD_none]
    rw [here, here]
  | some o =>
    cases merged : o.mergePrimary with
    | none =>
      have here : np.owner h = h := by rw [owner_of_object object, merged, Option.getD_none]
      rw [here, here]
    | some p =>
      have owned : np.owner h = p := by rw [owner_of_object object, merged, Option.getD_some]
      rw [owned]
      by_cases here : h = p
      case pos => rwa [here] at owned
      case neg =>
        obtain ⟨⟨o', object', merged'⟩, -⟩ := graph.member h o p object merged here
        rw [owner_of_object object', merged', Option.getD_some]

/-- The members of each group, in the order of its chain. -/
theorem NetPage.MergeGraph.members (graph : np.MergeGraph) (p : Nat) :
    ∃ members : List Nat, ∀ o, np.objects p = some o → np.owner p = p →
      Seg np.objects PageObject.merge o.merge members none ∧ members.Nodup ∧
        ∀ h, h ∈ members ↔ h ≠ p ∧ ∃ o', np.objects h = some o' ∧ o'.mergePrimary = some p := by
  cases object : np.objects p with
  | none => exact ⟨[], nofun⟩
  | some o =>
    cases merged : o.mergePrimary with
    | none =>
      refine ⟨[], fun o' same _ => ?_⟩
      cases same
      refine ⟨graph.unmerged p o object merged, .nil, fun h => ⟨nofun, ?_⟩⟩
      rintro ⟨other, o', object', merged'⟩
      obtain ⟨⟨o₁, object₁, merged₁⟩, -⟩ := graph.member h o' p object' merged' other
      cases object.symm.trans object₁
      exact absurd (merged.symm.trans merged₁) nofun
    | some q =>
      by_cases here : q = p
      case pos =>
        obtain ⟨members, group⟩ := graph.chain p o object (here ▸ merged)
        exact ⟨members, fun o' same _ => Option.some.inj same ▸ group⟩
      case neg =>
        refine ⟨[], fun o' _ own => ?_⟩
        rw [owner_of_object object, merged] at own
        exact absurd own here

/-- A host is its own owner, or has a primary that is. -/
theorem NetPage.MergeGraph.owner_cases (graph : np.MergeGraph) {h : Nat}
    (listed : h ∈ np.pageObjects) :
    np.owner h = h ∨ np.owner h ≠ h ∧ ∃ o o', np.objects h = some o ∧
      o.mergePrimary = some (np.owner h) ∧ np.objects (np.owner h) = some o' := by
  obtain ⟨o, object⟩ := (graph.alive h).mp listed
  have owned := owner_of_object object
  by_cases own : np.owner h = h
  case pos => exact .inl own
  case neg =>
    cases merged : o.mergePrimary with
    | none =>
      rw [merged] at owned
      exact absurd owned own
    | some p =>
      rw [merged, Option.getD_some] at owned
      rw [owned] at own ⊢
      obtain ⟨⟨o', object', -⟩, -⟩ := graph.member h o p object merged (Ne.symm own)
      exact .inr ⟨own, o, o', object, merged, object'⟩

theorem NetPage.MergeGraph.owner_mem (graph : np.MergeGraph) {h : Nat}
    (listed : h ∈ np.pageObjects) : np.owner h ∈ np.pageObjects := by
  rcases graph.owner_cases listed with own | ⟨-, -, o', -, -, object'⟩
  · rwa [own]
  · exact (graph.alive _).mpr ⟨o', object'⟩

theorem NetPage.MergeGraph.formed (graph : np.MergeGraph) : ∃ s, Formed np s := by
  choose members group using graph.members
  have drawn {po : Nat} {merge : Option Nat}
      (named : merge = some (np.owner po) ∨ merge = none ∧ np.owner po = po) :
      merge.getD po = np.owner po := by
    rcases named with rfl | ⟨rfl, own⟩
    · rfl
    · exact own.symm
  refine ⟨⟨np.owner, members, fun _ => none, graph.owner_owner⟩, ?_, fun _ _ _ => rfl, ?_,
    graph.simple⟩
  · refine ⟨graph.nodup, graph.alive, fun h o object => (owner_of_object object).symm,
      graph.unmerged, fun h o object own => (group h o object own).1, ?_, ?_,
      fun _ _ _ _ => nofun, fun pol l link => (graph.linked pol l link).1, ?_, ?_,
      fun h o object _ => graph.listed h o object⟩
    case refine_1 =>
      intro h listed away
      rcases graph.owner_cases listed with own | ⟨-, o, o', object, merged, object'⟩
      · exact absurd own away
      · refine ⟨graph.owner_mem listed, ?_⟩
        obtain ⟨-, -, members⟩ := group _ o' object' (graph.owner_owner h)
        exact (members h).mpr ⟨Ne.symm away, o, object, merged⟩
    case refine_2 =>
      intro p listed own
      obtain ⟨o, object⟩ := (graph.alive p).mp listed
      obtain ⟨-, nodup, members⟩ := group p o object own
      refine ⟨nodup, fun h member => ?_⟩
      obtain ⟨other, o', object', merged⟩ := (members h).mp member
      refine ⟨?_, other⟩
      change np.owner h = p
      rw [owner_of_object object', merged, Option.getD_some]
    case refine_3 =>
      intro pol l link
      exact ⟨drawn (graph.named pol l link).1, graph.owner_mem (graph.linked pol l link).2.1⟩
    case refine_4 =>
      intro pol l link
      exact ⟨drawn (graph.named pol l link).2, graph.owner_mem (graph.linked pol l link).2.2⟩
  · intro pol a b ends
    obtain ⟨l, link, same⟩ := Option.map_eq_some_iff.mp ends
    cases same
    exact (graph.linked pol l link).2

/-! ## The operations -/

theorem Formed.merge (formed : Formed np s) (listed : p ∈ np.pageObjects)
    (listedq : q ∈ np.pageObjects) (own : s.own p = p) (ownq : s.own q = q) (other : p ≠ q)
    (enough : np.pageObjects.length ≤ fuel) :
    ∃ np' s', pageObjectMerge fuel p q np = .ok np' ∧ Formed np' s' ∧
      np'.pageObjects = np.pageObjects ∧ np'.realEnds = np.realEnds ∧
      ∀ h, s'.own h = if s.own h = q then p else s.own h := by
  obtain ⟨np', op, oq, ms, able, merges, run⟩ := pageObjectMerge_ok formed.has formed.link
    formed.whole listed listedq own ownq other enough
  refine ⟨np', s.merge p q ms own, run, ?_, merges.pageObjects, merges.realEnds, fun _ => rfl⟩
  refine formed.regroup (able.merged merges (formed.whole p listed own)) ?_ merges.pageObjects
    merges.realEnds
  intro h listed' fixed
  rw [merges.pageObjects] at listed'
  rw [Shape.merge_own] at fixed
  change s.tail h = none
  split at fixed
  next =>
    rw [← fixed]
    exact formed.whole p listed own
  next => exact formed.whole h listed' fixed

theorem Formed.unmerge (formed : Formed np s) (listed : p ∈ np.pageObjects)
    (enough : np.pageObjects.length ≤ fuel) :
    ∃ np' s', pageObjectUnmerge fuel p np = .ok np' ∧ Formed np' s' ∧
      np'.pageObjects = np.pageObjects ∧ np'.realEnds = np.realEnds ∧
      ∀ h ∈ np.pageObjects, s'.own h = if h = p ∨ s.own h = p then h else s.own h := by
  obtain ⟨np', s', run, has, pageObjects, realEnds, own, whole⟩ :=
    pageObjectUnmerge_ok formed.has listed formed.whole enough
  exact ⟨np', s', run, formed.regroup has whole pageObjects realEnds, pageObjects, realEnds, own⟩

theorem inChain_ok {m : Option Nat} {xs : List Nat} (x : Nat)
    (seg : Seg np.objects PageObject.merge m xs none) (enough : xs.length ≤ fuel) :
    inChain np x fuel m = .ok (decide (x ∈ xs)) := by
  induction xs generalizing fuel m with
  | nil =>
    obtain rfl : m = none := seg
    rw [inChain]
    simp
  | cons y ys ih =>
    obtain ⟨rfl, o, object, rest⟩ := seg
    cases fuel with
    | zero => exact absurd enough (Nat.not_succ_le_zero _)
    | succ fuel =>
      rw [inChain, NetPage.object, object]
      by_cases here : y = x
      case pos => simp [here]
      case neg =>
        rw [if_neg here]
        refine (ih rest (Nat.le_of_succ_le_succ enough)).trans ?_
        simp [Ne.symm here]

/-- The new primary is taken out of its group, which is then put into that of the new primary. -/
theorem Formed.setMergePrimary (formed : Formed np s) (other : p ≠ q) (own : np.owner p = p)
    (enough : np.pageObjects.length ≤ fuel) :
    ∃ np' s', pageObjectSetMergePrimary fuel p q np = .ok np' ∧ Formed np' s' ∧
      np'.pageObjects = np.pageObjects ∧ np'.realEnds = np.realEnds := by
  have stays : Formed np s ∧ np.pageObjects = np.pageObjects ∧ np.realEnds = np.realEnds :=
    ⟨formed, rfl, rfl⟩
  by_cases listed : p ∈ np.pageObjects ∧ q ∈ np.pageObjects
  case neg => exact ⟨np, s, if_neg listed, stays⟩
  obtain ⟨op, primary⟩ := (formed.has.alive p).mp listed.1
  obtain ⟨oq, secondary⟩ := (formed.has.alive q).mp listed.2
  rw [formed.has.owner_eq listed.1] at own
  obtain ⟨nodup, members⟩ := formed.has.members p listed.1 own
  have chain : Seg np.objects PageObject.merge (some p) (p :: s.members p) none :=
    ⟨rfl, op, primary, formed.whole p listed.1 own ▸ formed.has.chain p op primary own⟩
  have short : (p :: s.members p).length ≤ fuel := by
    refine Nat.le_trans (List.subperm_of_subset chain.nodup fun h member => ?_).length_le enough
    rcases List.mem_cons.mp member with rfl | member
    · exact listed.1
    · exact formed.has.members_alive listed.1 own h member
  rw [pageObjectSetMergePrimary, if_pos listed, NetPage.object, secondary]
  change ∃ np' s', (if oq.mergePrimary = some q then _ else _) = _ ∧ _
  by_cases already : oq.mergePrimary = some q
  case pos => exact ⟨np, s, if_pos already, stays⟩
  rw [if_neg already, inChain_ok q chain short]
  by_cases found : q ∈ p :: s.members p
  case neg =>
    refine ⟨np, s, ?_, stays⟩
    rw [decide_eq_false found]
    rfl
  obtain ⟨np₁, s₁, run₁, formed₁, pageObjects₁, realEnds₁, own₁⟩ := formed.unmerge listed.2 enough
  have ownq₁ : s₁.own q = q := (own₁ q listed.2).trans (if_pos (.inl rfl))
  have ownp₁ : s₁.own p = p := by
    rw [own₁ p listed.1, own, ite_self]
  obtain ⟨np', s', run', formed', pageObjects', realEnds', -⟩ := formed₁.merge
    (pageObjects₁ ▸ listed.2) (pageObjects₁ ▸ listed.1) ownq₁ ownp₁ other.symm
    (pageObjects₁ ▸ enough)
  refine ⟨np', s', ?_, formed', pageObjects'.trans pageObjects₁, realEnds'.trans realEnds₁⟩
  rw [decide_eq_true found]
  change (pageObjectUnmerge fuel q np >>= pageObjectMerge fuel q p) = _
  rw [run₁]
  exact run'

/-- Two pairs of hosts that a link joins are the same pair. -/
theorem Joins.same {a b c d : Nat} {ends : Option (Nat × Nat)} (first : Joins a b ends)
    (second : Joins c d ends) {ends' : Option (Nat × Nat)} (third : Joins a b ends') :
    Joins c d ends' := by
  rcases first with rfl | rfl <;> rcases second with same | same <;> cases same <;>
    simpa [Joins, or_comm] using third

theorem remap_simple {ends : Nat → Option (Nat × Nat)} (po po2 pol : Nat)
    (simple : ∀ a b x y, Joins a b (ends x) → Joins a b (ends y) → x = y) :
    ∀ a b x y, Joins a b (remap po po2 pol ends x) → Joins a b (remap po po2 pol ends y) →
      x = y := by
  have new : Joins po po2 (some (po, po2)) := .inl rfl
  have old {a b x : Nat}
      (joins : Joins a b (if Joins po po2 (ends x) then none else ends x)) :
      Joins a b (ends x) ∧ ¬ Joins po po2 (ends x) := by
    split at joins
    · simp [Joins] at joins
    next other => exact ⟨joins, other⟩
  intro a b x y first second
  unfold remap at first second
  by_cases herex : x = pol <;> by_cases herey : y = pol
  · rw [herex, herey]
  · rw [herex, Function.update_self] at first
    rw [Function.update_of_ne herey] at second
    exact absurd (first.same new (old second).1) (old second).2
  · rw [Function.update_of_ne herex] at first
    rw [herey, Function.update_self] at second
    exact absurd (second.same new (old first).1) (old first).2
  · rw [Function.update_of_ne herex] at first
    rw [Function.update_of_ne herey] at second
    exact simple a b x y (old first).1 (old second).1

theorem Formed.map {po po2 pol : Nat} (formed : Formed np s)
    (permitted : (Op.map po po2 pol).Permitted np) :
    ∃ np', netPageMapPageObjects po po2 pol np = .ok np' ∧ Formed np' s ∧
      np'.pageObjects = np.pageObjects ∧
      np'.realEnds = (Op.map po po2 pol).ends np.pageObjects np.realEnds := by
  by_cases valid : po ∈ np.pageObjects ∧ po2 ∈ np.pageObjects ∧ po ≠ po2
  case neg => exact ⟨np, if_neg valid, formed, rfl, (if_neg valid).symm⟩
  obtain ⟨listed, listed2, apart⟩ := valid
  obtain ⟨np', run, has, pageObjects, realEnds⟩ := netPageMapPageObjects_ok formed.has listed
    listed2 apart (formed.simple po po2) (permitted listed listed2 apart)
  refine ⟨np', run, ⟨has, ?_, ?_, ?_⟩, pageObjects, ?_⟩
  · rw [pageObjects]
    exact formed.whole
  · rw [pageObjects, realEnds]
    intro x a b ends
    unfold remap at ends
    by_cases here : x = pol
    case pos =>
      rw [here, Function.update_self] at ends
      cases ends
      exact ⟨listed, listed2⟩
    case neg =>
      rw [Function.update_of_ne here] at ends
      split at ends
      · cases ends
      · exact formed.linked x a b ends
  · rw [realEnds]
    exact remap_simple po po2 pol formed.simple
  · rw [realEnds, Op.ends, if_pos ⟨listed, listed2, apart⟩]

/-- There are finitely many links, so `malloc` has a block for one more. -/
theorem Formed.free (formed : Formed np s) : ∃ pol, np.links pol = none := by
  by_contra none
  have allocated (pol : Nat) : ∃ l, np.links pol = some l :=
    Option.ne_none_iff_exists'.mp fun free => none ⟨pol, free⟩
  choose l link using allocated
  let ends (pol : Nat) : {h // h ∈ np.pageObjects} × {h // h ∈ np.pageObjects} :=
    (⟨(l pol).po1, (formed.link pol _ (link pol)).1⟩,
      ⟨(l pol).po2, (formed.link pol _ (link pol)).2⟩)
  obtain ⟨x, y, other, same⟩ := Finite.exists_ne_map_eq_of_infinite ends
  obtain ⟨first, second⟩ := Prod.mk.inj same
  refine other (formed.simple (l x).po1 (l x).po2 x y (.inl (realEnds_of_link (link x))) (.inl ?_))
  rw [realEnds_of_link (link y), Subtype.mk.inj first, Subtype.mk.inj second]

/-! ## Runs keep the merge graph -/

theorem Formed.step (formed : Formed np s) (enough : np.pageObjects.length ≤ fuel) (op : Op)
    (permitted : op.Permitted np) :
    ∃ np' s', op.exec fuel np = .ok np' ∧ Formed np' s' ∧ np'.pageObjects = np.pageObjects ∧
      np'.realEnds = op.ends np.pageObjects np.realEnds := by
  cases op with
  | merge primary secondary =>
    obtain ⟨listed, listedq, other, own, ownq⟩ := permitted
    rw [formed.has.owner_eq listed] at own
    rw [formed.has.owner_eq listedq] at ownq
    obtain ⟨np', s', run, formed', pageObjects, realEnds, -⟩ :=
      formed.merge listed listedq own ownq other enough
    exact ⟨np', s', run, formed', pageObjects, realEnds⟩
  | unmerge p =>
    obtain ⟨np', s', run, formed', pageObjects, realEnds, -⟩ := formed.unmerge permitted enough
    exact ⟨np', s', run, formed', pageObjects, realEnds⟩
  | setMergePrimary primary newPrimary =>
    exact formed.setMergePrimary permitted.1 permitted.2 enough
  | map po po2 pol =>
    obtain ⟨np', run, formed', pageObjects, realEnds⟩ := formed.map permitted
    exact ⟨np', s, run, formed', pageObjects, realEnds⟩

theorem Formed.run {ops : List Op} (formed : Formed np s) (enough : np.pageObjects.length ≤ fuel)
    (run : Run (Step fuel) np ops np') :
    (∃ s', Formed np' s') ∧ np'.pageObjects = np.pageObjects ∧
      np'.realEnds = ops.foldl (Op.ends np.pageObjects) np.realEnds := by
  refine run.invariant (I := fun ops np' => (∃ s', Formed np' s') ∧
    np'.pageObjects = np.pageObjects ∧
    np'.realEnds = ops.foldl (Op.ends np.pageObjects) np.realEnds) ⟨⟨s, formed⟩, rfl, rfl⟩ ?_
  rintro ops np₁ op np₂ - ⟨⟨s₁, formed₁⟩, pageObjects, realEnds⟩ ⟨permitted, step⟩
  obtain ⟨np', s', run', formed', pageObjects', realEnds'⟩ :=
    formed₁.step (pageObjects ▸ enough) op permitted
  cases step.symm.trans run'
  refine ⟨⟨s', formed'⟩, pageObjects'.trans pageObjects, ?_⟩
  rw [realEnds', pageObjects, realEnds, List.foldl_append, List.foldl_cons, List.foldl_nil]

/-- Only a group whose primary is still to come is left. -/
theorem unmergeAll_ok {ps : List Nat} (formed : Formed np s)
    (enough : np.pageObjects.length ≤ fuel) (listed : ∀ p ∈ ps, p ∈ np.pageObjects)
    (left : ∀ h ∈ np.pageObjects, s.own h ≠ h → s.own h ∈ ps) :
    ∃ np' s', unmergeAll fuel ps np = .ok np' ∧ Formed np' s' ∧
      np'.pageObjects = np.pageObjects ∧ np'.realEnds = np.realEnds ∧
      ∀ h ∈ np.pageObjects, s'.own h = h := by
  induction ps generalizing np s with
  | nil =>
    refine ⟨np, s, rfl, formed, rfl, rfl, fun h member => ?_⟩
    by_contra own
    cases left h member own
  | cons p ps ih =>
    obtain ⟨np₁, s₁, run₁, formed₁, pageObjects₁, realEnds₁, own₁⟩ :=
      formed.unmerge (listed p (.head _)) enough
    obtain ⟨np', s', run', formed', pageObjects', realEnds', own'⟩ := ih formed₁
      (pageObjects₁ ▸ enough) (fun p member => pageObjects₁ ▸ listed p (.tail _ member)) (by
        rw [pageObjects₁]
        intro h member away
        rw [own₁ h member] at away ⊢
        split at away
        · exact absurd rfl away
        next other =>
          rw [if_neg other]
          obtain ⟨-, notp⟩ := not_or.mp other
          exact (List.mem_cons.mp (left h member away)).resolve_left notp)
    refine ⟨np', s', ?_, formed', pageObjects'.trans pageObjects₁, realEnds'.trans realEnds₁,
      fun h member => own' h (pageObjects₁ ▸ member)⟩
    rw [unmergeAll, run₁]
    exact run'

/-- Where no host is in a group, a link is listed exactly at its two ends. -/
theorem Formed.apart (formed : Formed np s) (own : ∀ h ∈ np.pageObjects, s.own h = h) {h : Nat}
    {o : PageObject} (object : np.objects h = some o) :
    o.merge = none ∧ ∀ pol, o.links.count pol = ends id (np.links pol) h := by
  have listed := formed.has.mem object
  constructor
  · have chain := formed.has.chain h o object (own h listed)
    have members := (formed.has.members h listed (own h listed)).2
    cases group : s.members h with
    | nil =>
      rw [group, formed.whole h listed (own h listed)] at chain
      exact chain
    | cons x xs =>
      rw [group] at members
      obtain ⟨owned, other⟩ := members x (.head _)
      have alive := formed.has.members_alive listed (own h listed) x (group ▸ .head _)
      exact absurd ((own x alive).symm.trans owned) other
  · intro pol
    rw [formed.has.listed.count h o object nofun]
    refine ends_congr fun l link => ?_
    obtain ⟨listed1, listed2⟩ := formed.link pol l link
    exact ⟨own _ listed1, own _ listed2⟩

/-- In every run the merge graph stays well formed, every call that may be made ends without a use
    of what has been freed, and the ends of a link only change when its hosts are linked again; when
    all groups are unmerged, each link is listed at its ends. -/
theorem merge_graph_kept {ops : List Op} (graph : np.MergeGraph)
    (enough : np.pageObjects.length ≤ fuel) (run : Run (Step fuel) np ops np') :
    np'.MergeGraph ∧ np'.pageObjects = np.pageObjects ∧
    np'.realEnds = ops.foldl (Op.ends np.pageObjects) np.realEnds ∧
    (∀ op : Op, op.Permitted np' → ∃ np'', Step fuel np' op np'') ∧
    ∃ np'', unmergeAll fuel np'.pageObjects np' = .ok np'' ∧ np''.realEnds = np'.realEnds ∧
      ∀ h o, np''.objects h = some o →
        o.merge = none ∧ ∀ pol, o.links.count pol = ends id (np''.links pol) h := by
  obtain ⟨s, formed⟩ := graph.formed
  obtain ⟨⟨s', formed'⟩, pageObjects, realEnds⟩ := formed.run enough run
  have enough' : np'.pageObjects.length ≤ fuel := pageObjects ▸ enough
  refine ⟨formed'.graph, pageObjects, realEnds, fun op permitted => ?_, ?_⟩
  · obtain ⟨np'', -, exec, -⟩ := formed'.step enough' op permitted
    exact ⟨np'', permitted, exec⟩
  · obtain ⟨np'', s'', exec, formed'', pageObjects'', realEnds'', own⟩ := unmergeAll_ok formed'
      enough' (fun _ member => member) fun h member _ => formed'.has.own_mem member
    exact ⟨np'', exec, realEnds'', fun h o object => formed''.apart (pageObjects'' ▸ own) object⟩

/-! ## Three hosts -/

instance (np : NetPage) : (op : Op) → Decidable (op.Permitted np)
  | .merge _ _ => inferInstanceAs (Decidable (_ ∧ _ ∧ _ ∧ _ ∧ _))
  | .unmerge _ => inferInstanceAs (Decidable (_ ∈ _))
  | .setMergePrimary _ _ => inferInstanceAs (Decidable (_ ∧ _))
  | .map _ _ _ => inferInstanceAs (Decidable (_ → _ → _ → _ ∨ _))

def Op.call (fuel : Nat) (np : NetPage) (op : Op) : Option NetPage :=
  if op.Permitted np then (op.exec fuel np).toOption else none

theorem Op.call_sound {op : Op} (h : op.call fuel np = some np') : Step fuel np op np' := by
  unfold Op.call at h
  split at h
  case isTrue permitted =>
    refine ⟨permitted, ?_⟩
    cases result : op.exec fuel np with
    | error fault =>
      rw [result] at h
      cases h
    | ok np₁ =>
      rw [result] at h
      cases h
      rfl
  case isFalse => cases h

def blank : NetPage where
  pageObjects := [1, 2, 3]
  objects h := if h ∈ [1, 2, 3] then some ⟨none, none, []⟩ else none
  links _ := none

theorem blank_objects {h : Nat} {o : PageObject} (object : blank.objects h = some o) :
    o = ⟨none, none, []⟩ := by
  simp only [blank] at object
  split at object
  · exact (Option.some.inj object).symm
  · cases object

theorem blank_graph : blank.MergeGraph where
  nodup := by decide
  alive h := by
    simp only [blank]
    split
    next listed => exact ⟨fun _ => ⟨_, rfl⟩, fun _ => listed⟩
    next unlisted => exact ⟨fun listed => absurd listed unlisted, nofun⟩
  unmerged h o object _ := by rw [blank_objects object]
  chain p o object merged := by
    rw [blank_objects object] at merged
    cases merged
  member h o p object merged := by
    rw [blank_objects object] at merged
    cases merged
  linked _ _ := nofun
  listed h o object pol := by
    rw [blank_objects object]
    rfl
  named _ _ := nofun
  simple a b x y first := by
    rcases first with first | first
    · cases first
    · cases first

/-- A link inside a group, and the group in another. -/
theorem merge_graph_kept_blank :
    ∃ np', Run (Step 3) blank [.map 1 2 7, .merge 1 2, .merge 3 1] np' ∧ np'.MergeGraph ∧
      np'.realEnds 7 = some (1, 2) ∧ (np'.objects 3).map PageObject.links = some [7, 7] := by
  have final :
      ([.map 1 2 7, .merge 1 2, .merge 3 1].foldlM (Op.call 3) blank).map (fun np' =>
        (np'.realEnds 7, (np'.objects 3).map PageObject.links)) =
        some (some (1, 2), some [7, 7]) := by decide
  obtain ⟨np', ended, facts⟩ := Option.map_eq_some_iff.mp final
  obtain ⟨ends, links⟩ := Prod.mk.inj facts
  have run : Run (Step 3) blank [.map 1 2 7, .merge 1 2, .merge 3 1] np' :=
    .of_exec Op.call_sound ended
  exact ⟨np', run, (merge_graph_kept blank_graph (by decide) run).1, ends, links⟩

def grouped : NetPage :=
  (([.map 1 3 7, .merge 1 2, .merge 1 3] : List Op).foldlM (Op.call 3) blank).getD blank

theorem grouped_run : Run (Step 3) blank [.map 1 3 7, .merge 1 2, .merge 1 3] grouped := by
  have some : (([.map 1 3 7, .merge 1 2, .merge 1 3] : List Op).foldlM (Op.call 3) blank).isSome :=
    by decide
  refine .of_exec Op.call_sound ?_
  rw [grouped, ← Option.some_get some]
  rfl

/-- 2 has no link, so none is moved. -/
theorem grouped_moveLinks : moveLinks 1 2 grouped =
    .ok ((grouped.set 1 ⟨some 3, some 1, [7, 7]⟩).set 2 ⟨none, some 1, []⟩) := by
  have link : grouped.links 7 = some ⟨1, 3, none, some 1⟩ := by decide
  have kept : unmergeLinks 2 grouped.links [7, 7] [] 0 = .ok (grouped.links, [7, 7], []) := by
    rw [unmergeLinks]
    simp only [List.length_cons, Nat.zero_lt_succ, List.not_mem_nil]
    rw [unmergeLinks]
    simp [link]
    rw [unmergeLinks]
    simp
  have primary : grouped.object 1 = .ok ⟨some 3, some 1, [7, 7]⟩ := rfl
  have member : grouped.object 2 = .ok ⟨none, some 1, []⟩ := rfl
  rw [moveLinks, primary, member]
  change (unmergeLinks 2 grouped.links [7, 7] [] 0 >>= _) = _
  rw [kept]
  rfl

def ungrouped : NetPage :=
  (((((grouped.set 1 ⟨some 3, some 1, [7, 7]⟩).set 2 ⟨none, some 1, []⟩).set 3
    ⟨none, some 1, []⟩).set 1 ⟨some 3, some 1, [7, 7]⟩).set 2 ⟨none, none, []⟩)

theorem grouped_unmerge : pageObjectUnmerge 3 2 grouped = .ok ungrouped := by
  have member : grouped.object 2 = .ok ⟨none, some 1, []⟩ := rfl
  rw [pageObjectUnmerge, member]
  change (moveLinks 1 2 grouped >>= _) = _
  rw [grouped_moveLinks]
  rfl

/-- Where 3 is a member of the group of 1 and not its primary, making 2 the primary for it leaves
    the link between 1 and 3 with the old primary in `merge2`. -/
theorem merge_graph_lost : blank.MergeGraph ∧
    ∃ np', Run (AnyStep 3) blank [.map 1 3 7, .merge 1 2, .merge 1 3, .setMergePrimary 3 2] np' ∧
      ¬ np'.MergeGraph := by
  have admitted {np np' : NetPage} {op : Op} (step : Step 3 np op np') : AnyStep 3 np op np' := by
    refine ⟨?_, step.2⟩
    cases op with
    | setMergePrimary => trivial
    | merge | unmerge | map => exact step.1
  have exec : (Op.setMergePrimary 3 2).exec 3 grouped = pageObjectMerge 3 2 3 ungrouped := by
    change (pageObjectUnmerge 3 2 grouped >>= _) = _
    rw [grouped_unmerge]
    rfl
  have merged : ∃ np', pageObjectMerge 3 2 3 ungrouped = .ok np' ∧
      np'.links 7 = some ⟨1, 3, some 2, some 1⟩ ∧ np'.owner 3 = 2 :=
    ⟨_, rfl, by decide, by decide⟩
  obtain ⟨np', run, link, owner⟩ := merged
  refine ⟨blank_graph, np', (grouped_run.mono fun _ _ _ => admitted).snoc ⟨trivial, exec.trans run⟩,
    fun graph => ?_⟩
  have named := (graph.named 7 _ link).2
  rw [owner] at named
  exact absurd named (by decide)

end Cheops.Canvas
