import Cheops.Canvas.Unmerge

/-! # Merging hosts

`page_object_merge` puts a host, or the whole group of a primary, into the group of another
primary, which gets their links.  The ends of a link stay what they are; it is only drawn elsewhere.
-/

namespace Cheops.Canvas

open Cheops.Lib

/-! ## `page_object_merge` -/

/-- What becomes of a link when `secondary` is the primary of its group. -/
def PageObjectLink.mergeGroup (primary secondary : Nat) (pol : PageObjectLink) : PageObjectLink :=
  let pol := if pol.po1 = secondary then { pol with merge1 := some primary } else pol
  let pol := if pol.po2 = secondary then { pol with merge2 := some primary } else pol
  let pol := if pol.merge1 = some secondary then { pol with merge1 := some primary } else pol
  if pol.merge2 = some secondary then { pol with merge2 := some primary } else pol

/-- What becomes of a link in the other cases, where one of the ends is changed at most. -/
def PageObjectLink.mergeOne (primary secondary : Nat) (pol : PageObjectLink) : PageObjectLink :=
  if pol.po1 = secondary then { pol with merge1 := some primary }
  else if pol.po2 = secondary then { pol with merge2 := some primary }
  else if pol.merge1 = some secondary then { pol with merge1 := some primary }
  else if pol.merge2 = some secondary then { pol with merge2 := some primary }
  else pol

def forLinks (f : PageObjectLink → PageObjectLink) : List Nat → NetPage → Except Fault NetPage
  | [], np => .ok np
  | pol :: pols, np => do
    let l ← np.link pol
    forLinks f pols { np with links := Function.update np.links pol (some (f l)) }

/-- `for(p = po->merge; p && p->merge; p = p->merge)`. -/
def lastMergeLoop (np : NetPage) : Nat → Option Nat → Except Fault (Option Nat)
  | _, none => .ok none
  | 0, some _ => .error .endless
  | fuel + 1, some p => do
    match (← np.object p).merge with
    | none => return some p
    | some next => lastMergeLoop np fuel (some next)

def pageObjectGetLastMerge (fuel po : Nat) (np : NetPage) : Except Fault (Option Nat) := do
  lastMergeLoop np fuel (← np.object po).merge

/-- `po->links = g_list_concat(po->links, other->links); other->links = NULL`. -/
def concatLinks (po other : Nat) (np : NetPage) : Except Fault NetPage := do
  let links := (← np.object other).links
  let np ← np.modify po fun o => { o with links := o.links ++ links }
  np.modify other fun o => { o with links := [] }

/-- The group of `top` goes behind the last host in the group of `primary`. -/
def mergeGroup (relink : PageObjectLink → PageObjectLink) (fuel primary top : Nat) (np : NetPage) :
    Except Fault NetPage := do
  let np ← forLinks relink (← np.object top).links np
  let np ← concatLinks primary top np
  let last ← pageObjectGetLastMerge fuel primary np
  let np ← np.modify (last.getD primary) fun o => { o with merge := some top }
  let np ← np.modify top fun o => { o with mergePrimary := some primary }
  forMerged (fun po np => np.modify po fun o => { o with mergePrimary := some primary }) fuel
    (← np.object top).merge np

def mergeOne (primary secondary : Nat) (np : NetPage) : Except Fault NetPage := do
  let merge := (← np.object primary).merge
  let np ← np.modify secondary fun o => { o with merge }
  let np ← np.modify primary fun o => { o with merge := some secondary }
  let np ← np.modify secondary fun o => { o with mergePrimary := some primary }
  let np ← forLinks (·.mergeOne primary secondary) (← np.object secondary).links np
  concatLinks primary secondary np

/-- The three cases of `page_object_merge`. -/
def mergeSecondary (fuel primary secondary : Nat) (np : NetPage) : Except Fault NetPage := do
  match (← np.object secondary).mergePrimary with
  | some top =>
    if top = secondary then mergeGroup (·.mergeGroup primary secondary) fuel primary secondary np
    else mergeGroup (·.mergeOne primary top) fuel primary top np
  | none => mergeOne primary secondary np

def pageObjectMerge (fuel primary secondary : Nat) (np : NetPage) : Except Fault NetPage := do
  let np ← np.modify primary fun o => { o with mergePrimary := some primary }
  let np ← mergeSecondary fuel primary secondary np
  pageObjectLinksMove np (← np.object primary).links
  return np

/-! ## The links -/

variable {p q : Nat} {l : PageObjectLink} {np : NetPage} {s : Shape}

structure Redrawn (p q : Nat) (l l' : PageObjectLink) : Prop where
  po1 : l'.po1 = l.po1
  po2 : l'.po2 = l.po2
  end1 : l'.end1 = if l.end1 = q then p else l.end1
  end2 : l'.end2 = if l.end2 = q then p else l.end2

def redraw (p q po : Nat) (merge : Option Nat) : Option Nat :=
  if po = q ∨ merge = some q then some p else merge

theorem redraw_idem (p q po : Nat) (merge : Option Nat) :
    redraw p q po (redraw p q po merge) = redraw p q po merge := by
  by_cases here : po = q ∨ merge = some q
  case pos => rw [redraw, redraw, if_pos here, ite_self]
  case neg => rw [redraw, redraw, if_neg here, if_neg here]

theorem redraw_drawn {po : Nat} {merge : Option Nat} (drawn : po = q → merge.getD po = q) :
    (redraw p q po merge).getD po = if merge.getD po = q then p else merge.getD po := by
  have iff : (po = q ∨ merge = some q) ↔ merge.getD po = q := by
    cases merge with
    | none => simp
    | some m => simpa using drawn
  rw [redraw]
  by_cases here : merge.getD po = q
  case pos => rw [if_pos (iff.mpr here), if_pos here, Option.getD_some]
  case neg => rw [if_neg (mt iff.mp here), if_neg here]

theorem mergeGroup_eq (other : p ≠ q) (l : PageObjectLink) :
    l.mergeGroup p q = {
      l with merge1 := redraw p q l.po1 l.merge1, merge2 := redraw p q l.po2 l.merge2 } := by
  unfold PageObjectLink.mergeGroup redraw
  by_cases first : l.po1 = q <;> by_cases second : l.po2 = q <;>
    by_cases merged1 : l.merge1 = some q <;> by_cases merged2 : l.merge2 = some q <;>
    simp [first, second, merged1, merged2, other]

theorem mergeGroup_idem (other : p ≠ q) (l : PageObjectLink) :
    (l.mergeGroup p q).mergeGroup p q = l.mergeGroup p q := by
  rw [mergeGroup_eq other (l.mergeGroup p q), mergeGroup_eq other l]
  simp only [redraw_idem]

theorem mergeGroup_redrawn (other : p ≠ q) (drawn1 : l.po1 = q → l.end1 = q)
    (drawn2 : l.po2 = q → l.end2 = q) : Redrawn p q l (l.mergeGroup p q) := by
  rw [mergeGroup_eq other]
  exact ⟨rfl, rfl, redraw_drawn drawn1, redraw_drawn drawn2⟩

/-- A link of a host that is not merged has one end at it. -/
theorem mergeOne_eq (first : l.po1 = q ∨ l.po2 = q) :
    l.mergeOne p q =
      if l.po1 = q then { l with merge1 := some p } else { l with merge2 := some p } := by
  unfold PageObjectLink.mergeOne
  split
  · rfl
  case isFalse other => rw [if_pos (first.resolve_left other)]

theorem mergeOne_idem (first : l.po1 = q ∨ l.po2 = q) :
    (l.mergeOne p q).mergeOne p q = l.mergeOne p q := by
  rw [mergeOne_eq first]
  split
  case isTrue here =>
    exact (mergeOne_eq (l := { l with merge1 := some p }) (.inl here)).trans (if_pos here)
  case isFalse other =>
    exact (mergeOne_eq (l := { l with merge2 := some p }) first).trans (if_neg other)

theorem mergeOne_redrawn (apart : l.po1 ≠ l.po2) (first : l.po1 = q ∨ l.po2 = q)
    (drawn1 : l.end1 = q ↔ l.po1 = q) (drawn2 : l.end2 = q ↔ l.po2 = q) :
    Redrawn p q l (l.mergeOne p q) := by
  rw [mergeOne_eq first]
  by_cases here : l.po1 = q
  case pos =>
    have second : l.po2 ≠ q := fun same => apart (here.trans same.symm)
    rw [if_pos here]
    exact ⟨rfl, rfl, (if_pos (drawn1.mpr here)).symm, (if_neg (mt drawn2.mp second)).symm⟩
  case neg =>
    rw [if_neg here]
    exact ⟨rfl, rfl, (if_neg (mt drawn1.mp here)).symm,
      (if_pos (drawn2.mpr (first.resolve_left here))).symm⟩

def NetPage.relinked (np : NetPage) (f : PageObjectLink → PageObjectLink) (pols : List Nat) :
    NetPage :=
  { np with links := fun pol => if pol ∈ pols then (np.links pol).map f else np.links pol }

/-- A link that is in the list twice is changed as if it were there once. -/
theorem forLinks_ok {f : PageObjectLink → PageObjectLink} {pols : List Nat}
    (idem : ∀ pol ∈ pols, ∃ l, np.links pol = some l ∧ f (f l) = f l) :
    forLinks f pols np = .ok (np.relinked f pols) := by
  induction pols generalizing np with
  | nil => rfl
  | cons pol pols ih =>
    obtain ⟨⟨l, link, same⟩, rest⟩ := List.forall_mem_cons.mp idem
    rw [forLinks, NetPage.link, link]
    refine (ih fun pol' member => ?_).trans ?_
    · obtain ⟨l', link', same'⟩ := rest pol' member
      by_cases here : pol' = pol
      case pos => exact ⟨f l, by rw [here]; exact Function.update_self .., congrArg f same⟩
      case neg => exact ⟨l', (Function.update_of_ne here ..).trans link', same'⟩
    · refine congrArg Except.ok (NetPage.ext rfl rfl (funext fun pol' => ?_))
      by_cases here : pol' = pol
      case pos => simp [NetPage.relinked, here, link, same]
      case neg => simp [NetPage.relinked, here]

/-! ## The page with one group more in the group of `p` -/

/-- The group of `q` is in the group of `p`, which has the members `ms`. -/
def Shape.merge (s : Shape) (p q : Nat) (ms : List Nat) (own : s.own p = p) : Shape where
  own h := if s.own h = q then p else s.own h
  members h := if h = p then ms else s.members h
  tail := s.tail
  own_own h := by
    by_cases grouped : s.own h = q
    case pos => rw [if_pos grouped, own, ite_self]
    case neg => rw [if_neg grouped, s.own_own, if_neg grouped]

theorem Shape.merge_own (s : Shape) (ms : List Nat) (own : s.own p = p) (h : Nat) :
    (s.merge p q ms own).own h = if s.own h = q then p else s.own h := rfl

/-- `p` and `q` are not merged or the primaries of their groups, which are to be merged. -/
structure Mergeable (np : NetPage) (s : Shape) (p q : Nat) (op oq : PageObject) (ms : List Nat) :
    Prop where
  has : np.Has s
  primary : np.objects p = some op
  secondary : np.objects q = some oq
  own : s.own p = p
  ownq : s.own q = q
  other : p ≠ q
  perm : ms.Perm (s.members p ++ q :: s.members q)

structure Merges (np np' : NetPage) (p q : Nat) (op oq : PageObject) (ms : List Nat) : Prop where
  pageObjects : np'.pageObjects = np.pageObjects
  other : ∀ h, h ≠ p → h ∉ ms → np'.objects h = np.objects h
  primary : ∃ merge, np'.objects p = some ⟨merge, some p, op.links ++ oq.links⟩ ∧
    Seg np'.objects PageObject.merge merge ms none
  member : ∀ h ∈ ms, ∃ o', np'.objects h = some o' ∧ o'.mergePrimary = some p ∧ o'.links = []
  links : ∀ pol, Option.Rel (Redrawn p q) (np.links pol) (np'.links pol)

variable {np' : NetPage} {op oq : PageObject} {ms : List Nat} {h : Nat}

theorem Merges.link {pol : Nat} {l' : PageObjectLink} (merges : Merges np np' p q op oq ms)
    (link : np'.links pol = some l') : ∃ l, np.links pol = some l ∧ Redrawn p q l l' := by
  have rel := merges.links pol
  rw [link] at rel
  generalize np.links pol = before at rel
  cases rel with
  | some redrawn => exact ⟨_, rfl, redrawn⟩

/-- Whether `h` owns an end that `owner` has owned. -/
theorem merged_end (other : p ≠ q) (owner h : Nat) :
    (if (if owner = q then p else owner) = h then 1 else 0) =
      if h = p then (if owner = p then 1 else 0) + (if owner = q then 1 else 0)
      else if h = q then 0
      else if owner = h then 1 else 0 := by
  split_ifs <;> omega

theorem Merges.ends (merges : Merges np np' p q op oq ms) (other : p ≠ q) (own : s.own p = p)
    (pol h : Nat) :
    ends (s.merge p q ms own).own (np'.links pol) h =
      if h = p then Canvas.ends s.own (np.links pol) p + Canvas.ends s.own (np.links pol) q
      else if h = q then 0
      else Canvas.ends s.own (np.links pol) h := by
  have rel := merges.links pol
  generalize np.links pol = before at rel
  generalize np'.links pol = after at rel
  cases rel with
  | none => simp only [Canvas.ends, ite_self]
  | some redrawn =>
    simp only [Canvas.ends, Shape.merge_own, redrawn.po1, redrawn.po2, merged_end other]
    split_ifs <;> omega

namespace Mergeable

/-- Who is in the group of `p` afterwards. -/
theorem mem (able : Mergeable np s p q op oq ms) (member : h ∈ ms) :
    h ≠ p ∧ h ∈ np.pageObjects ∧ (s.own h = p ∨ s.own h = q) := by
  have listed := able.has.mem able.primary
  have listedq := able.has.mem able.secondary
  rcases List.mem_append.mp (able.perm.mem_iff.mp member) with first | second
  · obtain ⟨owned, away⟩ := (able.has.members p listed able.own).2 h first
    exact ⟨away, able.has.members_alive listed able.own h first, .inl owned⟩
  rcases List.mem_cons.mp second with rfl | second
  · exact ⟨able.other.symm, listedq, .inr able.ownq⟩
  · obtain ⟨owned, -⟩ := (able.has.members q listedq able.ownq).2 h second
    refine ⟨?_, able.has.members_alive listedq able.ownq h second, .inr owned⟩
    rintro rfl
    exact able.other (able.own.symm.trans owned)

theorem mem_of_own (able : Mergeable np s p q op oq ms) (listed : h ∈ np.pageObjects) (away : h ≠ p)
    (owned : s.own h = p ∨ s.own h = q) : h ∈ ms := by
  rw [able.perm.mem_iff, List.mem_append, List.mem_cons]
  rcases owned with owned | owned
  · have member := (able.has.member h listed (owned ▸ away.symm)).2
    rw [owned] at member
    exact .inl member
  by_cases here : h = q
  case pos => exact .inr (.inl here)
  case neg =>
    have member := (able.has.member h listed (owned ▸ Ne.symm here)).2
    rw [owned] at member
    exact .inr (.inr member)

theorem nodup (able : Mergeable np s p q op oq ms) : ms.Nodup := by
  obtain ⟨nodup, members⟩ := able.has.members p (able.has.mem able.primary) able.own
  obtain ⟨nodupq, membersq⟩ := able.has.members q (able.has.mem able.secondary) able.ownq
  rw [able.perm.nodup_iff, List.nodup_append', List.nodup_cons]
  refine ⟨nodup, ⟨fun member => (membersq q member).2 rfl, nodupq⟩, ?_⟩
  intro h first second
  have owned := (members h first).1
  rcases List.mem_cons.mp second with rfl | second
  · exact able.other (owned.symm.trans able.ownq)
  · exact able.other (owned.symm.trans (membersq h second).1)

/-- The owner of a host that is not in the group of `p` is what it was. -/
theorem own_other (able : Mergeable np s p q op oq ms) (listed : h ∈ np.pageObjects) (away : h ≠ p)
    (apart : h ∉ ms) : s.own h ≠ p ∧ (s.merge p q ms able.own).own h = s.own h := by
  refine ⟨fun owned => apart (able.mem_of_own listed away (.inl owned)), if_neg ?_⟩
  exact fun owned => apart (able.mem_of_own listed away (.inr owned))

theorem own_mem (able : Mergeable np s p q op oq ms) (member : h ∈ ms) :
    (s.merge p q ms able.own).own h = p := by
  rcases (able.mem member).2.2 with owned | owned
  · exact (if_neg (by rw [owned]; exact able.other)).trans owned
  · exact if_pos owned

theorem own_primary (able : Mergeable np s p q op oq ms) :
    (s.merge p q ms able.own).own p = p :=
  (if_neg (by rw [able.own]; exact able.other)).trans able.own

theorem listed (able : Mergeable np s p q op oq ms) (merges : Merges np np' p q op oq ms) :
    np'.Listed (s.merge p q ms able.own).own none where
  apart pol l' link' := by
    obtain ⟨l, link, redrawn⟩ := merges.link link'
    rw [redrawn.po1, redrawn.po2]
    exact able.has.listed.apart pol l link
  drawn1 pol l' link' := by
    obtain ⟨l, link, redrawn⟩ := merges.link link'
    obtain ⟨drawn, listed⟩ := able.has.listed.drawn1 pol l link
    rw [redrawn.end1, redrawn.po1, drawn, merges.pageObjects]
    refine ⟨rfl, ?_⟩
    rw [Shape.merge_own]
    split
    · exact able.has.mem able.primary
    · exact listed
  drawn2 pol l' link' := by
    obtain ⟨l, link, redrawn⟩ := merges.link link'
    obtain ⟨drawn, listed⟩ := able.has.listed.drawn2 pol l link
    rw [redrawn.end2, redrawn.po2, drawn, merges.pageObjects]
    refine ⟨rfl, ?_⟩
    rw [Shape.merge_own]
    split
    · exact able.has.mem able.primary
    · exact listed
  count h o' object' _ pol := by
    have count := able.has.listed.count
    rw [merges.ends able.other]
    by_cases here : h = p
    case pos =>
      obtain ⟨merge, object, -⟩ := merges.primary
      subst here
      cases object.symm.trans object'
      rw [if_pos rfl, List.count_append, count h op able.primary nofun,
        count q oq able.secondary nofun]
    rw [if_neg here]
    by_cases member : h ∈ ms
    case pos =>
      obtain ⟨o₁, object, -, none⟩ := merges.member h member
      cases object.symm.trans object'
      rw [none, List.count_nil]
      by_cases secondary : h = q
      case pos => rw [if_pos secondary]
      case neg =>
        obtain ⟨-, listed, owned⟩ := able.mem member
        obtain ⟨o₀, object₀⟩ := (able.has.alive h).mp listed
        have away : s.own h ≠ h := by
          rcases owned with owned | owned
          · exact owned ▸ Ne.symm here
          · exact owned ▸ Ne.symm secondary
        rw [if_neg secondary, ← count h o₀ object₀ nofun, able.has.no_links object₀ away,
          List.count_nil]
    case neg =>
      have secondary : h ≠ q := by
        rintro rfl
        exact member (able.perm.mem_iff.mpr (by simp))
      rw [merges.other h here member] at object'
      rw [if_neg secondary, count h o' object' nofun]

theorem secondary_mem (able : Mergeable np s p q op oq ms) : q ∈ ms := by
  rw [able.perm.mem_iff]
  exact List.mem_append_right _ (.head _)

/-- A record of the merged page is that of `p`, of one of its members, or what it was. -/
theorem cases (able : Mergeable np s p q op oq ms) (merges : Merges np np' p q op oq ms)
    {o' : PageObject} (object' : np'.objects h = some o') :
    (h = p ∧ o'.mergePrimary = some p ∧ Seg np'.objects PageObject.merge o'.merge ms none) ∨
    (h ∈ ms ∧ o'.mergePrimary = some p) ∨
    (h ≠ p ∧ h ∉ ms ∧ np.objects h = some o') := by
  by_cases here : h = p
  case pos =>
    subst here
    obtain ⟨merge, object, chain⟩ := merges.primary
    cases object.symm.trans object'
    exact .inl ⟨rfl, rfl, chain⟩
  by_cases member : h ∈ ms
  case pos =>
    obtain ⟨o₁, object, primary, -⟩ := merges.member h member
    cases object.symm.trans object'
    exact .inr (.inl ⟨member, primary⟩)
  case neg => exact .inr (.inr ⟨here, member, merges.other h here member ▸ object'⟩)

theorem alive (able : Mergeable np s p q op oq ms) (merges : Merges np np' p q op oq ms) (h : Nat) :
    (∃ o', np'.objects h = some o') ↔ ∃ o, np.objects h = some o := by
  by_cases here : h = p
  case pos =>
    subst here
    obtain ⟨merge, object, -⟩ := merges.primary
    exact ⟨fun _ => ⟨_, able.primary⟩, fun _ => ⟨_, object⟩⟩
  by_cases member : h ∈ ms
  case pos =>
    obtain ⟨o₁, object, -⟩ := merges.member h member
    exact ⟨fun _ => (able.has.alive h).mp (able.mem member).2.1, fun _ => ⟨_, object⟩⟩
  case neg => rw [merges.other h here member]

/-- The page has one group where it had two. -/
theorem merged (able : Mergeable np s p q op oq ms) (merges : Merges np np' p q op oq ms)
    (whole : s.tail p = none) : np'.Has (s.merge p q ms able.own) where
  nodup := merges.pageObjects ▸ able.has.nodup
  alive h := by
    rw [merges.pageObjects, able.has.alive]
    exact (able.alive merges h).symm
  owner h o' object' := by
    rcases able.cases merges object' with ⟨rfl, primary, -⟩ | ⟨member, primary⟩ |
      ⟨away, apart, object⟩
    · rw [able.own_primary, primary, Option.getD_some]
    · rw [able.own_mem member, primary, Option.getD_some]
    · rw [(able.own_other (able.has.mem object) away apart).2]
      exact able.has.owner h o' object
  unmerged h o' object' unmerged := by
    rcases able.cases merges object' with ⟨rfl, primary, -⟩ | ⟨member, primary⟩ |
      ⟨away, apart, object⟩
    · exact absurd (primary.symm.trans unmerged) nofun
    · exact absurd (primary.symm.trans unmerged) nofun
    · exact able.has.unmerged h o' object unmerged
  chain h o' object' fixed := by
    rcases able.cases merges object' with ⟨rfl, -, chain⟩ | ⟨member, -⟩ | ⟨away, apart, object⟩
    · dsimp only [Shape.merge]
      rw [if_pos rfl, whole]
      exact chain
    · rw [able.own_mem member] at fixed
      exact absurd fixed.symm (able.mem member).1
    · obtain ⟨notp, same⟩ := able.own_other (able.has.mem object) away apart
      rw [same] at fixed
      dsimp only [Shape.merge]
      rw [if_neg away]
      refine (able.has.chain h o' object fixed).congr fun x member a allocated => ⟨a, ?_, rfl⟩
      have owned := ((able.has.members h (able.has.mem object) fixed).2 x member).1
      have outside : x ∉ ms := fun grouped => by
        rcases (able.mem grouped).2.2 with first | second
        · exact away (owned.symm.trans first)
        · obtain rfl : h = q := owned.symm.trans second
          exact apart able.secondary_mem
      have notprimary : x ≠ p := by
        rintro rfl
        exact away (owned.symm.trans able.own)
      rw [merges.other x notprimary outside, allocated]
  member h listed away := by
    rw [merges.pageObjects] at listed ⊢
    by_cases here : h = p
    case pos => exact absurd (here ▸ able.own_primary) away
    by_cases member : h ∈ ms
    case pos =>
      rw [able.own_mem member]
      dsimp only [Shape.merge]
      rw [if_pos rfl]
      exact ⟨able.has.mem able.primary, member⟩
    case neg =>
      obtain ⟨notp, same⟩ := able.own_other listed here member
      rw [same] at away ⊢
      dsimp only [Shape.merge]
      rw [if_neg notp]
      exact able.has.member h listed away
  members r listed fixed := by
    rw [merges.pageObjects] at listed
    dsimp only [Shape.merge]
    by_cases here : r = p
    case pos =>
      subst here
      rw [if_pos rfl]
      exact ⟨able.nodup, fun h member => ⟨able.own_mem member, (able.mem member).1⟩⟩
    by_cases member : r ∈ ms
    case pos => exact absurd ((able.own_mem member).symm.trans fixed).symm here
    case neg =>
      obtain ⟨notp, same⟩ := able.own_other listed here member
      rw [same] at fixed
      rw [if_neg here]
      obtain ⟨nodup, members⟩ := able.has.members r listed fixed
      refine ⟨nodup, fun h grouped => ?_⟩
      obtain ⟨owned, other⟩ := members h grouped
      have notq : s.own h ≠ q := by
        rintro second
        obtain rfl : r = q := owned.symm.trans second
        exact member able.secondary_mem
      exact ⟨(if_neg notq).trans owned, other⟩
  dangling r listed fixed d tail := by
    rw [merges.pageObjects] at listed
    change s.tail r = some d at tail
    by_cases here : r = p
    case pos =>
      rw [here, whole] at tail
      cases tail
    by_cases member : r ∈ ms
    case pos => exact absurd ((able.own_mem member).symm.trans fixed).symm here
    case neg =>
      rw [(able.own_other listed here member).2] at fixed
      have gone := able.has.dangling r listed fixed d tail
      rw [Option.eq_none_iff_forall_ne_some]
      intro o' object'
      obtain ⟨o, object⟩ := (able.alive merges d).mp ⟨o', object'⟩
      rw [gone] at object
      cases object
  listed := able.listed merges

end Mergeable

/-! ## What the loops leave -/

def NetPage.adjusted (np : NetPage) (xs : List Nat) (f : PageObject → PageObject) : NetPage :=
  { np with objects := fun h => if h ∈ xs then (np.objects h).map f else np.objects h }

theorem forMerged_modify {f : PageObject → PageObject} {fuel : Nat} {m : Option Nat} {xs : List Nat}
    (seg : Seg np.objects PageObject.merge m xs none) (enough : xs.length ≤ fuel) :
    forMerged (fun po np => np.modify po f) fuel m np = .ok (np.adjusted xs f) := by
  induction xs generalizing np fuel m with
  | nil =>
    obtain rfl : m = none := seg
    rw [forMerged]
    simp [NetPage.adjusted]
  | cons x xs ih =>
    have fresh := (List.nodup_cons.mp seg.nodup).1
    obtain ⟨rfl, o, object, rest⟩ := seg
    cases fuel with
    | zero => exact absurd enough (Nat.not_succ_le_zero _)
    | succ fuel =>
      rw [forMerged, NetPage.object, object]
      change (np.modify x f >>= fun np => forMerged _ fuel o.merge np) = _
      rw [modify_eq object]
      change forMerged _ fuel o.merge (np.adjust x f) = _
      have rest' : Seg (np.adjust x f).objects PageObject.merge o.merge xs none := by
        refine rest.congr fun y member a allocated => ⟨a, ?_, rfl⟩
        exact (if_neg (ne_of_mem_of_not_mem member fresh)).trans allocated
      rw [ih rest' (Nat.le_of_succ_le_succ enough)]
      refine congrArg Except.ok (NetPage.ext rfl (funext fun h => ?_) rfl)
      by_cases here : h = x
      case pos => simp [NetPage.adjusted, NetPage.adjust, here, fresh]
      case neg => simp [NetPage.adjusted, NetPage.adjust, here]

theorem lastMergeLoop_ok {fuel : Nat} {m : Option Nat} {xs : List Nat}
    (seg : Seg np.objects PageObject.merge m xs none) (enough : xs.length ≤ fuel) :
    lastMergeLoop np fuel m = .ok xs.getLast? := by
  induction xs generalizing fuel m with
  | nil =>
    obtain rfl : m = none := seg
    rw [lastMergeLoop]
    rfl
  | cons x xs ih =>
    obtain ⟨rfl, o, object, rest⟩ := seg
    cases fuel with
    | zero => exact absurd enough (Nat.not_succ_le_zero _)
    | succ fuel =>
      rw [lastMergeLoop, NetPage.object, object]
      cases xs with
      | nil =>
        have last : o.merge = none := rest
        change (match o.merge with | none => _ | some next => _) = _
        rw [last]
        rfl
      | cons y ys =>
        have next : o.merge = some y := rest.1
        have looped := ih rest (Nat.le_of_succ_le_succ enough)
        change (match o.merge with | none => _ | some next => _) = _
        rw [next] at looped ⊢
        exact looped.trans (congrArg Except.ok List.getLast?_cons_cons.symm)

theorem adjust_objects (np : NetPage) (po : Nat) (f : PageObject → PageObject) (h : Nat) :
    (np.adjust po f).objects h = if h = po then (np.objects h).map f else np.objects h := rfl

theorem adjust_self {po : Nat} {f : PageObject → PageObject} {o : PageObject}
    (object : np.objects po = some o) : (np.adjust po f).objects po = some (f o) := by
  rw [adjust_objects, if_pos rfl, object, Option.map_some]

theorem adjust_other {po h : Nat} (f : PageObject → PageObject) (other : h ≠ po) :
    (np.adjust po f).objects h = np.objects h := if_neg other

theorem concatLinks_ok {po other : Nat} {o o' : PageObject} (apart : po ≠ other)
    (object : np.objects po = some o) (object' : np.objects other = some o') :
    concatLinks po other np = .ok ((np.adjust po fun o => { o with links := o.links ++ o'.links })
      |>.adjust other fun o => { o with links := [] }) := by
  rw [concatLinks, NetPage.object, object']
  change (np.modify po (fun o => { o with links := o.links ++ o'.links }) >>= _) = _
  rw [modify_eq object]
  exact modify_eq ((adjust_other _ apart.symm).trans object')

/-! ## A group in a group -/

/-- What is left when the group of `q`, with the members `xs`, has been put behind `t`. -/
def NetPage.grouped (np : NetPage) (p q t : Nat) (links xs : List Nat) : NetPage :=
  (np.adjust p fun o => { o with mergePrimary := some p })
    |>.relinked (·.mergeGroup p q) links
    |>.adjust p (fun o => { o with links := o.links ++ links })
    |>.adjust q (fun o => { o with links := [] })
    |>.adjust t (fun o => { o with merge := some q })
    |>.adjust q (fun o => { o with mergePrimary := some p })
    |>.adjusted xs fun o => { o with mergePrimary := some p }

section grouped

variable {t : Nat} {links xs : List Nat} {o : PageObject}

theorem grouped_p (primary : np.objects p = some op) (other : p ≠ q) (outside : p ∉ xs) :
    (np.grouped p q t links xs).objects p =
      some ⟨if p = t then some q else op.merge, some p, op.links ++ links⟩ := by
  simp only [NetPage.grouped, NetPage.adjusted, NetPage.relinked, NetPage.adjust, outside, other,
    if_true, if_false, primary, Option.map_some]
  split <;> rfl

theorem grouped_q (secondary : np.objects q = some oq) (other : q ≠ p) (outside : q ∉ xs)
    (behind : q ≠ t) :
    (np.grouped p q t links xs).objects q = some ⟨oq.merge, some p, []⟩ := by
  simp only [NetPage.grouped, NetPage.adjusted, NetPage.relinked, NetPage.adjust, outside, other,
    behind, if_true, if_false, secondary, Option.map_some]

theorem grouped_xs (object : np.objects h = some o) (away : h ≠ p) (other : h ≠ q) (behind : h ≠ t)
    (member : h ∈ xs) :
    (np.grouped p q t links xs).objects h = some { o with mergePrimary := some p } := by
  simp only [NetPage.grouped, NetPage.adjusted, NetPage.relinked, NetPage.adjust, member, away,
    other, behind, if_true, if_false, object, Option.map_some]

theorem grouped_other (away : h ≠ p) (other : h ≠ q) (outside : h ∉ xs) :
    (np.grouped p q t links xs).objects h =
      if h = t then (np.objects h).map fun o => { o with merge := some q } else np.objects h := by
  simp only [NetPage.grouped, NetPage.adjusted, NetPage.relinked, NetPage.adjust, outside, away,
    other, if_false]

end grouped

namespace Mergeable

/-- The links that `q` has are drawn at `p`, and no others were drawn at `q`. -/
theorem relinked_redrawn (able : Mergeable np s p q op oq ms)
    {f : PageObjectLink → PageObjectLink}
    (redrawn : ∀ pol ∈ oq.links, ∀ l, np.links pol = some l → Redrawn p q l (f l)) (pol : Nat) :
    Option.Rel (Redrawn p q) (np.links pol) ((np.relinked f oq.links).links pol) := by
  dsimp only [NetPage.relinked]
  cases link : np.links pol with
  | none =>
    rw [Option.map_none, ite_self]
    exact .none
  | some l =>
    split
    case isTrue member => exact .some (redrawn pol member l link)
    case isFalse unlisted =>
      have listed (x : Nat) (end_ : x = l.po1 ∨ x = l.po2) : s.own x ≠ q := by
        intro owned
        refine unlisted (mem_links able.has.listed able.secondary link ?_)
        rcases end_ with rfl | rfl
        · exact .inl owned
        · exact .inr owned
      obtain ⟨drawn1, -⟩ := able.has.listed.drawn1 pol l link
      obtain ⟨drawn2, -⟩ := able.has.listed.drawn2 pol l link
      refine .some ⟨rfl, rfl, (if_neg ?_).symm, (if_neg ?_).symm⟩
      · exact drawn1 ▸ listed _ (.inl rfl)
      · exact drawn2 ▸ listed _ (.inr rfl)

section grouped

variable (able : Mergeable np s p q op oq (s.members p ++ q :: s.members q))

include able

/-- The host that the group is put behind is one of the other group. -/
theorem behind : let t := (s.members p).getLast?.getD p
    (t = p ∨ t ∈ s.members p) ∧ t ≠ q ∧ t ∉ s.members q := by
  intro t
  have cases : t = p ∨ t ∈ s.members p := by
    cases last : (s.members p).getLast? with
    | none => exact .inl (congrArg (Option.getD · p) last)
    | some y =>
      have here : t = y := congrArg (Option.getD · p) last
      exact .inr (here ▸ List.mem_of_getLast? last)
  refine ⟨cases, ?_⟩
  obtain ⟨_, membersq⟩ := able.has.members q (able.has.mem able.secondary) able.ownq
  have owned : s.own t = p := by
    rcases cases with here | member
    · rw [here, able.own]
    · exact ((able.has.members p (able.has.mem able.primary) able.own).2 t member).1
  constructor
  · intro same
    rw [same, able.ownq] at owned
    exact able.other owned.symm
  · intro member
    exact able.other (owned.symm.trans (membersq t member).1)

theorem outside : p ∉ s.members q ∧ q ∉ s.members q ∧ q ∉ s.members p := by
  obtain ⟨_, members⟩ := able.has.members p (able.has.mem able.primary) able.own
  obtain ⟨_, membersq⟩ := able.has.members q (able.has.mem able.secondary) able.ownq
  refine ⟨fun member => ?_, fun member => (membersq q member).2 rfl, fun member => ?_⟩
  · exact able.other (able.own.symm.trans (membersq p member).1)
  · exact able.other ((members q member).1.symm.trans able.ownq)

theorem mergeGroup_eq {fuel : Nat} (whole : s.tail p = none) (wholeq : s.tail q = none)
    (enough : np.pageObjects.length ≤ fuel) :
    mergeGroup (·.mergeGroup p q) fuel p q
        (np.adjust p fun o => { o with mergePrimary := some p }) =
      .ok (np.grouped p q ((s.members p).getLast?.getD p) oq.links (s.members q)) := by
  obtain ⟨cases, notq, unlisted⟩ := able.behind
  obtain ⟨outsidep, outsideq, outside⟩ := able.outside
  have listed := able.has.mem able.primary
  have listedq := able.has.mem able.secondary
  have short := able.has.length_members listed able.own
  have shortq := able.has.length_members listedq able.ownq
  generalize behind : (s.members p).getLast?.getD p = t at *
  let np₀ := np.adjust p fun o => { o with mergePrimary := some p }
  let np₁ := np₀.relinked (·.mergeGroup p q) oq.links
  let np₂ := (np₁.adjust p fun o => { o with links := o.links ++ oq.links }).adjust q fun o =>
    { o with links := [] }
  let np₃ := np₂.adjust t fun o => { o with merge := some q }
  let np₄ := np₃.adjust q fun o => { o with mergePrimary := some p }
  have primary₀ : np₀.objects p = some { op with mergePrimary := some p } :=
    adjust_self (f := fun o => { o with mergePrimary := some p }) able.primary
  have secondary₀ : np₀.objects q = some oq :=
    (adjust_other _ able.other.symm).trans able.secondary
  have relinked : forLinks (·.mergeGroup p q) oq.links np₀ = .ok np₁ := by
    refine forLinks_ok fun pol member => ?_
    obtain ⟨l, link, -⟩ := able.has.link_of_mem able.secondary member
    exact ⟨l, link, mergeGroup_idem able.other l⟩
  have concatenated : concatLinks p q np₁ = .ok np₂ :=
    concatLinks_ok able.other primary₀ secondary₀
  have primary₂ : np₂.objects p = some ⟨op.merge, some p, op.links ++ oq.links⟩ := by
    rw [adjust_other _ able.other]
    exact adjust_self (f := fun o => { o with links := o.links ++ oq.links }) primary₀
  have chain₂ : Seg np₂.objects PageObject.merge op.merge (s.members p) none := by
    refine (whole ▸ able.has.chain p op able.primary able.own).congr fun x member a allocated => ?_
    have away := ((able.has.members p listed able.own).2 x member).2
    have other : x ≠ q := ne_of_mem_of_not_mem member outside
    refine ⟨a, ?_, rfl⟩
    rw [adjust_other _ other, adjust_other _ away]
    exact (adjust_other _ away).trans allocated
  have last : pageObjectGetLastMerge fuel p np₂ = .ok (s.members p).getLast? := by
    rw [pageObjectGetLastMerge, NetPage.object, primary₂]
    exact lastMergeLoop_ok chain₂ (Nat.le_trans short enough)
  obtain ⟨ot, behind₂⟩ : ∃ ot, np₂.objects t = some ot := by
    rcases cases with rfl | member
    · exact ⟨_, primary₂⟩
    · exact chain₂.allocated t member
  have secondary₂ : np₂.objects q = some { oq with links := [] } :=
    adjust_self (f := fun o => { o with links := [] }) ((adjust_other _ able.other.symm).trans
      secondary₀)
  have secondary₃ : np₃.objects q = some { oq with links := [] } :=
    (adjust_other _ notq.symm).trans secondary₂
  have secondary₄ : np₄.objects q = some ⟨oq.merge, some p, []⟩ :=
    adjust_self (f := fun o => { o with mergePrimary := some p }) secondary₃
  have chain₄ : Seg np₄.objects PageObject.merge oq.merge (s.members q) none := by
    refine (wholeq ▸ able.has.chain q oq able.secondary able.ownq).congr ?_
    intro x member a allocated
    refine ⟨a, ?_, rfl⟩
    rw [adjust_other _ (ne_of_mem_of_not_mem member outsideq),
      adjust_other _ (ne_of_mem_of_not_mem member unlisted),
      adjust_other _ (ne_of_mem_of_not_mem member outsideq),
      adjust_other _ (ne_of_mem_of_not_mem member outsidep)]
    exact (adjust_other _ (ne_of_mem_of_not_mem member outsidep)).trans allocated
  rw [mergeGroup, NetPage.object, secondary₀]
  change (forLinks (·.mergeGroup p q) oq.links np₀ >>= _) = _
  rw [relinked]
  change (concatLinks p q np₁ >>= _) = _
  rw [concatenated]
  change (pageObjectGetLastMerge fuel p np₂ >>= _) = _
  rw [last]
  change (np₂.modify ((s.members p).getLast?.getD p) _ >>= _) = _
  rw [behind, modify_eq behind₂]
  change (np₃.modify q _ >>= _) = _
  rw [modify_eq secondary₃]
  change (np₄.object q >>= _) = _
  rw [NetPage.object, secondary₄]
  exact forMerged_modify chain₄ (Nat.le_trans shortq enough)

/-- The chain of `p` goes on with `q` and its chain. -/
theorem grouped_chain (whole : s.tail p = none) (wholeq : s.tail q = none) :
    let t := (s.members p).getLast?.getD p
    Seg (np.grouped p q t oq.links (s.members q)).objects PageObject.merge
      (if p = t then some q else op.merge) (s.members p ++ q :: s.members q) none := by
  intro t
  obtain ⟨-, notq, unlisted⟩ := able.behind
  obtain ⟨outsidep, outsideq, outside⟩ := able.outside
  obtain ⟨nodup, members⟩ := able.has.members p (able.has.mem able.primary) able.own
  have second : Seg (np.grouped p q t oq.links (s.members q)).objects PageObject.merge (some q)
      (q :: s.members q) none := by
    refine ⟨rfl, _, grouped_q able.secondary able.other.symm outsideq notq.symm, ?_⟩
    refine (wholeq ▸ able.has.chain q oq able.secondary able.ownq).congr ?_
    intro x member a allocated
    exact ⟨_, grouped_xs allocated (ne_of_mem_of_not_mem member outsidep)
      (ne_of_mem_of_not_mem member outsideq) (ne_of_mem_of_not_mem member unlisted) member, rfl⟩
  have first := whole ▸ able.has.chain p op able.primary able.own
  have unmoved (x : Nat) (member : x ∈ s.members p) :
      (np.grouped p q t oq.links (s.members q)).objects x =
        if x = t then (np.objects x).map fun o => { o with merge := some q } else np.objects x := by
    refine grouped_other (members x member).2 (ne_of_mem_of_not_mem member outside) ?_
    exact fun both => List.disjoint_of_nodup_append able.nodup member (.tail _ both)
  rcases List.eq_nil_or_concat (s.members p) with none | ⟨pre, y, split⟩
  · have here : p = t := by simp [t, none]
    rw [if_pos here, none]
    exact second
  · rw [List.concat_eq_append] at split
    have here : t = y := by simp [t, split]
    rw [split] at first nodup members unmoved ⊢
    rw [here] at unmoved second ⊢
    obtain ⟨oy, object⟩ := first.allocated y (by simp)
    rw [if_neg (members y (by simp)).2.symm]
    refine Seg.append_iff.mpr ⟨some q, ?_, second⟩
    refine first.redirect (b := { oy with merge := some q }) ?_ rfl fun x member a allocated => ?_
    · rw [unmoved y (by simp), if_pos rfl, object]
      rfl
    · refine ⟨a, ?_, rfl⟩
      have before : x ≠ y := by
        rintro rfl
        exact List.disjoint_of_nodup_append nodup member (.head _)
      rw [unmoved x (List.mem_append_left _ member), if_neg before, allocated]

theorem grouped_merges (whole : s.tail p = none) (wholeq : s.tail q = none) :
    Merges np (np.grouped p q ((s.members p).getLast?.getD p) oq.links (s.members q)) p q op oq
      (s.members p ++ q :: s.members q) where
  pageObjects := rfl
  other h away apart := by
    obtain ⟨cases, -⟩ := able.behind
    simp only [List.mem_append, List.mem_cons, not_or] at apart
    obtain ⟨unlisted, other, outside⟩ := apart
    rw [grouped_other away other outside, if_neg]
    rintro rfl
    exact cases.elim away unlisted
  primary := ⟨_, grouped_p able.primary able.other able.outside.1, able.grouped_chain whole wholeq⟩
  member h member := by
    obtain ⟨-, notq, unlisted⟩ := able.behind
    obtain ⟨outsidep, outsideq, outside⟩ := able.outside
    obtain ⟨away, listed, -⟩ := able.mem member
    obtain ⟨o, object⟩ := (able.has.alive h).mp listed
    rcases List.mem_append.mp member with first | second
    · have owned := ((able.has.members p (able.has.mem able.primary) able.own).2 h first).1
      have fixed : s.own h ≠ h := owned ▸ away.symm
      have primary := able.has.mergePrimary object fixed
      have none := able.has.no_links object fixed
      rw [owned] at primary
      have apart : h ∉ s.members q := fun both =>
        List.disjoint_of_nodup_append able.nodup first (.tail _ both)
      rw [grouped_other away (ne_of_mem_of_not_mem first outside) apart, object]
      split
      · exact ⟨_, rfl, primary, none⟩
      · exact ⟨_, rfl, primary, none⟩
    rcases List.mem_cons.mp second with rfl | second
    · exact ⟨_, grouped_q object away outsideq notq.symm, rfl, rfl⟩
    · obtain ⟨owned, other⟩ :=
        (able.has.members q (able.has.mem able.secondary) able.ownq).2 h second
      have none := able.has.no_links object (owned ▸ other.symm)
      exact ⟨_, grouped_xs object away other (ne_of_mem_of_not_mem second unlisted) second, rfl,
        none⟩
  links := by
    refine able.relinked_redrawn fun pol member l link => ?_
    obtain ⟨drawn1, -⟩ := able.has.listed.drawn1 pol l link
    obtain ⟨drawn2, -⟩ := able.has.listed.drawn2 pol l link
    refine mergeGroup_redrawn able.other (fun here => ?_) fun here => ?_
    · rw [drawn1, here, able.ownq]
    · rw [drawn2, here, able.ownq]

end grouped

end Mergeable

/-! ## A host in a group -/

/-- What is left when `q` has been put in front of the members of `p`. -/
def NetPage.joined (np : NetPage) (p q : Nat) (merge : Option Nat) (links : List Nat) : NetPage :=
  (np.adjust p fun o => { o with mergePrimary := some p })
    |>.adjust q (fun o => { o with merge })
    |>.adjust p (fun o => { o with merge := some q })
    |>.adjust q (fun o => { o with mergePrimary := some p })
    |>.relinked (·.mergeOne p q) links
    |>.adjust p (fun o => { o with links := o.links ++ links })
    |>.adjust q (fun o => { o with links := [] })

section joined

variable {merge : Option Nat} {links : List Nat}

theorem joined_p (primary : np.objects p = some op) (other : p ≠ q) :
    (np.joined p q merge links).objects p = some ⟨some q, some p, op.links ++ links⟩ := by
  simp only [NetPage.joined, NetPage.relinked, NetPage.adjust, other, if_true, if_false, primary,
    Option.map_some]

theorem joined_q (secondary : np.objects q = some oq) (other : q ≠ p) :
    (np.joined p q merge links).objects q = some ⟨merge, some p, []⟩ := by
  simp only [NetPage.joined, NetPage.relinked, NetPage.adjust, other, if_true, if_false, secondary,
    Option.map_some]

theorem joined_other (away : h ≠ p) (other : h ≠ q) :
    (np.joined p q merge links).objects h = np.objects h := by
  simp only [NetPage.joined, NetPage.relinked, NetPage.adjust, away, other, if_false]

end joined

/-- Only the host itself is in a group with a host that is not merged. -/
theorem NetPage.Has.alone (has : np.Has s) (secondary : np.objects q = some oq) (ownq : s.own q = q)
    (unmerged : oq.mergePrimary = none) :
    s.members q = [] ∧ ∀ h ∈ np.pageObjects, s.own h = q → h = q := by
  have chain := has.chain q oq secondary ownq
  rw [has.unmerged q oq secondary unmerged] at chain
  refine ⟨chain.nil_of_none.1, fun h listed owned => ?_⟩
  by_contra other
  have member := (has.member h listed (owned ▸ Ne.symm other)).2
  rw [owned, chain.nil_of_none.1] at member
  cases member

namespace Mergeable

variable (able : Mergeable np s p q op oq (q :: s.members p))
  (linked : ∀ pol l, np.links pol = some l → l.po1 ∈ np.pageObjects ∧ l.po2 ∈ np.pageObjects)
  (alone : ∀ h ∈ np.pageObjects, s.own h = q → h = q)

include able linked alone

theorem has_end {pol : Nat} (member : pol ∈ oq.links) :
    ∃ l, np.links pol = some l ∧ (l.po1 = q ∨ l.po2 = q) := by
  obtain ⟨l, link, owned⟩ := able.has.link_of_mem able.secondary member
  obtain ⟨listed1, listed2⟩ := linked pol l link
  exact ⟨l, link, owned.imp (alone _ listed1) (alone _ listed2)⟩

theorem mergeOne_eq : mergeOne p q (np.adjust p fun o => { o with mergePrimary := some p }) =
    .ok (np.joined p q op.merge oq.links) := by
  let np₀ := np.adjust p fun o => { o with mergePrimary := some p }
  let np₁ := np₀.adjust q fun o => { o with merge := op.merge }
  let np₂ := np₁.adjust p fun o => { o with merge := some q }
  let np₃ := np₂.adjust q fun o => { o with mergePrimary := some p }
  let np₄ := np₃.relinked (·.mergeOne p q) oq.links
  have primary₀ : np₀.objects p = some { op with mergePrimary := some p } :=
    adjust_self (f := fun o => { o with mergePrimary := some p }) able.primary
  have secondary₀ : np₀.objects q = some oq :=
    (adjust_other _ able.other.symm).trans able.secondary
  have primary₁ : np₁.objects p = some { op with mergePrimary := some p } :=
    (adjust_other _ able.other).trans primary₀
  have secondary₁ : np₁.objects q = some { oq with merge := op.merge } :=
    adjust_self (f := fun o => { o with merge := op.merge }) secondary₀
  have primary₂ : np₂.objects p = some ⟨some q, some p, op.links⟩ :=
    adjust_self (f := fun o => { o with merge := some q }) primary₁
  have secondary₂ : np₂.objects q = some { oq with merge := op.merge } :=
    (adjust_other _ able.other.symm).trans secondary₁
  have primary₃ : np₃.objects p = some ⟨some q, some p, op.links⟩ :=
    (adjust_other _ able.other).trans primary₂
  have secondary₃ : np₃.objects q = some ⟨op.merge, some p, oq.links⟩ :=
    adjust_self (f := fun o => { o with mergePrimary := some p }) secondary₂
  have relinked : forLinks (·.mergeOne p q) oq.links np₃ = .ok np₄ := by
    refine forLinks_ok fun pol member => ?_
    obtain ⟨l, link, first⟩ := able.has_end linked alone member
    exact ⟨l, link, mergeOne_idem first⟩
  have primary₄ : np₄.objects p = some ⟨some q, some p, op.links⟩ := primary₃
  have secondary₄ : np₄.objects q = some ⟨op.merge, some p, oq.links⟩ := secondary₃
  have concatenated := concatLinks_ok able.other primary₄ secondary₄
  rw [mergeOne, NetPage.object, primary₀]
  change (np₀.modify q _ >>= _) = _
  rw [modify_eq secondary₀]
  change (np₁.modify p _ >>= _) = _
  rw [modify_eq primary₁]
  change (np₂.modify q _ >>= _) = _
  rw [modify_eq secondary₂]
  change (np₃.object q >>= _) = _
  rw [NetPage.object, secondary₃]
  change (forLinks (·.mergeOne p q) oq.links np₃ >>= _) = _
  rw [relinked]
  exact concatenated

theorem joined_merges (whole : s.tail p = none) :
    Merges np (np.joined p q op.merge oq.links) p q op oq (q :: s.members p) where
  pageObjects := rfl
  other h away apart := joined_other away fun same => apart (same ▸ .head _)
  primary := by
    have secondary : (np.joined p q op.merge oq.links).objects q = some ⟨op.merge, some p, []⟩ :=
      joined_q able.secondary able.other.symm
    refine ⟨_, joined_p able.primary able.other, rfl, _, secondary, ?_⟩
    refine (whole ▸ able.has.chain p op able.primary able.own).congr fun x member a allocated => ?_
    have other : x ≠ q := ne_of_mem_of_not_mem member (List.nodup_cons.mp able.nodup).1
    exact ⟨a, (joined_other (able.mem (.tail _ member)).1 other).trans allocated, rfl⟩
  member h member := by
    rcases List.mem_cons.mp member with rfl | first
    · exact ⟨_, joined_q able.secondary able.other.symm, rfl, rfl⟩
    · obtain ⟨away, listed, -⟩ := able.mem member
      obtain ⟨o, object⟩ := (able.has.alive h).mp listed
      have owned := ((able.has.members p (able.has.mem able.primary) able.own).2 h first).1
      have fixed : s.own h ≠ h := owned ▸ away.symm
      have other : h ≠ q := ne_of_mem_of_not_mem first (List.nodup_cons.mp able.nodup).1
      exact ⟨o, (joined_other away other).trans object, owned ▸ able.has.mergePrimary object fixed,
        able.has.no_links object fixed⟩
  links := by
    refine able.relinked_redrawn fun pol member l link => ?_
    obtain ⟨l', link', first⟩ := able.has_end linked alone member
    cases link.symm.trans link'
    obtain ⟨drawn1, -⟩ := able.has.listed.drawn1 pol l link
    obtain ⟨drawn2, -⟩ := able.has.listed.drawn2 pol l link
    obtain ⟨listed1, listed2⟩ := linked pol l link
    refine mergeOne_redrawn (able.has.listed.apart pol l link) first ?_ ?_
    · rw [drawn1]
      exact ⟨alone _ listed1, fun here => here ▸ able.ownq⟩
    · rw [drawn2]
      exact ⟨alone _ listed2, fun here => here ▸ able.ownq⟩

end Mergeable

/-! ## Merging -/

theorem Merges.realEnds (merges : Merges np np' p q op oq ms) : np'.realEnds = np.realEnds := by
  funext pol
  have rel := merges.links pol
  unfold NetPage.realEnds
  generalize np.links pol = before at rel
  generalize np'.links pol = after at rel
  cases rel with
  | none => rfl
  | some redrawn => simp only [Option.map_some, redrawn.po1, redrawn.po2]

theorem mergeSecondary_unmerged {fuel : Nat} (secondary : np.objects q = some oq)
    (unmerged : oq.mergePrimary = none) : mergeSecondary fuel p q np = mergeOne p q np := by
  rw [mergeSecondary, NetPage.object, secondary]
  change (match oq.mergePrimary with | some top => _ | none => _) = _
  rw [unmerged]

theorem mergeSecondary_primary {fuel : Nat} (secondary : np.objects q = some oq)
    (primary : oq.mergePrimary = some q) :
    mergeSecondary fuel p q np = mergeGroup (·.mergeGroup p q) fuel p q np := by
  rw [mergeSecondary, NetPage.object, secondary]
  change (match oq.mergePrimary with | some top => _ | none => _) = _
  rw [primary]
  exact if_pos rfl

/-- Two groups, of which one may be a host that is not merged, become one. -/
theorem pageObjectMerge_ok {fuel : Nat} (has : np.Has s)
    (linked : ∀ pol l, np.links pol = some l → l.po1 ∈ np.pageObjects ∧ l.po2 ∈ np.pageObjects)
    (whole : ∀ h ∈ np.pageObjects, s.own h = h → s.tail h = none) (listed : p ∈ np.pageObjects)
    (listedq : q ∈ np.pageObjects) (own : s.own p = p) (ownq : s.own q = q) (other : p ≠ q)
    (enough : np.pageObjects.length ≤ fuel) :
    ∃ np' op oq ms, Mergeable np s p q op oq ms ∧ Merges np np' p q op oq ms ∧
      pageObjectMerge fuel p q np = .ok np' := by
  obtain ⟨op, primary⟩ := (has.alive p).mp listed
  obtain ⟨oq, secondary⟩ := (has.alive q).mp listedq
  let np₀ := np.adjust p fun o => { o with mergePrimary := some p }
  have secondary₀ : np₀.objects q = some oq := (adjust_other _ other.symm).trans secondary
  obtain ⟨np', ms, able, merges, run⟩ : ∃ np' ms, Mergeable np s p q op oq ms ∧
      Merges np np' p q op oq ms ∧ mergeSecondary fuel p q np₀ = .ok np' := by
    cases merged : oq.mergePrimary with
    | none =>
      obtain ⟨none, alone⟩ := has.alone secondary ownq merged
      have perm : (q :: s.members p).Perm (s.members p ++ q :: s.members q) := by
        rw [none]
        exact (List.perm_append_singleton q (s.members p)).symm
      have able : Mergeable np s p q op oq _ := ⟨has, primary, secondary, own, ownq, other, perm⟩
      exact ⟨_, _, able, able.joined_merges linked alone (whole p listed own),
        (mergeSecondary_unmerged secondary₀ merged).trans (able.mergeOne_eq linked alone)⟩
    | some top =>
      have able : Mergeable np s p q op oq _ := ⟨has, primary, secondary, own, ownq, other, .refl _⟩
      have here : top = q := by
        have owner := has.owner q oq secondary
        rwa [merged, ownq] at owner
      rw [here] at merged
      have wholep := whole p listed own
      have wholeq := whole q listedq ownq
      refine ⟨_, _, able, able.grouped_merges wholep wholeq, ?_⟩
      exact (mergeSecondary_primary secondary₀ merged).trans
        (able.mergeGroup_eq wholep wholeq enough)
  refine ⟨np', op, oq, ms, able, merges, ?_⟩
  have has' := able.merged merges (whole p listed own)
  obtain ⟨merge, primary', -⟩ := merges.primary
  have drawn : pageObjectLinksMove np' (op.links ++ oq.links) = .ok () := by
    refine pageObjectLinksMove_ok has' fun pol member => ?_
    obtain ⟨l, link, -⟩ := has'.link_of_mem primary' member
    exact ⟨l, link⟩
  rw [pageObjectMerge, modify_eq primary]
  change (mergeSecondary fuel p q np₀ >>= _) = _
  rw [run]
  change (np'.object p >>= _) = _
  rw [NetPage.object, primary']
  change (pageObjectLinksMove np' (op.links ++ oq.links) >>= fun _ => .ok np') = _
  rw [drawn]
  rfl

end Cheops.Canvas
