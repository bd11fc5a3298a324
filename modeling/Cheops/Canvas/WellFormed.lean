import Cheops.Canvas.Basic

/-! # Well-formed pages

`Shape` is what the pointers of a page say: which host owns the links of which, and which members
a group has, in the order of its chain.  `NetPage.Has` relates a page to its shape.

The chain of a group may dangle: it then ends in the pointer `tail` to a host that has been freed.
A page is well formed when no chain does, and no link has a freed end.
-/

namespace Cheops.Canvas

open Cheops.Lib

/-! ## Shapes -/

structure Shape where
  /-- The primary of a member, and any other host itself. -/
  own : Nat → Nat
  members : Nat → List Nat
  tail : Nat → Option Nat
  own_own : ∀ h, own (own h) = own h

def ends (own : Nat → Nat) (pol : Option PageObjectLink) (h : Nat) : Nat :=
  match pol with
  | none => 0
  | some l => (if own l.po1 = h then 1 else 0) + (if own l.po2 = h then 1 else 0)

/-- Every link is listed once for each end, by the host that owns the end; and the host at which
    an end is drawn is the one that owns it.  Nothing is said of the list of `but`. -/
structure NetPage.Listed (np : NetPage) (own : Nat → Nat) (but : Option Nat) : Prop where
  apart : ∀ pol l, np.links pol = some l → l.po1 ≠ l.po2
  drawn1 : ∀ pol l, np.links pol = some l → l.end1 = own l.po1 ∧ own l.po1 ∈ np.pageObjects
  drawn2 : ∀ pol l, np.links pol = some l → l.end2 = own l.po2 ∧ own l.po2 ∈ np.pageObjects
  count : ∀ h o, np.objects h = some o → but ≠ some h →
    ∀ pol, o.links.count pol = ends own (np.links pol) h

structure NetPage.Has (np : NetPage) (s : Shape) : Prop where
  nodup : np.pageObjects.Nodup
  alive : ∀ h, h ∈ np.pageObjects ↔ ∃ o, np.objects h = some o
  owner : ∀ h o, np.objects h = some o → o.mergePrimary.getD h = s.own h
  unmerged : ∀ h o, np.objects h = some o → o.mergePrimary = none → o.merge = none
  chain : ∀ h o, np.objects h = some o → s.own h = h →
    Seg np.objects PageObject.merge o.merge (s.members h) (s.tail h)
  /-- A member is in the chain of its primary. -/
  member : ∀ h ∈ np.pageObjects, s.own h ≠ h →
    s.own h ∈ np.pageObjects ∧ h ∈ s.members (s.own h)
  members : ∀ p ∈ np.pageObjects, s.own p = p →
    (s.members p).Nodup ∧ ∀ h ∈ s.members p, s.own h = p ∧ h ≠ p
  dangling : ∀ p ∈ np.pageObjects, s.own p = p → ∀ d, s.tail p = some d → np.objects d = none
  listed : np.Listed s.own none

/-- The merge graph of the page is well formed: no chain dangles, and links link hosts. -/
structure NetPage.WellFormed (np : NetPage) : Prop where
  shape : ∃ s, np.Has s ∧ ∀ p ∈ np.pageObjects, s.own p = p → s.tail p = none
  linked : ∀ pol l, np.links pol = some l → l.po1 ∈ np.pageObjects ∧ l.po2 ∈ np.pageObjects

/-- The host that the links of `h` are listed by. -/
def NetPage.owner (np : NetPage) (h : Nat) : Nat :=
  ((np.objects h).bind PageObject.mergePrimary).getD h

def NetPage.realEnds (np : NetPage) (pol : Nat) : Option (Nat × Nat) :=
  (np.links pol).map fun l => (l.po1, l.po2)

namespace NetPage.Has

variable {np np' : NetPage} {s : Shape} {h p : Nat} {o : PageObject}

theorem mem (has : np.Has s) (object : np.objects h = some o) : h ∈ np.pageObjects :=
  (has.alive h).mpr ⟨o, object⟩

theorem owner_eq (has : np.Has s) (listed : h ∈ np.pageObjects) : np.owner h = s.own h := by
  obtain ⟨o, object⟩ := (has.alive h).mp listed
  rw [NetPage.owner, object]
  exact has.owner h o object

/-- A member has a primary, which is not itself. -/
theorem mergePrimary (has : np.Has s) (object : np.objects h = some o) (member : s.own h ≠ h) :
    o.mergePrimary = some (s.own h) := by
  have owner := has.owner h o object
  cases primary : o.mergePrimary with
  | none =>
    rw [primary] at owner
    exact absurd owner.symm member
  | some p =>
    rw [primary] at owner
    exact congrArg some owner

/-- The primary of a group with a member knows that it is one. -/
theorem primary (has : np.Has s) (object : np.objects p = some o) (own : s.own p = p)
    (merged : o.merge ≠ none) : o.mergePrimary = some p := by
  have owner := has.owner p o object
  cases primary : o.mergePrimary with
  | none => exact absurd (has.unmerged p o object primary) merged
  | some q =>
    rw [primary, own] at owner
    exact congrArg some owner

theorem members_alive (has : np.Has s) (listed : p ∈ np.pageObjects) (own : s.own p = p) :
    ∀ h ∈ s.members p, h ∈ np.pageObjects := by
  obtain ⟨o, object⟩ := (has.alive p).mp listed
  intro h member
  exact (has.alive h).mpr ((has.chain p o object own).allocated h member)

theorem own_mem (has : np.Has s) (listed : h ∈ np.pageObjects) : s.own h ∈ np.pageObjects := by
  by_cases own : s.own h = h
  · rwa [own]
  · exact (has.member h listed own).1

def Alike (h : Nat) (o o' : PageObject) : Prop :=
  o'.merge = o.merge ∧ o'.mergePrimary.getD h = o.mergePrimary.getD h ∧
    (o'.mergePrimary = none → o'.merge = none)

/-- The shape is in the pointers between hosts; the links must be listed where it says. -/
theorem congr (has : np.Has s) (pageObjects : np'.pageObjects = np.pageObjects)
    (objects : ∀ h, Option.Rel (Alike h) (np.objects h) (np'.objects h))
    (listed : np'.Listed s.own none) : np'.Has s := by
  have back {h : Nat} {o' : PageObject} (object' : np'.objects h = some o') :
      ∃ o, np.objects h = some o ∧ Alike h o o' := by
    have rel := objects h
    rw [object'] at rel
    generalize np.objects h = before at rel
    cases rel with
    | some same => exact ⟨_, rfl, same⟩
  have forth {h : Nat} {o : PageObject} (object : np.objects h = some o) :
      ∃ o', np'.objects h = some o' ∧ o'.merge = o.merge := by
    have rel := objects h
    rw [object] at rel
    generalize np'.objects h = after at rel
    cases rel with
    | some same => exact ⟨_, rfl, same.1⟩
  refine ⟨pageObjects ▸ has.nodup, ?_, ?_, ?_, ?_, ?_, ?_, ?_, listed⟩
  case refine_1 =>
    intro h
    rw [pageObjects, has.alive]
    constructor
    · rintro ⟨o, object⟩
      obtain ⟨o', object', -⟩ := forth object
      exact ⟨o', object'⟩
    · rintro ⟨o', object'⟩
      obtain ⟨o, object, -⟩ := back object'
      exact ⟨o, object⟩
  case refine_2 =>
    intro h o' object'
    obtain ⟨o, object, -, owner, -⟩ := back object'
    rw [owner]
    exact has.owner h o object
  case refine_3 =>
    intro h o' object' unmerged
    obtain ⟨o, object, -, -, bare⟩ := back object'
    exact bare unmerged
  case refine_4 =>
    intro h o' object' own
    obtain ⟨o, object, merge, -⟩ := back object'
    rw [merge]
    exact (has.chain h o object own).congr fun x _ a allocated => forth allocated
  case refine_5 =>
    rw [pageObjects]
    exact has.member
  case refine_6 =>
    rw [pageObjects]
    exact has.members
  case refine_7 =>
    intro p listed own d tail
    rw [pageObjects] at listed
    have gone := has.dangling p listed own d tail
    rw [Option.eq_none_iff_forall_ne_some]
    intro o' object'
    obtain ⟨o, object, -⟩ := back object'
    rw [gone] at object
    cases object

/-- A link in a list is allocated, and has an end that the list is for. -/
theorem link_of_mem (has : np.Has s) (object : np.objects h = some o) {pol : Nat}
    (listed : pol ∈ o.links) :
    ∃ l, np.links pol = some l ∧ (s.own l.po1 = h ∨ s.own l.po2 = h) := by
  have positive := List.count_pos_iff.mpr listed
  rw [has.listed.count h o object nofun] at positive
  cases link : np.links pol with
  | none =>
    rw [link] at positive
    exact absurd positive (Nat.lt_irrefl 0)
  | some l =>
    refine ⟨l, rfl, ?_⟩
    by_contra neither
    obtain ⟨first, second⟩ := not_or.mp neither
    rw [link, ends, if_neg first, if_neg second] at positive
    exact absurd positive (Nat.lt_irrefl 0)

/-- Links belong to primaries and unmerged hosts. -/
theorem no_links (has : np.Has s) (object : np.objects h = some o) (member : s.own h ≠ h) :
    o.links = [] := by
  have never (x : Nat) : s.own x ≠ h := by
    intro same
    have fixed := s.own_own x
    rw [same] at fixed
    exact member fixed
  rw [List.eq_nil_iff_forall_not_mem]
  intro pol listed
  obtain ⟨l, -, first | second⟩ := has.link_of_mem object listed
  · exact never _ first
  · exact never _ second

end NetPage.Has

end Cheops.Canvas
