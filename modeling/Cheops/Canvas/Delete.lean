import Cheops.Canvas.Unmerge

/-! # Deleting hosts and links

`page_object_delete` asks whether a host has to be unmerged with a test on `merge`, which is also
`NULL` for the last member of a group; and a link between two hosts of one group is in the list of
the primary twice, where it is freed twice.  In all other cases the page is left well formed.
-/

namespace Cheops.Canvas

open Cheops.Lib

variable {np np' : NetPage} {s : Shape} {po p fuel : Nat} {o op : PageObject}

/-! ## Pages without dangling pointers -/

structure NetPage.Closed (np : NetPage) : Prop where
  merge : ∀ h o, np.objects h = some o → ∀ x, o.merge = some x → x ∈ np.pageObjects
  mergePrimary : ∀ h o, np.objects h = some o → ∀ x, o.mergePrimary = some x → x ∈ np.pageObjects
  links : ∀ h o, np.objects h = some o → ∀ pol ∈ o.links, np.links pol ≠ none
  ends : ∀ pol l, np.links pol = some l → l.po1 ∈ np.pageObjects ∧ l.po2 ∈ np.pageObjects
  merge1 : ∀ pol l, np.links pol = some l → ∀ x, l.merge1 = some x → x ∈ np.pageObjects
  merge2 : ∀ pol l, np.links pol = some l → ∀ x, l.merge2 = some x → x ∈ np.pageObjects

/-- The pointers of a chain that does not dangle lead to members. -/
theorem seg_next {heap : Nat → Option PageObject} {m : Option Nat} {xs : List Nat} {h x : Nat}
    (seg : Seg heap PageObject.merge m xs none) (member : h ∈ xs) (object : heap h = some o)
    (next : o.merge = some x) : x ∈ xs := by
  obtain ⟨pre, post, rfl⟩ := List.append_of_mem member
  obtain ⟨_, -, -, a, object', rest⟩ := Seg.append_iff.mp seg
  cases object.symm.trans object'
  rw [next] at rest
  cases post with
  | nil => cases rest
  | cons y ys =>
    cases rest.1
    simp

theorem NetPage.WellFormed.closed (formed : np.WellFormed) : np.Closed := by
  obtain ⟨⟨s, has, whole⟩, linked⟩ := formed
  refine ⟨?_, ?_, ?_, linked, ?_, ?_⟩
  · intro h o object x next
    have owner := has.own_mem (has.mem object)
    have fixed := s.own_own h
    obtain ⟨op, primary⟩ := (has.alive _).mp owner
    have seg := has.chain _ op primary fixed
    rw [whole _ owner fixed] at seg
    apply has.members_alive owner fixed
    by_cases own : s.own h = h
    · rw [own] at seg primary ⊢
      cases primary.symm.trans object
      rw [next] at seg
      cases members : s.members h with
      | nil =>
        rw [members] at seg
        cases seg
      | cons y ys =>
        rw [members] at seg
        cases seg.1
        exact .head _
    · exact seg_next seg (has.member h (has.mem object) own).2 object next
  · intro h o object x primary
    have owner := has.owner h o object
    rw [primary] at owner
    rw [show x = s.own h from owner]
    exact has.own_mem (has.mem object)
  · intro h o object pol listed gone
    have positive := List.count_pos_iff.mpr listed
    rw [has.listed.count h o object nofun, gone] at positive
    exact absurd positive (Nat.lt_irrefl 0)
  · intro pol l link x merged
    obtain ⟨drawn, listed⟩ := has.listed.drawn1 pol l link
    rw [PageObjectLink.end1, merged] at drawn
    rw [show x = s.own l.po1 from drawn]
    exact listed
  · intro pol l link x merged
    obtain ⟨drawn, listed⟩ := has.listed.drawn2 pol l link
    rw [PageObjectLink.end2, merged] at drawn
    rw [show x = s.own l.po2 from drawn]
    exact listed

/-! ## What deletion is for -/

/-- The hosts that are to be deleted with `po`: itself and, if all of its group are to be, those
    of which it is the primary. -/
def NetPage.targets (np : NetPage) (all : Bool) (po h : Nat) : Bool :=
  h == po || (all && np.owner h == po)

def PageObjectLink.Involves (gone : Nat → Bool) (l : PageObjectLink) : Prop :=
  gone l.po1 ∨ gone l.po2 ∨ ∃ x, gone x ∧ (l.merge1 = some x ∨ l.merge2 = some x)

structure Deleted (np np' : NetPage) (gone : Nat → Bool) : Prop where
  pageObjects : np'.pageObjects = np.pageObjects.filter fun h => !gone h
  freed : ∀ h, gone h → np'.objects h = none
  closed : np'.Closed
  removed : ∀ pol l, np.links pol = some l → gone l.po1 ∨ gone l.po2 → np'.links pol = none
  kept : ∀ pol l, np.links pol = some l → ¬ l.Involves gone → np'.links pol = some l
  groups : ∀ h o, np.objects h = some o → (∀ g, gone g → np.owner g ≠ np.owner h) →
    ∃ o', np'.objects h = some o' ∧ o'.merge = o.merge ∧ o'.mergePrimary = o.mergePrimary

/-! ## The branches of `page_object_delete` -/

section branches

variable (force yes : Bool)

theorem delete_eq_free (listed : po ∈ np.pageObjects) (object : np.objects po = some o)
    (last : o.merge = none) :
    pageObjectDelete (fuel + 1) force yes po np = freePageObject po np := by
  rw [pageObjectDelete, if_pos listed, NetPage.object, object]
  change (if o.merge = none then _ else _) = _
  rw [if_pos last]
  rfl

theorem delete_eq_unmerge (listed : po ∈ np.pageObjects) (object : np.objects po = some o)
    (merged : o.merge ≠ none) (member : o.mergePrimary ≠ some po) :
    pageObjectDelete (fuel + 1) force yes po np =
      pageObjectUnmerge fuel po np >>= freePageObject po := by
  rw [pageObjectDelete, if_pos listed, NetPage.object, object]
  change (if o.merge = none then _ else if o.mergePrimary = some po then _ else _) = _
  rw [if_neg merged, if_neg member]

def deleteTemp (fuel : Nat) (force yes : Bool) (temp : Nat) (np : NetPage) :
    Except Fault NetPage := do
  let np ← np.modify temp fun o => { o with merge := none }
  pageObjectDelete fuel force yes temp np

theorem delete_eq_all (listed : po ∈ np.pageObjects) (object : np.objects po = some o)
    (merged : o.merge ≠ none) (primary : o.mergePrimary = some po) (all : (force || yes) = true) :
    pageObjectDelete (fuel + 1) force yes po np =
      forMerged (deleteTemp fuel force yes) fuel o.merge np >>= freePageObject po := by
  rw [pageObjectDelete, if_pos listed, NetPage.object, object]
  change (if o.merge = none then _ else if o.mergePrimary = some po then
    if (force || yes) = true then _ else _ else _) = _
  rw [if_neg merged, if_pos primary, if_pos all]
  rfl

theorem delete_eq_ungroup (listed : po ∈ np.pageObjects) (object : np.objects po = some o)
    (merged : o.merge ≠ none) (primary : o.mergePrimary = some po) (all : (force || yes) = false) :
    pageObjectDelete (fuel + 1) force yes po np =
      forMerged (pageObjectUnmerge fuel) fuel o.merge np >>= freePageObject po := by
  rw [pageObjectDelete, if_pos listed, NetPage.object, object]
  change (if o.merge = none then _ else if o.mergePrimary = some po then
    if (force || yes) = true then _ else _ else _) = _
  rw [if_neg merged, if_pos primary, if_neg (by rw [all]; exact Bool.false_ne_true)]

end branches

/-! ## A host that is not in a group -/

theorem targets_iff {all : Bool} (has : np.Has s)
    (alone : ∀ h ∈ np.pageObjects, s.own h = po → h = po) (h : Nat) :
    np.targets all po h ↔ h = po := by
  have owned : np.owner h = po → h = po := by
    intro owner
    by_cases listed : h ∈ np.pageObjects
    · rw [has.owner_eq listed] at owner
      exact alone h listed owner
    · cases object : np.objects h with
      | none =>
        rw [NetPage.owner, object] at owner
        exact owner
      | some o => exact absurd (has.mem object) listed
  simp only [NetPage.targets, Bool.or_eq_true, Bool.and_eq_true, beq_iff_eq]
  exact ⟨fun h => h.elim id fun h => owned h.2, .inl⟩

/-- No link has both its ends at a host that is not in a group. -/
theorem noInner_of_alone (has : np.Has s)
    (linked : ∀ pol l, np.links pol = some l → l.po1 ∈ np.pageObjects ∧ l.po2 ∈ np.pageObjects)
    (alone : ∀ h ∈ np.pageObjects, s.own h = po → h = po) : NoInner np s.own po := by
  intro pol l link ⟨own1, own2⟩
  obtain ⟨listed1, listed2⟩ := linked pol l link
  exact has.listed.apart pol l link
    ((alone _ listed1 own1).trans (alone _ listed2 own2).symm)

/-- Freeing a host that is not in a group. -/
theorem freed_deleted (has : np.Has s)
    (whole : ∀ p ∈ np.pageObjects, s.own p = p → s.tail p = none)
    (linked : ∀ pol l, np.links pol = some l → l.po1 ∈ np.pageObjects ∧ l.po2 ∈ np.pageObjects)
    (object : np.objects po = some o) (own : s.own po = po)
    (alone : ∀ h ∈ np.pageObjects, s.own h = po → h = po) {gone : Nat → Bool}
    (only : ∀ h, gone h ↔ h = po) : Deleted np (np.freed po o) gone := by
  have owned (pol : Nat) (l : PageObjectLink) (link : np.links pol = some l) :
      pol ∈ o.links ↔ l.po1 = po ∨ l.po2 = po := by
    constructor
    · intro member
      obtain ⟨l', link', owns⟩ := links_own has.listed object (noInner_of_alone has linked alone)
        pol member
      cases link.symm.trans link'
      obtain ⟨listed1, listed2⟩ := linked pol l link
      exact owns.imp (fun owns => alone _ listed1 owns.1) (fun owns => alone _ listed2 owns.2)
    · rintro (here | here)
      · exact mem_links has.listed object link (.inl (by rw [here, own]))
      · exact mem_links has.listed object link (.inr (by rw [here, own]))
  have formed : (np.freed po o).WellFormed := by
    refine ⟨⟨s, has.freed object own alone, fun p listed => whole p (freed_mem.mp listed).1⟩, ?_⟩
    intro pol l link
    obtain ⟨kept, link⟩ := freed_links.mp link
    obtain ⟨listed1, listed2⟩ := linked pol l link
    obtain ⟨other1, other2⟩ := not_or.mp (mt (owned pol l link).mpr kept)
    exact ⟨freed_mem.mpr ⟨listed1, other1⟩, freed_mem.mpr ⟨listed2, other2⟩⟩
  refine ⟨?_, ?_, formed.closed, ?_, ?_, ?_⟩
  · simp only [NetPage.freed, NetPage.without, NetPage.cut]
    apply List.filter_congr
    intro h _
    by_cases same : h = po
    · subst same
      simp [(only h).mpr rfl]
    · have kept := Bool.eq_false_iff.mpr (mt (only h).mp same)
      simp [kept, same]
  · intro h member
    simp [NetPage.freed, NetPage.without, (only h).mp member]
  · intro pol l link ends
    simp only [NetPage.freed, NetPage.without, NetPage.cut]
    rw [if_pos ((owned pol l link).mpr (ends.imp (only _).mp (only _).mp))]
  · intro pol l link apart
    refine freed_links.mpr ⟨fun member => apart ?_, link⟩
    rcases (owned pol l link).mp member with here | here
    · exact .inl ((only _).mpr here)
    · exact .inr (.inl ((only _).mpr here))
  · intro h o' object' apart
    refine ⟨_, freed_objects.mpr ⟨?_, o', object', rfl⟩, rfl, rfl⟩
    rintro rfl
    exact apart h ((only h).mpr rfl) rfl

/-! ## A member of a group -/

structure Ungrouped (np np' : NetPage) (p : Nat) (xs : List Nat) : Prop where
  pageObjects : np'.pageObjects = np.pageObjects
  links : ∀ pol l, np.links pol = some l → ∃ l', np'.links pol = some l' ∧
    l'.po1 = l.po1 ∧ l'.po2 = l.po2 ∧ ((∀ x ∈ xs, ¬ l.HasEnd x) → l' = l)
  origin : ∀ pol l', np'.links pol = some l' → ∃ l, np.links pol = some l ∧
    l'.po1 = l.po1 ∧ l'.po2 = l.po2
  objects : ∀ h, np.owner h ≠ p → np'.objects h = np.objects h

theorem Unmerges.ungrouped (unmerges : Unmerges np np' po)
    (objects : ∀ h, np.owner h ≠ p → np'.objects h = np.objects h) : Ungrouped np np' p [po] where
  pageObjects := unmerges.pageObjects
  links pol l link := by
    refine ⟨if l.HasEnd po then l.detach po else l, by rw [unmerges.links, link]; rfl, ?_, ?_, ?_⟩
    · split
      · exact detach_po1 po l
      · rfl
    · split
      · exact detach_po2 po l
      · rfl
    · exact fun apart => if_neg (apart po (.head _))
  origin pol l' link' := by
    rw [unmerges.links, Option.map_eq_some_iff] at link'
    obtain ⟨l, link, rfl⟩ := link'
    refine ⟨l, link, ?_, ?_⟩
    · split
      · exact detach_po1 po l
      · rfl
    · split
      · exact detach_po2 po l
      · rfl
  objects := objects

/-- Deleting a host after members of its group have been unmerged. -/
theorem Ungrouped.deleted {xs : List Nat} {gone : Nat → Bool} {np₁ np₂ : NetPage}
    (ungrouped : Ungrouped np np₁ p xs) (deleted : Deleted np₁ np₂ gone)
    (ends : ∀ pol l, np.links pol = some l → ∀ x ∈ xs, l.HasEnd x → l.Involves gone)
    (outside : ∀ h o, np.objects h = some o → (∀ g, gone g → np.owner g ≠ np.owner h) →
      np.owner h ≠ p ∧ ∀ g, gone g → np₁.owner g ≠ np.owner h) : Deleted np np₂ gone where
  pageObjects := by rw [deleted.pageObjects, ungrouped.pageObjects]
  freed := deleted.freed
  closed := deleted.closed
  removed pol l link gone := by
    obtain ⟨l', link', po1, po2, -⟩ := ungrouped.links pol l link
    refine deleted.removed pol l' link' ?_
    rwa [po1, po2]
  kept pol l link apart := by
    obtain ⟨l', link', -, -, same⟩ := ungrouped.links pol l link
    rw [same fun x member hasEnd => apart (ends pol l link x member hasEnd)] at link'
    exact deleted.kept pol l link' apart
  groups h o object apart := by
    obtain ⟨other, apart⟩ := outside h o object apart
    have same := ungrouped.objects h other
    refine deleted.groups h o (same.trans object) fun g deleted => ?_
    rw [show np₁.owner h = np.owner h by rw [NetPage.owner, NetPage.owner, same]]
    exact apart g deleted

theorem Shape.unmerge_own (s : Shape) (po h : Nat) :
    (s.unmerge po).own h = if h = po then po else s.own h := Function.update_apply _ _ _ _

theorem never_owner (member : s.own po ≠ po) (h : Nat) : s.own h ≠ po := by
  intro same
  have fixed := s.own_own h
  rw [same] at fixed
  exact member fixed

/-- What holds of the hosts outside a group, by what `owner` says. -/
theorem NetPage.Has.others {s₁ : Shape} {np₁ : NetPage} (has : np.Has s) (has₁ : np₁.Has s₁)
    (pageObjects : np₁.pageObjects = np.pageObjects)
    (objects : ∀ h, s.own h ≠ p → np₁.objects h = np.objects h) :
    ∀ h, np.owner h ≠ p → np₁.objects h = np.objects h := by
  intro h other
  by_cases listed : h ∈ np.pageObjects
  · rw [has.owner_eq listed] at other
    exact objects h other
  · have none : np.objects h = none := by
      rw [Option.eq_none_iff_forall_ne_some]
      exact fun o object => listed (has.mem object)
    have none₁ : np₁.objects h = Option.none := by
      rw [Option.eq_none_iff_forall_ne_some]
      exact fun o object => listed (pageObjects ▸ has₁.mem object)
    rw [none, none₁]

/-- A member with a successor is unmerged and deleted. -/
theorem delete_member (formed : np.WellFormed) (has : np.Has s)
    (whole : ∀ p ∈ np.pageObjects, s.own p = p → s.tail p = none)
    (object : np.objects po = some o) (member : s.own po ≠ po) (merged : o.merge ≠ none)
    (enough : np.pageObjects.length ≤ fuel) (force yes : Bool) {gone : Nat → Bool}
    (only : ∀ h, gone h ↔ h = po) :
    ∃ np', pageObjectDelete (fuel + 1) force yes po np = .ok np' ∧ Deleted np np' gone := by
  have listed := has.mem object
  have primary := has.mergePrimary object member
  obtain ⟨np₁, run, has₁, unmerges, objects⟩ := pageObjectUnmerge_member has object member
    (whole _ (has.own_mem listed) (s.own_own po)) enough
  have listed₁ : po ∈ np₁.pageObjects := by rwa [unmerges.pageObjects]
  obtain ⟨o₁, object₁⟩ := (has₁.alive po).mp listed₁
  have own₁ : (s.unmerge po).own po = po := by rw [Shape.unmerge_own, if_pos rfl]
  have alone₁ : ∀ h ∈ np₁.pageObjects, (s.unmerge po).own h = po → h = po := by
    intro h _ owned
    rw [Shape.unmerge_own] at owned
    split at owned
    · assumption
    · exact absurd owned (never_owner member h)
  have ungrouped : Ungrouped np np₁ (s.own po) [po] :=
    unmerges.ungrouped (has.others has₁ unmerges.pageObjects objects)
  have linked₁ : ∀ pol l, np₁.links pol = some l →
      l.po1 ∈ np₁.pageObjects ∧ l.po2 ∈ np₁.pageObjects := by
    intro pol l' link'
    obtain ⟨l, link, po1, po2⟩ := ungrouped.origin pol l' link'
    rw [po1, po2, unmerges.pageObjects]
    exact formed.linked pol l link
  have whole₁ : ∀ p ∈ np₁.pageObjects, (s.unmerge po).own p = p → (s.unmerge po).tail p = none := by
    intro p listed own
    rw [Shape.unmerge_own] at own
    simp only [Shape.unmerge]
    split at own
    next here => rw [if_pos here]
    next other =>
      rw [if_neg other]
      exact whole p (unmerges.pageObjects ▸ listed) own
  refine ⟨np₁.freed po o₁, ?_, ungrouped.deleted
    (freed_deleted has₁ whole₁ linked₁ object₁ own₁ alone₁ only) ?_ ?_⟩
  · rw [delete_eq_unmerge force yes listed object merged (by rw [primary]; simpa using member), run]
    exact freePageObject_eq has₁ object₁ (noInner_of_alone has₁ linked₁ alone₁)
  · intro pol l _ x member hasEnd
    rw [List.mem_singleton.mp member] at hasEnd
    rcases hasEnd with here | here
    · exact .inl ((only _).mpr here)
    · exact .inr (.inl ((only _).mpr here))
  · intro h o' object' apart
    have other := apart po ((only po).mpr rfl)
    rw [has.owner_eq listed] at other
    refine ⟨other.symm, fun g deleted => ?_⟩
    rw [(only g).mp deleted, has₁.owner_eq listed₁, own₁, has.owner_eq (has.mem object')]
    exact (never_owner member h).symm

/-- Some host points to a member. -/
theorem NetPage.Has.pointed (has : np.Has s) (listed : po ∈ np.pageObjects)
    (member : s.own po ≠ po) : ∃ h o, h ≠ po ∧ np.objects h = some o ∧ o.merge = some po := by
  obtain ⟨owner, grouped⟩ := has.member po listed member
  have fixed := s.own_own po
  obtain ⟨op, primary⟩ := (has.alive _).mp owner
  obtain ⟨pre, post, split⟩ := List.append_of_mem grouped
  have nodup := (has.members _ owner fixed).1
  have seg := has.chain _ op primary fixed
  rw [split] at nodup seg
  rcases List.eq_nil_or_concat pre with rfl | ⟨pre', y, rfl⟩
  · exact ⟨_, op, member, primary, seg.1⟩
  · rw [List.concat_eq_append, List.append_assoc] at nodup seg
    obtain ⟨_, -, -, a, object, rest⟩ := Seg.append_iff.mp seg
    refine ⟨y, a, ?_, object, rest.1⟩
    rintro rfl
    exact (List.nodup_cons.mp (List.nodup_append'.mp nodup).2.1).1 (.head _)

/-- The last member of a group is freed, and its predecessor still points to it. -/
theorem delete_last (has : np.Has s) (object : np.objects po = some o) (member : s.own po ≠ po)
    (last : o.merge = none) (force yes : Bool) {gone : Nat → Bool} :
    ¬ ∃ np', pageObjectDelete (fuel + 1) force yes po np = .ok np' ∧ Deleted np np' gone := by
  rintro ⟨np', run, deleted⟩
  have listed := has.mem object
  have inner : NoInner np s.own po := fun _ l _ owns => never_owner member l.po1 owns.1
  rw [delete_eq_free force yes listed object last, freePageObject_eq has object inner] at run
  cases run
  obtain ⟨h, o', other, object', next⟩ := has.pointed listed member
  have dangles := deleted.closed.merge h _ (freed_objects.mpr ⟨other, o', object', rfl⟩) po next
  exact (freed_mem.mp dangles).2 rfl

/-! ## Unmerging all members -/

theorem Ungrouped.refl (np : NetPage) (p : Nat) : Ungrouped np np p [] where
  pageObjects := rfl
  links _ l link := ⟨l, link, rfl, rfl, fun _ => rfl⟩
  origin _ l link := ⟨l, link, rfl, rfl⟩
  objects _ _ := rfl

theorem Ungrouped.cons {np₁ np₂ : NetPage} {x : Nat} {xs : List Nat}
    (first : Ungrouped np np₁ p [x]) (rest : Ungrouped np₁ np₂ p xs)
    (same : ∀ h, np.owner h ≠ p → np₁.owner h ≠ p) : Ungrouped np np₂ p (x :: xs) where
  pageObjects := rest.pageObjects.trans first.pageObjects
  links pol l link := by
    obtain ⟨l₁, link₁, po1, po2, kept⟩ := first.links pol l link
    obtain ⟨l₂, link₂, po1', po2', kept'⟩ := rest.links pol l₁ link₁
    refine ⟨l₂, link₂, po1'.trans po1, po2'.trans po2, fun apart => ?_⟩
    have here : l₁ = l := kept fun y member => apart y (by
      rw [List.mem_singleton.mp member]
      exact .head _)
    subst here
    exact kept' fun y member => apart y (.tail _ member)
  origin pol l₂ link₂ := by
    obtain ⟨l₁, link₁, po1, po2⟩ := rest.origin pol l₂ link₂
    obtain ⟨l, link, po1', po2'⟩ := first.origin pol l₁ link₁
    exact ⟨l, link, po1.trans po1', po2.trans po2'⟩
  objects h other := (rest.objects h (same h other)).trans (first.objects h other)

/-- The loop over the members of `p`, when they are to stay on the page. -/
theorem ungroup_ok {xs : List Nat} {n : Nat} (has : np.Has s) (object : np.objects p = some o)
    (own : s.own p = p) (members : s.members p = xs) (whole : s.tail p = none)
    (enough : np.pageObjects.length ≤ fuel) (length : xs.length ≤ n) :
    ∃ np' s', forMerged (pageObjectUnmerge fuel) n o.merge np = .ok np' ∧ np'.Has s' ∧
      Ungrouped np np' p xs ∧ s'.members p = [] ∧
      (∀ h, s'.own h = if h ∈ xs then h else s.own h) ∧
      ∀ h, h ∈ xs ∨ s.tail h = none → s'.tail h = none := by
  induction xs generalizing np s o n with
  | nil =>
    have seg := has.chain p o object own
    rw [members, whole] at seg
    rw [show o.merge = none from seg]
    exact ⟨np, s, by rw [forMerged], has, .refl np p, members, fun h => rfl,
      fun h none => none.resolve_left List.not_mem_nil⟩
  | cons x xs ih =>
    have seg := has.chain p o object own
    obtain ⟨nodup, grouped⟩ := has.members p (has.mem object) own
    rw [members] at seg nodup grouped
    rw [whole] at seg
    obtain ⟨head, a, object_x, rest⟩ := seg
    obtain ⟨owned, other⟩ := grouped x (.head _)
    have member : s.own x ≠ x := by rw [owned]; exact other.symm
    obtain ⟨np₁, run, has₁, unmerges, objects⟩ := pageObjectUnmerge_member has object_x member
      (by rwa [owned]) enough
    obtain ⟨op₁, object₁⟩ := (has₁.alive p).mp (by rw [unmerges.pageObjects]; exact has.mem object)
    have own₁ : (s.unmerge x).own p = p := by rw [Shape.unmerge_own, if_neg other.symm, own]
    have members₁ : (s.unmerge x).members p = xs := by
      simp only [Shape.unmerge, other.symm, if_false, members, List.erase_cons_head]
    have whole₁ : (s.unmerge x).tail p = none := by
      simp only [Shape.unmerge, other.symm, if_false, whole]
    cases n with
    | zero => exact absurd length (Nat.not_succ_le_zero _)
    | succ n =>
      obtain ⟨np', s', run', has', ungrouped, alone, own', tail⟩ := ih has₁ object₁ own₁ members₁
        whole₁ (by rwa [unmerges.pageObjects]) (Nat.le_of_succ_le_succ length)
      have seg₁ := has₁.chain p op₁ object₁ own₁
      rw [members₁, whole₁] at seg₁
      refine ⟨np', s', ?_, has', ?_, alone, ?_, ?_⟩
      · rw [head, forMerged, NetPage.object, object_x]
        change (pageObjectUnmerge fuel x np >>= forMerged (pageObjectUnmerge fuel) n a.merge) = _
        rw [run, rest.eq_head?, ← seg₁.eq_head?]
        exact run'
      · rw [owned] at objects
        refine (unmerges.ungrouped (has.others has₁ unmerges.pageObjects objects)).cons ungrouped ?_
        intro h away
        have same := has.others has₁ unmerges.pageObjects objects h away
        rwa [NetPage.owner, same]
      · intro h
        rw [own', Shape.unmerge_own]
        by_cases here : h = x
        · simp [here]
        · simp [here]
      · intro h none
        refine tail h ?_
        simp only [Shape.unmerge]
        split
        next => exact .inr rfl
        next here => exact none.imp_left fun member => (List.mem_cons.mp member).resolve_left here

/-- A link of a member is drawn at its primary. -/
theorem involves_of_member (has : np.Has s) {gone : Nat → Bool} {pol x : Nat} {l : PageObjectLink}
    (link : np.links pol = some l) (hasEnd : l.HasEnd x) (member : s.own x ≠ x)
    (deleted : gone (s.own x)) : l.Involves gone := by
  refine .inr (.inr ⟨s.own x, deleted, ?_⟩)
  rcases hasEnd with rfl | rfl
  · have drawn := (has.listed.drawn1 pol l link).1
    rw [PageObjectLink.end1] at drawn
    cases merged : l.merge1 with
    | none =>
      rw [merged] at drawn
      exact absurd drawn.symm member
    | some y =>
      rw [merged] at drawn
      exact .inl (congrArg some drawn)
  · have drawn := (has.listed.drawn2 pol l link).1
    rw [PageObjectLink.end2] at drawn
    cases merged : l.merge2 with
    | none =>
      rw [merged] at drawn
      exact absurd drawn.symm member
    | some y =>
      rw [merged] at drawn
      exact .inr (congrArg some drawn)

/-- A primary is deleted, and its members stay. -/
theorem delete_primary (formed : np.WellFormed) (has : np.Has s)
    (whole : ∀ p ∈ np.pageObjects, s.own p = p → s.tail p = none)
    (object : np.objects po = some o) (own : s.own po = po) (merged : o.merge ≠ none)
    (enough : np.pageObjects.length ≤ fuel) {force yes : Bool} (stay : (force || yes) = false)
    {gone : Nat → Bool} (only : ∀ h, gone h ↔ h = po) :
    ∃ np', pageObjectDelete (fuel + 1) force yes po np = .ok np' ∧ Deleted np np' gone := by
  have listed := has.mem object
  have grouped := (has.members po listed own).2
  have outside : po ∉ s.members po := fun member => (grouped po member).2 rfl
  obtain ⟨np₁, s₁, run, has₁, ungrouped, -, own₁, tail⟩ := ungroup_ok has object own rfl
    (whole po listed own) enough (Nat.le_trans (has.length_members listed own) enough)
  have listed₁ : po ∈ np₁.pageObjects := by rwa [ungrouped.pageObjects]
  obtain ⟨o₁, object₁⟩ := (has₁.alive po).mp listed₁
  have own_po : s₁.own po = po := by rw [own₁, if_neg outside, own]
  have alone₁ : ∀ h ∈ np₁.pageObjects, s₁.own h = po → h = po := by
    intro h there owned
    rw [own₁] at owned
    split at owned
    next => exact owned
    next unmerged =>
      by_contra other
      rw [ungrouped.pageObjects] at there
      have member := (has.member h there (by rw [owned]; exact Ne.symm other)).2
      rw [owned] at member
      exact unmerged member
  have linked₁ : ∀ pol l, np₁.links pol = some l →
      l.po1 ∈ np₁.pageObjects ∧ l.po2 ∈ np₁.pageObjects := by
    intro pol l' link'
    obtain ⟨l, link, po1, po2⟩ := ungrouped.origin pol l' link'
    rw [po1, po2, ungrouped.pageObjects]
    exact formed.linked pol l link
  have whole₁ : ∀ p ∈ np₁.pageObjects, s₁.own p = p → s₁.tail p = none := by
    intro p there own
    refine tail p ?_
    rw [own₁] at own
    split at own
    next member => exact .inl member
    next => exact .inr (whole p (ungrouped.pageObjects ▸ there) own)
  refine ⟨np₁.freed po o₁, ?_, ungrouped.deleted
    (freed_deleted has₁ whole₁ linked₁ object₁ own_po alone₁ only) ?_ ?_⟩
  · rw [delete_eq_ungroup force yes listed object merged (has.primary object own merged) stay, run]
    exact freePageObject_eq has₁ object₁ (noInner_of_alone has₁ linked₁ alone₁)
  · intro pol l link x member hasEnd
    obtain ⟨owned, other⟩ := grouped x member
    exact involves_of_member has link hasEnd (by rw [owned]; exact other.symm)
      ((only _).mpr owned)
  · intro h o' object' apart
    have other := apart po ((only po).mpr rfl)
    rw [has.owner_eq listed, own] at other
    refine ⟨other.symm, fun g deleted => ?_⟩
    rw [(only g).mp deleted, has₁.owner_eq listed₁, own_po]
    exact other

/-! ## Deleting all members -/

theorem without_cons (np : NetPage) (x : Nat) (xs : List Nat) :
    (np.without [x]).without xs = np.without (x :: xs) := by
  ext1
  · simp only [NetPage.without, List.filter_filter]
    apply List.filter_congr
    intro h _
    by_cases here : h = x
    · simp [here]
    · simp [here]
  · funext h
    simp only [NetPage.without, List.mem_cons, List.not_mem_nil, or_false]
    split_ifs with first second second <;> simp_all
  · rfl

theorem without_nil (np : NetPage) : np.without [] = np := by
  ext1
  · simp [NetPage.without]
  · funext h
    simp [NetPage.without]
  · rfl

/-- The recursive call frees the member, which has no links. -/
theorem deleteTemp_eq (force yes : Bool) (nodup : np.pageObjects.Nodup)
    (listed : po ∈ np.pageObjects) (object : np.objects po = some o) (bare : o.links = []) :
    deleteTemp (fuel + 1) force yes po np = .ok (np.without [po]) := by
  rw [deleteTemp, modify_eq object]
  change pageObjectDelete (fuel + 1) force yes po
    (np.adjust po fun o => { o with merge := none }) = _
  have object₁ : (np.adjust po fun o => { o with merge := none }).objects po =
      some { o with merge := none } := by
    simp only [NetPage.adjust, if_true, object, Option.map_some]
  have listed₁ : po ∈ (np.adjust po fun o => { o with merge := none }).pageObjects := listed
  rw [delete_eq_free force yes listed₁ object₁ rfl, freePageObject, if_pos listed₁, NetPage.object,
    object₁]
  change (destroyLinks po o.links _ >>= _) = _
  rw [bare, destroyLinks]
  refine congrArg Except.ok (NetPage.ext ?_ (funext fun h => ?_) rfl)
  · simp only [NetPage.adjust, NetPage.without]
    rw [nodup.erase_eq_filter]
    apply List.filter_congr
    intro h _
    by_cases same : h = po
    · simp [same]
    · simp [same]
  · simp only [NetPage.adjust, NetPage.without, List.mem_singleton]
    by_cases same : h = po
    · simp [same]
    · simp [same]

theorem seg_without {m q : Option Nat} {x : Nat} {xs : List Nat}
    (seg : Seg np.objects PageObject.merge m xs q) (absent : x ∉ xs) :
    Seg (np.without [x]).objects PageObject.merge m xs q := by
  refine seg.congr fun y member a allocated => ⟨a, ?_, rfl⟩
  exact without_objects.mpr
    ⟨fun same => absent (List.mem_singleton.mp same ▸ member), allocated⟩

/-- The loop over the members frees those that the chain leads to, and goes on at its end. -/
theorem deleteTemps_eq (force yes : Bool) {xs : List Nat} {n : Nat} {m q : Option Nat}
    (seg : Seg np.objects PageObject.merge m xs q) (nodup : xs.Nodup)
    (unique : np.pageObjects.Nodup)
    (bare : ∀ x ∈ xs, x ∈ np.pageObjects ∧ ∀ o, np.objects x = some o → o.links = []) :
    forMerged (deleteTemp (fuel + 1) force yes) (n + xs.length) m np =
      forMerged (deleteTemp (fuel + 1) force yes) n q (np.without xs) := by
  induction xs generalizing np m with
  | nil =>
    rw [show m = q from seg, without_nil]
    rfl
  | cons x xs ih =>
    obtain ⟨rfl, a, object, rest⟩ := seg
    obtain ⟨absent, nodup⟩ := List.nodup_cons.mp nodup
    obtain ⟨listed, links⟩ := bare x (.head _)
    rw [List.length_cons, ← Nat.add_assoc, forMerged, NetPage.object, object]
    change (deleteTemp (fuel + 1) force yes x np >>=
      forMerged (deleteTemp (fuel + 1) force yes) (n + xs.length) a.merge) = _
    rw [deleteTemp_eq force yes unique listed object (links a object), ← without_cons np x xs]
    refine ih (seg_without rest absent) nodup (unique.filter _) ?_
    intro y member
    obtain ⟨there, links⟩ := bare y (.tail _ member)
    have other : y ∉ [x] := fun same => absent (List.mem_singleton.mp same ▸ member)
    refine ⟨List.mem_filter.mpr ⟨there, by simpa using other⟩, fun o object => ?_⟩
    exact links o (without_objects.mp object).2

theorem deleteTemps_ok (force yes : Bool) {xs : List Nat} {n : Nat} {m : Option Nat}
    (seg : Seg np.objects PageObject.merge m xs none) (nodup : xs.Nodup)
    (unique : np.pageObjects.Nodup)
    (bare : ∀ x ∈ xs, x ∈ np.pageObjects ∧ ∀ o, np.objects x = some o → o.links = [])
    (length : xs.length ≤ n) :
    forMerged (deleteTemp (fuel + 1) force yes) n m np = .ok (np.without xs) := by
  obtain ⟨n, rfl⟩ := Nat.exists_eq_add_of_le' length
  rw [deleteTemps_eq force yes seg nodup unique bare, forMerged]

def Shape.alone (s : Shape) (p : Nat) (tail : Option Nat) : Shape where
  own := s.own
  members := Function.update s.members p []
  tail := Function.update s.tail p tail
  own_own := s.own_own

theorem NetPage.Has.without (has : np.Has s) (object : np.objects p = some o) (own : s.own p = p)
    (whole : s.tail p = none) : (np.without (s.members p)).Has (s.alone p o.merge) := by
  have listed := has.mem object
  obtain ⟨nodup, grouped⟩ := has.members p listed own
  have owner_kept (h : Nat) : s.own h ∉ s.members p := by
    intro member
    obtain ⟨owned, other⟩ := grouped _ member
    rw [s.own_own] at owned
    exact other owned
  have kept (h : Nat) : h ∈ (np.without (s.members p)).pageObjects ↔
      h ∈ np.pageObjects ∧ h ∉ s.members p := by
    simp [NetPage.without]
  have others {r : Nat} (own : s.own r = r) (there : r ∈ np.pageObjects) (other : r ≠ p) :
      ∀ x ∈ s.members r, x ∉ s.members p := by
    intro x member inside
    have owned := ((has.members r there own).2 x member).1
    exact other (owned.symm.trans (grouped x inside).1)
  refine ⟨has.nodup.filter _, ?_, ?_, ?_, ?_, ?_, ?_, ?_, ?_, ?_, ?_, ?_⟩
  · intro h
    rw [kept, has.alive]
    constructor
    · rintro ⟨⟨o', object'⟩, outside⟩
      exact ⟨o', without_objects.mpr ⟨outside, object'⟩⟩
    · rintro ⟨o', object'⟩
      obtain ⟨outside, object'⟩ := without_objects.mp object'
      exact ⟨⟨o', object'⟩, outside⟩
  · intro h o' object'
    exact has.owner h o' (without_objects.mp object').2
  · intro h o' object'
    exact has.unmerged h o' (without_objects.mp object').2
  · intro h o' object' own'
    obtain ⟨outside, object₀⟩ := without_objects.mp object'
    by_cases here : h = p
    · subst here
      cases object.symm.trans object₀
      simp only [Shape.alone, Function.update_self]
      rfl
    · simp only [Shape.alone, Function.update_of_ne here]
      refine (has.chain h o' object₀ own').congr fun x member a allocated => ⟨a, ?_, rfl⟩
      exact without_objects.mpr ⟨others own' (has.mem object₀) here x member, allocated⟩
  · intro h there away
    obtain ⟨there, outside⟩ := (kept h).mp there
    obtain ⟨owner, member⟩ := has.member h there away
    have other : s.own h ≠ p := by
      intro same
      rw [same] at member
      exact outside member
    refine ⟨(kept _).mpr ⟨owner, owner_kept h⟩, ?_⟩
    simp only [Shape.alone]
    rwa [Function.update_of_ne other]
  · intro r there own'
    by_cases here : r = p
    · simp [Shape.alone, here]
    · simp only [Shape.alone, Function.update_of_ne here]
      exact has.members r ((kept r).mp there).1 own'
  · intro r there own' d tail
    simp only [NetPage.without]
    by_cases here : r = p
    · subst here
      simp only [Shape.alone, Function.update_self] at tail
      have seg := has.chain r o object own
      rw [whole, tail] at seg
      cases members : s.members r with
      | nil =>
        rw [members] at seg
        cases seg
      | cons x xs =>
        rw [members] at seg
        cases seg.1
        exact if_pos (.head _)
    · simp only [Shape.alone, Function.update_of_ne here] at tail
      have gone := has.dangling r ((kept r).mp there).1 own' d tail
      split
      · rfl
      · exact gone
  · exact has.listed.apart
  · intro pol l link
    obtain ⟨drawn, there⟩ := has.listed.drawn1 pol l link
    exact ⟨drawn, (kept _).mpr ⟨there, owner_kept _⟩⟩
  · intro pol l link
    obtain ⟨drawn, there⟩ := has.listed.drawn2 pol l link
    exact ⟨drawn, (kept _).mpr ⟨there, owner_kept _⟩⟩
  · intro h o' object'
    exact has.listed.count h o' (without_objects.mp object').2

/-- The members of a group have no links of their own. -/
theorem NetPage.Has.bare (has : np.Has s) (listed : p ∈ np.pageObjects) (own : s.own p = p) :
    ∀ x ∈ s.members p, x ∈ np.pageObjects ∧ ∀ o, np.objects x = some o → o.links = [] := by
  intro x member
  obtain ⟨owned, other⟩ := (has.members p listed own).2 x member
  exact ⟨has.members_alive listed own x member, fun o object =>
    has.no_links object (by rw [owned]; exact other.symm)⟩

/-- The members of a group are freed before the links of its primary. -/
theorem delete_all_eq (has : np.Has s) (object : np.objects po = some o) (own : s.own po = po)
    (whole : s.tail po = none) (merged : o.merge ≠ none) (enough : np.pageObjects.length ≤ fuel)
    {force yes : Bool} (all : (force || yes) = true) :
    pageObjectDelete (fuel + 1) force yes po np =
      freePageObject po (np.without (s.members po)) := by
  have listed := has.mem object
  have seg := has.chain po o object own
  rw [whole] at seg
  have short := Nat.le_trans (has.length_members listed own) enough
  cases fuel with
  | zero =>
    rw [List.length_eq_zero_iff.mp (Nat.le_zero.mp short)] at seg
    exact absurd seg merged
  | succ fuel =>
    rw [delete_eq_all force yes listed object merged (has.primary object own merged) all,
      deleteTemps_ok force yes seg (has.members po listed own).1 has.nodup
        (has.bare listed own) short]
    rfl

theorem targets_all_iff (has : np.Has s) (listed : po ∈ np.pageObjects) (own : s.own po = po)
    (h : Nat) : np.targets true po h ↔ h = po ∨ h ∈ s.members po := by
  simp only [NetPage.targets, Bool.true_and, Bool.or_eq_true, beq_iff_eq]
  constructor
  · rintro (here | owner)
    · exact .inl here
    · by_cases here : h = po
      · exact .inl here
      refine .inr ?_
      cases object : np.objects h with
      | none =>
        rw [NetPage.owner, object] at owner
        exact absurd owner here
      | some o =>
        rw [has.owner_eq (has.mem object)] at owner
        have member := (has.member h (has.mem object) (by rw [owner]; exact Ne.symm here)).2
        rwa [owner] at member
  · rintro (here | member)
    · exact .inl here
    · refine .inr ?_
      rw [has.owner_eq (has.members_alive listed own h member)]
      exact ((has.members po listed own).2 h member).1

/-- A whole group is deleted, and no link is in the list of its primary twice. -/
theorem delete_all (formed : np.WellFormed) (has : np.Has s)
    (whole : ∀ p ∈ np.pageObjects, s.own p = p → s.tail p = none)
    (object : np.objects po = some o) (own : s.own po = po) (merged : o.merge ≠ none)
    (enough : np.pageObjects.length ≤ fuel) {force yes : Bool} (all : (force || yes) = true)
    (inner : NoInner np s.own po) :
    ∃ np', pageObjectDelete (fuel + 1) force yes po np = .ok np' ∧
      Deleted np np' (np.targets true po) := by
  have listed := has.mem object
  have tail := whole po listed own
  have gone := targets_all_iff has listed own
  have grouped := (has.members po listed own).2
  have outside : po ∉ s.members po := fun member => (grouped po member).2 rfl
  have has₁ := has.without object own tail
  have object₁ : (np.without (s.members po)).objects po = some o :=
    without_objects.mpr ⟨outside, object⟩
  have owned (h : Nat) (there : h ∈ np.pageObjects) : s.own h = po ↔ np.targets true po h := by
    rw [gone]
    constructor
    · intro owner
      by_cases here : h = po
      · exact .inl here
      · have member := (has.member h there (by rw [owner]; exact Ne.symm here)).2
        rw [owner] at member
        exact .inr member
    · rintro (rfl | member)
      · exact own
      · exact (grouped h member).1
  have alone : ∀ h ∈ (np.without (s.members po)).pageObjects, s.own h = po → h = po := by
    intro h there owner
    obtain ⟨there, unmerged⟩ := List.mem_filter.mp there
    rcases (gone h).mp ((owned h there).mp owner) with here | member
    · exact here
    · simp [member] at unmerged
  have removed (pol : Nat) (l : PageObjectLink) (link : np.links pol = some l) :
      pol ∈ o.links ↔ np.targets true po l.po1 ∨ np.targets true po l.po2 := by
    obtain ⟨there1, there2⟩ := formed.linked pol l link
    rw [← owned _ there1, ← owned _ there2]
    constructor
    · intro member
      obtain ⟨l', link', owns⟩ := links_own has.listed object inner pol member
      cases link.symm.trans link'
      exact owns.imp And.left And.right
    · exact mem_links has.listed object link
  have result := has₁.freed object₁ own alone
  have objects (h : Nat) (o' : PageObject) (object' : np.objects h = some o')
      (kept : ¬ np.targets true po h) :
      ((np.without (s.members po)).freed po o).objects h =
        some { o' with links := o'.links.filter (· ∉ o.links) } := by
    rw [gone, not_or] at kept
    exact freed_objects.mpr ⟨kept.1, o', without_objects.mpr ⟨kept.2, object'⟩, rfl⟩
  refine ⟨_, (delete_all_eq has object own tail merged enough all).trans
    (freePageObject_eq has₁ object₁ inner), ?_, ?_, ?_, ?_, ?_, ?_⟩
  · simp only [NetPage.freed, NetPage.without, NetPage.cut, List.filter_filter]
    apply List.filter_congr
    intro h _
    have kept := not_congr (gone h)
    rw [not_or, Bool.not_eq_true] at kept
    rw [Bool.eq_iff_iff]
    simp [kept]
  · intro h deleted
    simp only [NetPage.freed, NetPage.without, NetPage.cut, List.mem_singleton]
    rcases (gone h).mp deleted with here | member
    · rw [if_pos here]
    · rw [if_neg (grouped h member).2, if_neg (grouped h member).2, if_pos member]
      rfl
  · refine NetPage.WellFormed.closed ⟨⟨_, result, ?_⟩, ?_⟩
    · intro r there fixed
      obtain ⟨there, other⟩ := freed_mem.mp there
      simp only [Shape.alone, Function.update_of_ne other]
      exact whole r (List.mem_filter.mp there).1 fixed
    · intro pol l link
      obtain ⟨kept, link⟩ := freed_links.mp link
      obtain ⟨there1, there2⟩ := formed.linked pol l link
      obtain ⟨kept1, kept2⟩ := not_or.mp (mt (removed pol l link).mpr kept)
      rw [gone, not_or] at kept1 kept2
      exact ⟨freed_mem.mpr ⟨List.mem_filter.mpr ⟨there1, by simpa using kept1.2⟩, kept1.1⟩,
        freed_mem.mpr ⟨List.mem_filter.mpr ⟨there2, by simpa using kept2.2⟩, kept2.1⟩⟩
  · intro pol l link ends
    simp only [NetPage.freed, NetPage.without, NetPage.cut]
    exact if_pos ((removed pol l link).mpr ends)
  · intro pol l link apart
    refine freed_links.mpr ⟨fun member => apart ?_, link⟩
    exact ((removed pol l link).mp member).imp_right .inl
  · intro h o' object' apart
    exact ⟨_, objects h o' object' fun deleted => apart h deleted rfl, rfl, rfl⟩

/-! ## When deletion works -/

/-- The last member of a group, where `merge` is `NULL`. -/
def NetPage.LastMember (np : NetPage) (po : Nat) : Prop :=
  ∃ o, np.objects po = some o ∧ o.merge = none ∧ ∃ p, o.mergePrimary = some p ∧ p ≠ po

/-- A host can be freed only if no link is in its list twice. -/
theorem freePageObject_inner (has : np.Has s) (object : np.objects po = some o)
    (run : freePageObject po np = .ok np') : NoInner np s.own po := by
  rw [freePageObject, if_pos (has.mem object), NetPage.object, object] at run
  obtain ⟨o', read, run⟩ := bind_ok run
  cases read
  obtain ⟨np₁, destroyed, -⟩ := bind_ok run
  exact (links_nodup_iff has.listed object).mp (destroyLinks_nodup destroyed).1

theorem lastMember_iff (has : np.Has s) (object : np.objects po = some o) :
    np.LastMember po ↔ s.own po ≠ po ∧ o.merge = none := by
  constructor
  · rintro ⟨o', object', last, p, primary, other⟩
    cases object.symm.trans object'
    have owner := has.owner po o object
    rw [primary] at owner
    exact ⟨by rw [← owner]; exact other, last⟩
  · rintro ⟨member, last⟩
    exact ⟨o, object, last, _, has.mergePrimary object member, member⟩

theorem noInner_owner_iff (formed : np.WellFormed) (has : np.Has s) :
    NoInner np np.owner po ↔ NoInner np s.own po := by
  have same (pol : Nat) (l : PageObjectLink) (link : np.links pol = some l) :
      np.owner l.po1 = s.own l.po1 ∧ np.owner l.po2 = s.own l.po2 := by
    obtain ⟨there1, there2⟩ := formed.linked pol l link
    exact ⟨has.owner_eq there1, has.owner_eq there2⟩
  constructor
  · intro inner pol l link owns
    obtain ⟨same1, same2⟩ := same pol l link
    exact inner pol l link ⟨same1.trans owns.1, same2.trans owns.2⟩
  · intro inner pol l link owns
    obtain ⟨same1, same2⟩ := same pol l link
    exact inner pol l link ⟨same1.symm.trans owns.1, same2.symm.trans owns.2⟩

/-- `page_object_delete` of any host, with either answer. -/
theorem pageObjectDelete_iff (formed : np.WellFormed) (listed : po ∈ np.pageObjects)
    (enough : np.pageObjects.length < fuel) (force yes : Bool) :
    (∃ np', pageObjectDelete fuel force yes po np = .ok np' ∧
      Deleted np np' (np.targets (force || yes) po)) ↔
    ¬ np.LastMember po ∧ ((force || yes) = true → NoInner np np.owner po) := by
  obtain ⟨s, has, whole⟩ := formed.shape
  obtain ⟨o, object⟩ := (has.alive po).mp listed
  obtain ⟨fuel, rfl⟩ : ∃ n, fuel = n + 1 := ⟨fuel - 1, by omega⟩
  replace enough := Nat.lt_succ_iff.mp enough
  rw [lastMember_iff has object, noInner_owner_iff formed has]
  by_cases member : s.own po = po
  · by_cases merged : o.merge = none
    · have seg := has.chain po o object member
      rw [merged] at seg
      have alone : ∀ h ∈ np.pageObjects, s.own h = po → h = po := by
        intro h there owned
        by_contra other
        have grouped := (has.member h there (by rw [owned]; exact Ne.symm other)).2
        rw [owned, seg.nil_of_none.1] at grouped
        cases grouped
      have inner := noInner_of_alone has formed.linked alone
      refine ⟨fun _ => ⟨fun last => last.1 member, fun _ => inner⟩,
        fun _ => ⟨np.freed po o, ?_, ?_⟩⟩
      · rw [delete_eq_free force yes listed object merged, freePageObject_eq has object inner]
      · exact freed_deleted has whole formed.linked object member alone (targets_iff has alone)
    · cases all : force || yes with
      | false =>
        have only (h : Nat) : np.targets false po h ↔ h = po := by simp [NetPage.targets]
        exact ⟨fun _ => ⟨fun last => last.1 member, nofun⟩, fun _ =>
          delete_primary formed has whole object member merged enough all only⟩
      | true =>
        constructor
        · rintro ⟨np', run, -⟩
          refine ⟨fun last => last.1 member, fun _ => ?_⟩
          have tail := whole po listed member
          have outside : po ∉ s.members po := fun grouped =>
            ((has.members po listed member).2 po grouped).2 rfl
          rw [delete_all_eq has object member tail merged enough all] at run
          have inner : NoInner (np.without (s.members po)) (s.alone po o.merge).own po :=
            freePageObject_inner (has.without object member tail)
              (without_objects.mpr ⟨outside, object⟩) run
          exact inner
        · exact fun holds =>
            delete_all formed has whole object member merged enough all (holds.2 rfl)
  · have inner : NoInner np s.own po := fun _ l _ owns => never_owner member l.po1 owns.1
    have only : ∀ h, np.targets (force || yes) po h ↔ h = po :=
      targets_iff has fun h _ owned => absurd owned (never_owner member h)
    by_cases merged : o.merge = none
    · exact ⟨fun works => absurd works (delete_last has object member merged force yes),
        fun holds => absurd ⟨member, merged⟩ holds.1⟩
    · exact ⟨fun _ => ⟨fun last => merged last.2, fun _ => inner⟩,
        fun _ => delete_member formed has whole object member merged enough force yes only⟩

/-! ## `net_page_unmap_all` -/

def NetPage.unmapped (np : NetPage) (po : Nat) (o : PageObject) : NetPage :=
  (np.cut po o.links).adjust po fun o => { o with links := [] }

structure SameGroups (np np' : NetPage) : Prop where
  pageObjects : np'.pageObjects = np.pageObjects
  groups : ∀ h, (np'.objects h).map (fun o => (o.merge, o.mergePrimary)) =
    (np.objects h).map fun o => (o.merge, o.mergePrimary)

structure Unmapped (np np' : NetPage) : Prop where
  links : ∀ pol, np'.links pol = none
  objects : ∀ h, np'.objects h = (np.objects h).map fun o => { o with links := [] }
  pageObjects : np'.pageObjects = np.pageObjects

theorem unmapped_sameGroups (np : NetPage) (po : Nat) (o : PageObject) :
    SameGroups np (np.unmapped po o) where
  pageObjects := rfl
  groups h := by
    simp only [NetPage.unmapped, NetPage.adjust, NetPage.cut]
    split <;> simp only [Option.map_map] <;> rfl

theorem SameGroups.trans {np₁ np₂ : NetPage} (first : SameGroups np np₁)
    (second : SameGroups np₁ np₂) : SameGroups np np₂ where
  pageObjects := second.pageObjects.trans first.pageObjects
  groups h := (second.groups h).trans (first.groups h)

section unmap

variable {own : Nat → Nat}

theorem unmapped_links {pol : Nat} {l : PageObjectLink} :
    (np.unmapped po o).links pol = some l ↔ pol ∉ o.links ∧ np.links pol = some l := by
  simp only [NetPage.unmapped, NetPage.adjust, NetPage.cut]
  split
  next member => simp [member]
  next kept => simp [kept]

theorem unmapped_alive (alive : ∀ h ∈ np.pageObjects, ∃ o, np.objects h = some o) :
    ∀ h ∈ (np.unmapped po o).pageObjects, ∃ o', (np.unmapped po o).objects h = some o' := by
  intro h member
  obtain ⟨o', object'⟩ : ∃ o', (np.cut po o.links).objects h = some o' := cut_alive alive h member
  exact adjust_alive object'

theorem NetPage.Listed.unmapped (listed : np.Listed own none) (object : np.objects po = some o) :
    (np.unmapped po o).Listed own none := by
  have cut : (np.cut po o.links).Listed own (some po) := listed.but.cut
  refine ⟨cut.apart, cut.drawn1, cut.drawn2, ?_⟩
  intro h o' object' _ pol
  by_cases here : h = po
  · subst here
    have bare : o'.links = [] := by
      simp only [NetPage.unmapped, NetPage.adjust, if_true] at object'
      obtain ⟨o₀, -, rfl⟩ := Option.map_eq_some_iff.mp object'
      rfl
    rw [bare]
    cases link : (np.unmapped h o).links pol with
    | none => rfl
    | some l =>
      obtain ⟨unlisted, link⟩ := unmapped_links.mp link
      have away := not_or.mp fun owned => unlisted (mem_links listed object link owned)
      rw [ends, if_neg away.1, if_neg away.2]
      rfl
  · simp only [NetPage.unmapped, NetPage.adjust, here, if_false] at object'
    exact cut.count h o' object' (by simpa using Ne.symm here) pol

/-- One turn of the loop. -/
theorem unmapAll_cons {pos : List Nat} (alive : ∀ h ∈ np.pageObjects, ∃ o, np.objects h = some o)
    (listed : np.Listed own none) (object : np.objects po = some o) (inner : NoInner np own po) :
    unmapAll (po :: pos) np = unmapAll pos (np.unmapped po o) := by
  rw [unmapAll, NetPage.object, object]
  change (destroyLinks po o.links np >>= _) = _
  rw [destroyLinks_object alive listed object inner]
  have object₁ : (np.cut po o.links).objects po = some o := by
    simp only [NetPage.cut, if_true, object]
  change ((np.cut po o.links).modify po _ >>= unmapAll pos) = _
  rw [modify_eq object₁]
  rfl

theorem unmapAll_ok {pos : List Nat} (alive : ∀ h ∈ np.pageObjects, ∃ o, np.objects h = some o)
    (listed : np.Listed own none) (there : ∀ po ∈ pos, po ∈ np.pageObjects)
    (inner : ∀ po, NoInner np own po) :
    ∃ np', unmapAll pos np = .ok np' ∧ SameGroups np np' ∧ np'.Listed own none ∧
      ∀ pol l, np'.links pol = some l → np.links pol = some l ∧ own l.po1 ∉ pos := by
  induction pos generalizing np with
  | nil =>
    exact ⟨np, by rw [unmapAll], ⟨rfl, fun _ => rfl⟩, listed, fun _ _ link => ⟨link,
      List.not_mem_nil⟩⟩
  | cons po pos ih =>
    obtain ⟨o, object⟩ := alive po (there po (.head _))
    have inner₁ (h : Nat) : NoInner (np.unmapped po o) own h := fun pol l link =>
      inner h pol l (unmapped_links.mp link).2
    obtain ⟨np', run, same, listed', gone⟩ := ih (unmapped_alive alive) (listed.unmapped object)
      (fun h member => there h (.tail _ member)) inner₁
    refine ⟨np', ?_, (unmapped_sameGroups np po o).trans same, listed', ?_⟩
    · rw [unmapAll_cons alive listed object (inner po), run]
    · intro pol l link
      obtain ⟨link, away⟩ := gone pol l link
      obtain ⟨unlisted, link⟩ := unmapped_links.mp link
      refine ⟨link, fun member => ?_⟩
      rcases List.mem_cons.mp member with here | member
      · exact unlisted (mem_links listed object link (.inl here))
      · exact away member

/-- The loop comes to its end only if no link is in a list twice. -/
theorem unmapAll_inner {pos : List Nat} (alive : ∀ h ∈ np.pageObjects, ∃ o, np.objects h = some o)
    (listed : np.Listed own none) (there : ∀ po ∈ pos, po ∈ np.pageObjects)
    (run : unmapAll pos np = .ok np') : ∀ po ∈ pos, NoInner np own po := by
  induction pos generalizing np with
  | nil => exact nofun
  | cons po pos ih =>
    obtain ⟨o, object⟩ := alive po (there po (.head _))
    have inner : NoInner np own po := by
      rw [unmapAll, NetPage.object, object] at run
      obtain ⟨_, read, run⟩ := bind_ok run
      cases read
      obtain ⟨_, destroyed, -⟩ := bind_ok run
      exact (links_nodup_iff listed object).mp (destroyLinks_nodup destroyed).1
    rw [unmapAll_cons alive listed object inner] at run
    have rest := ih (unmapped_alive alive) (listed.unmapped object)
      (fun h member => there h (.tail _ member)) run
    intro h member
    rcases List.mem_cons.mp member with rfl | member
    · exact inner
    · intro pol l link owns
      by_cases here : own l.po1 = po
      · exact inner pol l link ⟨here, owns.2.trans (owns.1.symm.trans here)⟩
      · have kept : pol ∉ o.links := by
          intro listed'
          obtain ⟨l', link', one⟩ := links_own listed object inner pol listed'
          cases link.symm.trans link'
          rcases one with one | one
          · exact here one.1
          · exact here (owns.1.trans (owns.2.symm.trans one.2))
        exact rest h member pol l (unmapped_links.mpr ⟨kept, link⟩) owns

end unmap

theorem netPageUnmapAll_iff (formed : np.WellFormed) :
    (∃ np', netPageUnmapAll np = .ok np' ∧ Unmapped np np') ↔ ∀ po, NoInner np np.owner po := by
  obtain ⟨s, has, -⟩ := formed.shape
  have alive := fun h => (has.alive h).mp
  simp only [noInner_owner_iff formed has]
  constructor
  · rintro ⟨np', run, -⟩ po pol l link owns
    have there := (has.listed.drawn1 pol l link).2
    rw [owns.1] at there
    exact unmapAll_inner alive has.listed (fun _ => id) run po there pol l link owns
  · intro inner
    obtain ⟨np', run, same, listed, gone⟩ := unmapAll_ok alive has.listed (fun _ => id) inner
    have links (pol : Nat) : np'.links pol = none := by
      rw [Option.eq_none_iff_forall_ne_some]
      intro l link
      obtain ⟨link, away⟩ := gone pol l link
      exact away (has.listed.drawn1 pol l link).2
    refine ⟨np', run, links, fun h => ?_, same.pageObjects⟩
    have groups := same.groups h
    cases object' : np'.objects h with
    | none =>
      rw [object'] at groups
      rw [Option.map_eq_none_iff.mp groups.symm]
      rfl
    | some o' =>
      rw [object'] at groups
      obtain ⟨o, object, merged⟩ := Option.map_eq_some_iff.mp groups.symm
      obtain ⟨merge, primary⟩ := Prod.mk.inj merged
      have bare : o'.links = [] := by
        rw [List.eq_nil_iff_forall_not_mem]
        intro pol member
        have positive := List.count_pos_iff.mpr member
        rw [listed.count h o' object' nofun, links pol] at positive
        exact absurd positive (Nat.lt_irrefl 0)
      rw [object, Option.map_some]
      cases o'
      simp_all

/-- Deletion works exactly for hosts that are not the last member of a group, and where no link
    that is to be freed has both its ends in one group. -/
theorem deletions_iff (formed : np.WellFormed) (enough : np.pageObjects.length < fuel) :
    (∀ po ∈ np.pageObjects, ∀ force yes,
      ((∃ np', pageObjectDelete fuel force yes po np = .ok np' ∧
          Deleted np np' (np.targets (force || yes) po)) ↔
        ¬ np.LastMember po ∧ ((force || yes) = true → NoInner np np.owner po))) ∧
    ((∃ np', netPageUnmapAll np = .ok np' ∧ Unmapped np np') ↔ ∀ po, NoInner np np.owner po) :=
  ⟨fun _ listed force yes => pageObjectDelete_iff formed listed enough force yes,
    netPageUnmapAll_iff formed⟩

def pair : NetPage where
  pageObjects := [1, 2]
  objects h := if h = 1 then some ⟨some 2, some 1, [10, 10]⟩ else
    if h = 2 then some ⟨none, some 1, []⟩ else none
  links pol := if pol = 10 then some ⟨1, 2, none, some 1⟩ else none

def pairShape : Shape where
  own h := if h = 2 then 1 else h
  members h := if h = 1 then [2] else []
  tail _ := none
  own_own h := by
    by_cases here : h = 2
    · simp [here]
    · simp [here]

theorem pair_objects {h : Nat} (object : pair.objects h = some o) :
    h = 1 ∧ o = ⟨some 2, some 1, [10, 10]⟩ ∨ h = 2 ∧ o = ⟨none, some 1, []⟩ := by
  simp only [pair] at object
  split at object
  next here =>
    cases object
    exact .inl ⟨here, rfl⟩
  next =>
    split at object
    next here =>
      cases object
      exact .inr ⟨here, rfl⟩
    next => cases object

theorem pair_links {pol : Nat} {l : PageObjectLink} (link : pair.links pol = some l) :
    pol = 10 ∧ l = ⟨1, 2, none, some 1⟩ := by
  simp only [pair] at link
  split at link
  next here =>
    cases link
    exact ⟨here, rfl⟩
  next => cases link

theorem pair_wellFormed : pair.WellFormed := by
  have mem (h : Nat) : h ∈ pair.pageObjects ↔ h = 1 ∨ h = 2 := by simp [pair]
  refine ⟨⟨pairShape, ⟨by decide, ?_, ?_, ?_, ?_, ?_, ?_, nofun, ?_, ?_, ?_, ?_⟩,
    fun _ _ _ => rfl⟩, ?_⟩
  · intro h
    rw [mem]
    constructor
    · rintro (rfl | rfl)
      · exact ⟨_, rfl⟩
      · exact ⟨_, rfl⟩
    · rintro ⟨o, object⟩
      exact (pair_objects object).imp And.left And.left
  · intro h o object
    rcases pair_objects object with ⟨rfl, rfl⟩ | ⟨rfl, rfl⟩ <;> rfl
  · intro h o object unmerged
    rcases pair_objects object with ⟨rfl, rfl⟩ | ⟨rfl, rfl⟩ <;> cases unmerged
  · intro h o object own
    rcases pair_objects object with ⟨rfl, rfl⟩ | ⟨rfl, rfl⟩
    · exact ⟨rfl, _, rfl, rfl⟩
    · cases own
  · intro h listed away
    rcases (mem h).mp listed with rfl | rfl
    · exact absurd rfl away
    · decide
  · intro p listed own
    rcases (mem p).mp listed with rfl | rfl
    · decide
    · cases own
  · intro pol l link
    obtain ⟨-, rfl⟩ := pair_links link
    decide
  · intro pol l link
    obtain ⟨-, rfl⟩ := pair_links link
    decide
  · intro pol l link
    obtain ⟨-, rfl⟩ := pair_links link
    decide
  · intro h o object _ pol
    by_cases here : pol = 10
    · subst here
      rcases pair_objects object with ⟨rfl, rfl⟩ | ⟨rfl, rfl⟩ <;> decide
    · have none : pair.links pol = none := if_neg here
      rw [none]
      rcases pair_objects object with ⟨rfl, rfl⟩ | ⟨rfl, rfl⟩
      · simp [ends, Ne.symm here]
      · rfl
  · intro pol l link
    obtain ⟨-, rfl⟩ := pair_links link
    decide

/-- The primary can be deleted from its group, and the other host stays. -/
theorem deletions_pair : ∃ np', pageObjectDelete 3 false false 1 pair = .ok np' ∧
    Deleted pair np' (pair.targets false 1) := by
  refine ((deletions_iff pair_wellFormed (by decide)).1 1 (by decide) false false).mpr ⟨?_, nofun⟩
  rintro ⟨o, object, last, -⟩
  cases object
  cases last

/-- The other host is freed with the group still pointing to it, and the link is freed twice. -/
theorem deletions_dangle : pair.WellFormed ∧
    (¬ ∃ np', pageObjectDelete 3 false false 2 pair = .ok np' ∧
      Deleted pair np' (pair.targets false 2)) ∧
    netPageUnmapAll pair = .error .freed := by
  refine ⟨pair_wellFormed, ?_, rfl⟩
  rintro ⟨np', run, deleted⟩
  cases run
  exact absurd (deleted.closed.merge 1 _ rfl 2 rfl) (by decide)

end Cheops.Canvas
