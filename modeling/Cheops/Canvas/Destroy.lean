import Cheops.Canvas.WellFormed

/-! # Freeing links and hosts

`page_object_link_destroy` edits the list at the other end of a link, and frees the link.  It can
go over the whole list of a host exactly when no link is in the list twice, as a link between two
hosts of one group is.
-/

namespace Cheops.Canvas

open Cheops.Lib

/-! ## What is left -/

/-- The links `pols` have been destroyed from the list of `po`, which still has them. -/
def NetPage.cut (np : NetPage) (po : Nat) (pols : List Nat) : NetPage :=
  { np with
    objects := fun h =>
      if h = po then np.objects h
      else (np.objects h).map fun o => { o with links := o.links.filter (· ∉ pols) }
    links := fun pol => if pol ∈ pols then none else np.links pol }

def NetPage.without (np : NetPage) (gone : List Nat) : NetPage :=
  { np with
    pageObjects := np.pageObjects.filter (· ∉ gone)
    objects := fun h => if h ∈ gone then none else np.objects h }

theorem cut_nil (np : NetPage) (po : Nat) : np.cut po [] = np := by
  ext1
  · rfl
  · funext h
    simp only [NetPage.cut]
    split
    · rfl
    · cases np.objects h with
      | none => rfl
      | some o => simp
  · rfl

theorem cut_cons (np : NetPage) (po pol : Nat) (pols : List Nat) :
    (np.cut po [pol]).cut po pols = np.cut po (pol :: pols) := by
  ext1
  · rfl
  · funext h
    simp only [NetPage.cut]
    split
    · rfl
    · cases np.objects h with
      | none => rfl
      | some o =>
        simp only [Option.map_some, List.filter_filter]
        congr
        funext x
        by_cases same : x = pol
        · simp [same]
        · simp [same]
  · funext x
    simp only [NetPage.cut, List.mem_cons, List.not_mem_nil, or_false]
    split
    next listed => rw [if_pos (.inr listed)]
    next unlisted => simp [unlisted]

/-! ## `page_object_link_destroy` -/

theorem erase_eq_filter {xs : List Nat} {x : Nat} (once : xs.count x ≤ 1) :
    xs.erase x = xs.filter (· ∉ [x]) := by
  induction xs with
  | nil => rfl
  | cons y ys ih =>
    by_cases same : y = x
    · subst same
      have absent : y ∉ ys := by
        rw [List.count_cons_self] at once
        exact List.count_eq_zero.mp (by omega)
      have kept : ys.filter (· ∉ [y]) = ys := by
        apply List.filter_eq_self.mpr
        intro z member
        simp only [List.mem_singleton, decide_not, Bool.not_eq_true', decide_eq_false_iff_not]
        rintro rfl
        exact absent member
      rw [List.erase_cons_head, List.filter_cons_of_neg (by simp), kept]
    · rw [List.count_cons_of_ne same] at once
      rw [List.erase_cons_tail (by simpa using same), ih once,
        List.filter_cons_of_pos (by simpa using same)]

variable {np np' : NetPage} {own : Nat → Nat} {po pol : Nat} {pols : List Nat} {l : PageObjectLink}

/-- `po` owns one end of the link, and not both. -/
def OwnsOne (own : Nat → Nat) (po : Nat) (l : PageObjectLink) : Prop :=
  own l.po1 = po ∧ own l.po2 ≠ po ∨ own l.po1 ≠ po ∧ own l.po2 = po

theorem unlist_po : unlist pol po (some po) np = .ok np := if_pos rfl

theorem unlist_other {e : Nat} {o : PageObject} (other : e ≠ po) (object : np.objects e = some o) :
    unlist pol e (some po) np = .ok (np.set e { o with links := o.links.erase pol }) := by
  rw [unlist, if_neg (by simpa using other.symm), NetPage.modify, NetPage.object, object]
  rfl

/-- The list at the other end, and no other list, had the link. -/
theorem set_erase_eq {e : Nat} {o : PageObject} (listed : np.Listed own (some po))
    (link : np.links pol = some l) (object : np.objects e = some o) (other : e ≠ po)
    (owns : ∀ h, h ≠ po → ends own (some l) h = if h = e then 1 else 0) :
    ({ np.set e { o with links := o.links.erase pol } with
      links := Function.update np.links pol none } : NetPage) = np.cut po [pol] := by
  have count (h : Nat) (o : PageObject) (object : np.objects h = some o) (side : h ≠ po) :
      o.links.count pol = if h = e then 1 else 0 := by
    rw [listed.count h o object (by simpa using side.symm), link]
    exact owns h side
  ext1
  · rfl
  · funext h
    simp only [NetPage.cut, NetPage.set]
    split
    next here => rw [Function.update_of_ne (by rw [here]; exact other.symm)]
    next side =>
      by_cases here : h = e
      · subst here
        have once := count h o object side
        rw [if_pos rfl] at once
        rw [Function.update_self, object, Option.map_some, erase_eq_filter (Nat.le_of_eq once)]
      · rw [Function.update_of_ne here]
        cases other' : np.objects h with
        | none => rfl
        | some o' =>
          have absent := count h o' other' side
          rw [if_neg here, List.count_eq_zero] at absent
          have kept : o'.links.filter (· ∉ [pol]) = o'.links := by
            apply List.filter_eq_self.mpr
            intro x member
            simp only [List.mem_singleton, decide_not, Bool.not_eq_true', decide_eq_false_iff_not]
            rintro rfl
            exact absent member
          rw [Option.map_some, kept]
  · funext x
    simp only [NetPage.cut, List.mem_singleton]
    exact Function.update_apply _ _ _ _

theorem pageObjectLinkDestroy_eq (alive : ∀ h ∈ np.pageObjects, ∃ o, np.objects h = some o)
    (listed : np.Listed own (some po)) (link : np.links pol = some l) (one : OwnsOne own po l) :
    pageObjectLinkDestroy pol (some po) np = .ok (np.cut po [pol]) := by
  obtain ⟨end1, listed1⟩ := listed.drawn1 pol l link
  obtain ⟨end2, listed2⟩ := listed.drawn2 pol l link
  obtain ⟨o1, object1⟩ := alive _ listed1
  obtain ⟨o2, object2⟩ := alive _ listed2
  unfold pageObjectLinkDestroy
  rw [NetPage.link, link]
  change (unlist pol l.end1 (some po) np >>= fun np' => unlist pol l.end2 (some po) np' >>= _) = _
  rw [end1, end2]
  rcases one with ⟨own1, own2⟩ | ⟨own1, own2⟩
  · rw [own1, unlist_po]
    change (unlist pol (own l.po2) (some po) np >>= _) = _
    rw [unlist_other own2 object2]
    refine congrArg Except.ok (set_erase_eq listed link object2 own2 ?_)
    intro h side
    simp only [ends, own1, side.symm, if_false, Nat.zero_add, eq_comm]
  · rw [unlist_other own1 object1]
    change (unlist pol (own l.po2) (some po) (np.set (own l.po1) _) >>= _) = _
    rw [own2, unlist_po]
    refine congrArg Except.ok (set_erase_eq listed link object1 own1 ?_)
    intro h side
    simp only [ends, own2, side.symm, if_false, Nat.add_zero, eq_comm]

/-! ## A whole list of links -/

theorem NetPage.Listed.cut (listed : np.Listed own (some po)) :
    (np.cut po pols).Listed own (some po) where
  apart pol l link := by
    simp only [NetPage.cut] at link
    split at link
    · cases link
    · exact listed.apart pol l link
  drawn1 pol l link := by
    simp only [NetPage.cut] at link
    split at link
    · cases link
    · exact listed.drawn1 pol l link
  drawn2 pol l link := by
    simp only [NetPage.cut] at link
    split at link
    · cases link
    · exact listed.drawn2 pol l link
  count h o object side pol := by
    have other : h ≠ po := by
      rintro rfl
      exact side rfl
    simp only [NetPage.cut, if_neg other, Option.map_eq_some_iff] at object
    obtain ⟨o', object', rfl⟩ := object
    simp only [NetPage.cut]
    split
    next gone => simp [List.count_eq_zero, ends, gone]
    next kept =>
      rw [List.count_filter (by simpa using kept)]
      exact listed.count h o' object' side pol

theorem cut_alive (alive : ∀ h ∈ np.pageObjects, ∃ o, np.objects h = some o) :
    ∀ h ∈ (np.cut po pols).pageObjects, ∃ o, (np.cut po pols).objects h = some o := by
  intro h member
  obtain ⟨o, object⟩ := alive h member
  simp only [NetPage.cut]
  split
  · exact ⟨o, object⟩
  · exact ⟨_, congrArg _ object⟩

theorem destroyLinks_eq (alive : ∀ h ∈ np.pageObjects, ∃ o, np.objects h = some o)
    (listed : np.Listed own (some po)) (nodup : pols.Nodup)
    (one : ∀ pol ∈ pols, ∃ l, np.links pol = some l ∧ OwnsOne own po l) :
    destroyLinks po pols np = .ok (np.cut po pols) := by
  induction pols generalizing np with
  | nil => rw [cut_nil, destroyLinks]
  | cons pol pols ih =>
    obtain ⟨fresh, nodup⟩ := List.nodup_cons.mp nodup
    obtain ⟨l, link, owns⟩ := one pol (.head _)
    rw [destroyLinks, pageObjectLinkDestroy_eq alive listed link owns]
    refine (ih (cut_alive alive) listed.cut nodup ?_).trans (by rw [cut_cons])
    intro pol' member
    obtain ⟨l', link', owns'⟩ := one pol' (.tail _ member)
    refine ⟨l', ?_, owns'⟩
    simp only [NetPage.cut, List.mem_singleton]
    rwa [if_neg (by rintro rfl; exact fresh member)]

theorem unlist_links {owner : Nat} {but : Option Nat} (h : unlist pol owner but np = .ok np') :
    np'.links = np.links := by
  unfold unlist at h
  split at h
  · cases h
    rfl
  · unfold NetPage.modify NetPage.object at h
    cases object : np.objects owner with
    | none =>
      rw [object] at h
      cases h
    | some o =>
      rw [object] at h
      cases h
      rfl

theorem bind_ok {α β : Type} {x : Except Fault α} {f : α → Except Fault β} {b : β}
    (h : x >>= f = .ok b) : ∃ a, x = .ok a ∧ f a = .ok b := by
  cases x with
  | error fault => cases h
  | ok a => exact ⟨a, rfl, h⟩

/-- What `page_object_link_destroy` destroys was there, and is not there again. -/
theorem pageObjectLinkDestroy_links {but : Option Nat}
    (h : pageObjectLinkDestroy pol but np = .ok np') :
    np.links pol ≠ none ∧ np'.links = Function.update np.links pol none := by
  obtain ⟨l, link, h⟩ := bind_ok h
  obtain ⟨np₁, first, h⟩ := bind_ok h
  obtain ⟨np₂, second, h⟩ := bind_ok h
  cases h
  refine ⟨?_, by rw [unlist_links second, unlist_links first]⟩
  intro gone
  rw [NetPage.link, gone] at link
  cases link

/-- The list of a host can be destroyed only if no link is in it twice. -/
theorem destroyLinks_nodup (h : destroyLinks po pols np = .ok np') :
    pols.Nodup ∧ ∀ pol ∈ pols, np.links pol ≠ none := by
  induction pols generalizing np with
  | nil => exact ⟨.nil, nofun⟩
  | cons pol pols ih =>
    obtain ⟨np₁, first, rest⟩ := bind_ok h
    obtain ⟨there, links⟩ := pageObjectLinkDestroy_links first
    obtain ⟨nodup, others⟩ := ih rest
    rw [links] at others
    refine ⟨List.nodup_cons.mpr ⟨fun member => ?_, nodup⟩, ?_⟩
    · exact others pol member (Function.update_self _ _ _)
    · intro pol' member
      cases member with
      | head => exact there
      | tail _ member =>
        have other := others pol' member
        rw [Function.update_apply] at other
        split at other
        · exact absurd rfl other
        · exact other

/-! ## The links of a host -/

def NoInner (np : NetPage) (own : Nat → Nat) (po : Nat) : Prop :=
  ∀ pol l, np.links pol = some l → ¬ (own l.po1 = po ∧ own l.po2 = po)

variable {o : PageObject}

theorem links_nodup_iff (listed : np.Listed own none) (object : np.objects po = some o) :
    o.links.Nodup ↔ NoInner np own po := by
  rw [List.nodup_iff_count_le_one]
  constructor
  · intro once pol l link ⟨own1, own2⟩
    have twice := once pol
    rw [listed.count po o object nofun, link, ends, if_pos own1, if_pos own2] at twice
    omega
  · intro inner pol
    rw [listed.count po o object nofun]
    cases link : np.links pol with
    | none => exact Nat.zero_le _
    | some l =>
      have apart := inner pol l link
      rw [ends]
      split_ifs with own1 own2
      · exact absurd ⟨own1, own2⟩ apart
      all_goals omega

theorem links_own (listed : np.Listed own none) (object : np.objects po = some o)
    (inner : NoInner np own po) :
    ∀ pol ∈ o.links, ∃ l, np.links pol = some l ∧ OwnsOne own po l := by
  intro pol member
  have count := listed.count po o object nofun pol
  have positive := List.count_pos_iff.mpr member
  cases link : np.links pol with
  | none =>
    rw [link] at count
    rw [count] at positive
    exact absurd positive (Nat.lt_irrefl 0)
  | some l =>
    refine ⟨l, rfl, ?_⟩
    have apart := inner pol l link
    rw [count, link, ends] at positive
    unfold OwnsOne
    split_ifs at positive with own1 own2 own2
    · exact absurd ⟨own1, own2⟩ apart
    · exact .inl ⟨own1, own2⟩
    · exact .inr ⟨own1, own2⟩
    · exact absurd positive (Nat.lt_irrefl 0)

/-- The list of a host has all links with an end at it. -/
theorem mem_links (listed : np.Listed own none) (object : np.objects po = some o)
    (link : np.links pol = some l) (owned : own l.po1 = po ∨ own l.po2 = po) : pol ∈ o.links := by
  rw [← List.count_pos_iff, listed.count po o object nofun, link, ends]
  rcases owned with owned | owned
  · rw [if_pos owned]
    omega
  · rw [if_pos owned]
    omega

theorem NetPage.Listed.but (listed : np.Listed own none) : np.Listed own (some po) :=
  ⟨listed.apart, listed.drawn1, listed.drawn2, fun h o object _ => listed.count h o object nofun⟩

theorem destroyLinks_object (alive : ∀ h ∈ np.pageObjects, ∃ o, np.objects h = some o)
    (listed : np.Listed own none) (object : np.objects po = some o) (inner : NoInner np own po) :
    destroyLinks po o.links np = .ok (np.cut po o.links) :=
  destroyLinks_eq alive listed.but ((links_nodup_iff listed object).mpr inner)
    (links_own listed object inner)

/-! ## `freePageObject` -/

theorem without_objects {gone : List Nat} {h : Nat} :
    (np.without gone).objects h = some o ↔ h ∉ gone ∧ np.objects h = some o := by
  simp only [NetPage.without]
  split
  next member => simp [member]
  next kept => simp [kept]

theorem cut_objects {h : Nat} (other : h ≠ po) :
    (np.cut po pols).objects h = some o ↔
      ∃ o', np.objects h = some o' ∧ { o' with links := o'.links.filter (· ∉ pols) } = o := by
  simp only [NetPage.cut, if_neg other, Option.map_eq_some_iff]

def NetPage.freed (np : NetPage) (po : Nat) (o : PageObject) : NetPage :=
  (np.cut po o.links).without [po]

theorem freed_objects {h : Nat} {o' : PageObject} :
    (np.freed po o).objects h = some o' ↔
      h ≠ po ∧ ∃ o₀, np.objects h = some o₀ ∧
        { o₀ with links := o₀.links.filter (· ∉ o.links) } = o' := by
  rw [NetPage.freed, without_objects, List.mem_singleton]
  constructor
  · rintro ⟨other, object⟩
    exact ⟨other, (cut_objects other).mp object⟩
  · rintro ⟨other, object⟩
    exact ⟨other, (cut_objects other).mpr object⟩

theorem freed_links {x : Nat} :
    (np.freed po o).links x = some l ↔ x ∉ o.links ∧ np.links x = some l := by
  simp only [NetPage.freed, NetPage.without, NetPage.cut]
  split
  next member => simp [member]
  next kept => simp [kept]

theorem freed_mem {h : Nat} : h ∈ (np.freed po o).pageObjects ↔ h ∈ np.pageObjects ∧ h ≠ po := by
  simp [NetPage.freed, NetPage.without, NetPage.cut]

variable {s : Shape}

theorem freePageObject_eq (has : np.Has s) (object : np.objects po = some o)
    (inner : NoInner np s.own po) : freePageObject po np = .ok (np.freed po o) := by
  have listed := has.mem object
  rw [freePageObject, if_pos listed, NetPage.object, object]
  change (destroyLinks po o.links np >>= _) = _
  rw [destroyLinks_object (fun h => (has.alive h).mp) has.listed object inner]
  refine congrArg Except.ok (NetPage.ext ?_ ?_ rfl)
  · simp only [NetPage.freed, NetPage.without, NetPage.cut]
    rw [has.nodup.erase_eq_filter]
    apply List.filter_congr
    intro h _
    by_cases same : h = po
    · simp [same]
    · simp [same]
  · funext h
    simp only [NetPage.freed, NetPage.without, List.mem_singleton]
    exact Function.update_apply _ _ _ _

/-- The lists of the other hosts lose the links of the host that is freed. -/
theorem freed_listed (has : np.Has s) (object : np.objects po = some o) :
    (np.freed po o).Listed s.own none := by
  have owns (x : Nat) (l : PageObjectLink) (link : (np.freed po o).links x = some l) :
      np.links x = some l ∧ s.own l.po1 ≠ po ∧ s.own l.po2 ≠ po := by
    obtain ⟨unlisted, link⟩ := freed_links.mp link
    refine ⟨link, ?_, ?_⟩
    · exact fun owned => unlisted (mem_links has.listed object link (.inl owned))
    · exact fun owned => unlisted (mem_links has.listed object link (.inr owned))
  refine ⟨?_, ?_, ?_, ?_⟩
  · intro x l link
    exact has.listed.apart x l (owns x l link).1
  · intro x l link
    obtain ⟨link, other, -⟩ := owns x l link
    obtain ⟨drawn, listed⟩ := has.listed.drawn1 x l link
    exact ⟨drawn, freed_mem.mpr ⟨listed, other⟩⟩
  · intro x l link
    obtain ⟨link, -, other⟩ := owns x l link
    obtain ⟨drawn, listed⟩ := has.listed.drawn2 x l link
    exact ⟨drawn, freed_mem.mpr ⟨listed, other⟩⟩
  · intro h o' object' _
    obtain ⟨other, object'⟩ := without_objects.mp object'
    rw [List.mem_singleton] at other
    exact has.listed.but.cut.count h o' object' (by simpa using fun same => other same.symm)

/-- Freeing an unmerged host, or a primary whose members are gone. -/
theorem NetPage.Has.freed (has : np.Has s) (object : np.objects po = some o)
    (own : s.own po = po) (alone : ∀ h ∈ np.pageObjects, s.own h = po → h = po) :
    (np.freed po o).Has s where
  nodup := has.nodup.filter _
  alive h := by
    rw [freed_mem, has.alive]
    constructor
    · rintro ⟨⟨o', object'⟩, other⟩
      exact ⟨_, freed_objects.mpr ⟨other, o', object', rfl⟩⟩
    · rintro ⟨o', object'⟩
      obtain ⟨other, o₀, object₀, -⟩ := freed_objects.mp object'
      exact ⟨⟨o₀, object₀⟩, other⟩
  owner h o' object' := by
    obtain ⟨-, o₀, object₀, rfl⟩ := freed_objects.mp object'
    exact has.owner h o₀ object₀
  unmerged h o' object' := by
    obtain ⟨-, o₀, object₀, rfl⟩ := freed_objects.mp object'
    exact has.unmerged h o₀ object₀
  chain h o' object' own' := by
    obtain ⟨other, o₀, object₀, rfl⟩ := freed_objects.mp object'
    refine (has.chain h o₀ object₀ own').congr ?_
    intro x member a allocated
    have owned := ((has.members h (has.mem object₀) own').2 x member).1
    have kept : x ≠ po := by
      rintro rfl
      exact other (owned.symm.trans own)
    exact ⟨_, freed_objects.mpr ⟨kept, a, allocated, rfl⟩, rfl⟩
  member h listed away := by
    obtain ⟨listed, -⟩ := freed_mem.mp listed
    obtain ⟨primary, member⟩ := has.member h listed away
    refine ⟨freed_mem.mpr ⟨primary, ?_⟩, member⟩
    intro same
    have here := alone h listed same
    rw [here] at away
    exact away own
  members p listed own' := has.members p (freed_mem.mp listed).1 own'
  dangling p listed own' d tail := by
    have gone := has.dangling p (freed_mem.mp listed).1 own' d tail
    cases object' : (np.freed po o).objects d with
    | none => rfl
    | some o' =>
      obtain ⟨-, o₀, object₀, -⟩ := freed_objects.mp object'
      rw [gone] at object₀
      cases object₀
  listed := freed_listed has object

end Cheops.Canvas
