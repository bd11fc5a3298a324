import Cheops.Canvas.Delete
import Cheops.Lib.Before

/-! # Removing a page (`gui-viewspace.c`)

`net_page_remove` deletes the hosts in the order of the list, and saves the next host before it
deletes one.  The deletion of a primary also frees the hosts of its group that are still there.
So it matters in which order a group stands in the list: the end of the chain must come after
the primary, and the host after the primary must not be of its group.
-/

namespace Cheops.Canvas

open Cheops.Lib

/-! ## `net_page_remove` -/

/-- `po->next`. -/
def nextPageObject (po : Nat) (pageObjects : List Nat) : Option Nat :=
  (pageObjects.dropWhile (· ≠ po)).tail.head?

/-- `for(po = np->page_objects; po; po = next)`. -/
def removeLoop (fuel : Nat) : Nat → Option Nat → NetPage → Except Fault NetPage
  | _, none, np => .ok np
  | 0, some _, _ => .error .endless
  | n + 1, some po, np => do
    let _ ← np.object po
    let next := nextPageObject po np.pageObjects
    let np ← pageObjectDelete fuel true false po np
    removeLoop fuel n next np

/-- `net_page_remove`, for a page that is shown. -/
def netPageRemove (fuel : Nat) (np : NetPage) : Except Fault NetPage :=
  removeLoop fuel fuel np.pageObjects.head? np

structure NetPage.Removed (np : NetPage) : Prop where
  pageObjects : np.pageObjects = []
  objects : ∀ h, np.objects h = none

/-- The order of the list that the loop needs. -/
structure NetPage.Removable (np : NetPage) : Prop where
  /-- The end of a chain comes after the primary. -/
  last : ∀ m, np.LastMember m → Before np.pageObjects (np.owner m) m
  /-- Between a primary and a later host of its group comes a host of no group, or of a group
      whose primary does not come before this one. -/
  apart : ∀ m ∈ np.pageObjects, np.owner m ≠ m → Before np.pageObjects (np.owner m) m →
    ∃ x, Before np.pageObjects (np.owner m) x ∧ Before np.pageObjects x m ∧
      np.owner x ≠ np.owner m ∧
      (np.owner x = x ∨ ¬ Before np.pageObjects (np.owner x) (np.owner m))
  /-- A link inside a group has an end that comes before the primary. -/
  links : ∀ pol l, np.links pol = some l → np.owner l.po1 = np.owner l.po2 →
    Before np.pageObjects l.po1 (np.owner l.po1) ∨ Before np.pageObjects l.po2 (np.owner l.po1)

/-! ## The order, by the shape of the page -/

variable {np np' : NetPage} {s : Shape} {po fuel : Nat} {rest : List Nat} {o : PageObject}

def Shape.Last (s : Shape) (l : List Nat) : Prop :=
  ∀ p ∈ l, s.own p = p → ∀ m, (s.members p).getLast? = some m → Before l p m

def Shape.Apart (s : Shape) (l : List Nat) : Prop :=
  ∀ m ∈ l, s.own m ≠ m → Before l (s.own m) m →
    ∃ x, Before l (s.own m) x ∧ Before l x m ∧ s.own x ≠ s.own m ∧
      (s.own x = x ∨ ¬ Before l (s.own x) (s.own m))

def Shape.Parted (s : Shape) (l : List Nat) (links : Nat → Option PageObjectLink) : Prop :=
  ∀ pol k, links pol = some k → s.own k.po1 = s.own k.po2 →
    Before l k.po1 (s.own k.po1) ∨ Before l k.po2 (s.own k.po1)

/-- `np` can be removed: what `Removable` says, and no chain dangles. -/
structure Shape.Ready (s : Shape) (np : NetPage) : Prop where
  whole : ∀ p ∈ np.pageObjects, s.own p = p → s.tail p = none
  last : s.Last np.pageObjects
  apart : s.Apart np.pageObjects
  parted : s.Parted np.pageObjects np.links

/-! ## A primary, or a host of no group -/

section primary

variable {l : List Nat} {x y : Nat}

/-- What is left of the list, but for `po`. -/
theorem before_swept {gone : List Nat} (other : x ≠ po) (first : x ∉ gone) (second : y ∉ gone) :
    Before (po :: l) x y ↔ Before (l.filter (· ∉ gone)) x y := by
  rw [before_tail other, before_filter]
  simp [first, second]

/-- The hosts of a list that `np` has, by whether they are of the group of `po`. -/
theorem not_member (has : np.Has s) (listed : po ∈ np.pageObjects) (own : s.own po = po)
    (away : s.own x ≠ po) : x ∉ s.members po :=
  fun member => away ((has.members po listed own).2 x member).1

theorem last_primary (tail : Option Nat) (has : np.Has s) (list : np.pageObjects = po :: rest)
    (own : s.own po = po) :
    s.Last (po :: rest) ↔ (s.alone po tail).Last (rest.filter (· ∉ s.members po)) := by
  have listed : po ∈ np.pageObjects := list ▸ .head _
  have fresh : po ∉ rest := (List.nodup_cons.mp (list ▸ has.nodup)).1
  have grouped := (has.members po listed own).2
  have outside {p m : Nat} (own' : s.own p = p) (other : p ≠ po) (there : p ∈ np.pageObjects)
      (member : m ∈ s.members p) : p ∉ s.members po ∧ m ∉ s.members po := by
    refine ⟨not_member has listed own (by rwa [own']), not_member has listed own ?_⟩
    rwa [((has.members p there own').2 m member).1]
  constructor
  · intro last p there own' m final
    have later : p ∈ rest := (List.mem_filter.mp there).1
    have other : p ≠ po := ne_of_mem_of_not_mem later fresh
    replace final : (s.members p).getLast? = some m := by
      simpa only [Shape.alone, Function.update_of_ne other] using final
    obtain ⟨first, second⟩ := outside own' other (list ▸ .tail _ later)
      (List.mem_of_getLast? final)
    exact (before_swept other first second).mp (last p (.tail _ later) own' m final)
  · intro last p there own' m final
    have member := List.mem_of_getLast? final
    rcases List.mem_cons.mp there with rfl | later
    · have here : m ∈ p :: rest := list ▸ has.members_alive listed own m member
      refine before_cons.mpr (.inl ⟨rfl, (List.mem_cons.mp here).resolve_left ?_⟩)
      exact (grouped m member).2
    · have other : p ≠ po := ne_of_mem_of_not_mem later fresh
      obtain ⟨first, second⟩ := outside own' other (list ▸ .tail _ later) member
      refine (before_swept other first second).mpr (last p ?_ own' m ?_)
      · exact List.mem_filter.mpr ⟨later, by simpa using first⟩
      · simpa only [Shape.alone, Function.update_of_ne other] using final

theorem apart_primary (tail : Option Nat) (has : np.Has s) (list : np.pageObjects = po :: rest)
    (own : s.own po = po) :
    s.Apart (po :: rest) ↔ (∀ h ∈ rest.head?, h ∉ s.members po) ∧
      (s.alone po tail).Apart (rest.filter (· ∉ s.members po)) := by
  have listed : po ∈ np.pageObjects := list ▸ .head _
  obtain ⟨fresh, nodup⟩ := List.nodup_cons.mp (list ▸ has.nodup)
  have grouped := (has.members po listed own).2
  have later {h : Nat} (member : h ∈ s.members po) : h ∈ rest := by
    have there : h ∈ po :: rest := list ▸ has.members_alive listed own h member
    exact (List.mem_cons.mp there).resolve_left (grouped h member).2
  have member {h : Nat} (there : h ∈ rest) (owned : s.own h = po) : h ∈ s.members po := by
    have other : s.own h ≠ h := by
      rw [owned]
      rintro rfl
      exact fresh there
    have := (has.member h (list ▸ .tail _ there) other).2
    rwa [owned] at this
  have other {h : Nat} (there : h ∈ rest) : h ≠ po := ne_of_mem_of_not_mem there fresh
  have head {h : Nat} : ¬ Before (po :: rest) h po := not_before_head fresh
  constructor
  · refine fun apart => ⟨?_, ?_⟩
    · intro h first inside
      obtain ⟨owned, away⟩ := grouped h inside
      have there := later inside
      obtain ⟨x, after, before, differs, -⟩ := apart h (.tail _ there)
        (by rw [owned]; exact away.symm) (by rw [owned]; exact before_cons.mpr (.inl ⟨rfl, there⟩))
      cases rest with
      | nil => cases there
      | cons r rs =>
        cases first
        have here : x ≠ po := by
          rintro rfl
          exact differs (own.trans owned.symm)
        exact not_before_head (List.nodup_cons.mp nodup).1 ((before_tail here).mp before)
    · intro m there away before
      obtain ⟨there, kept⟩ := List.mem_filter.mp there
      replace kept : m ∉ s.members po := by simpa using kept
      have owner : s.own m ≠ po := fun owned => kept (member there owned)
      have owner_kept : s.own m ∉ s.members po :=
        not_member has listed own (by rwa [s.own_own])
      obtain ⟨x, after, between, differs, free⟩ := apart m (.tail _ there) away
        ((before_swept owner owner_kept kept).mpr before)
      have x_other : x ≠ po := by
        rintro rfl
        exact head after
      have x_rest : x ∈ rest := (List.mem_cons.mp after.right).resolve_left x_other
      have x_owner : s.own x ≠ po := by
        intro owned
        rcases free with self | late
        · exact x_other (self.symm.trans owned)
        · refine late (before_cons.mpr (.inl ⟨owned, ?_⟩))
          exact (List.mem_cons.mp after.left).resolve_left owner
      have x_kept := not_member has listed own x_owner
      refine ⟨x, (before_swept owner owner_kept x_kept).mp after,
        (before_swept x_other x_kept kept).mp between, differs, free.imp_right fun late early => ?_⟩
      exact late ((before_swept x_owner (not_member has listed own (by rwa [s.own_own]))
        owner_kept).mpr early)
  · rintro ⟨first, apart⟩ m there away before
    have there : m ∈ rest := (List.mem_cons.mp there).resolve_left fun here =>
      away (by rw [here, own])
    by_cases owned : s.own m = po
    · rw [owned]
      cases rest with
      | nil => cases there
      | cons r rs =>
        have outside : r ∉ s.members po := first r rfl
        have differs : s.own r ≠ po := fun owned => outside (member (.head _) owned)
        refine ⟨r, before_cons.mpr (.inl ⟨rfl, .head _⟩), ?_, differs, .inr head⟩
        refine before_cons.mpr (.inr (before_cons.mpr (.inl ⟨rfl, ?_⟩)))
        refine (List.mem_cons.mp there).resolve_left ?_
        rintro rfl
        exact differs owned
    · have kept := not_member has listed own owned
      have owner_kept : s.own m ∉ s.members po :=
        not_member has listed own (by rwa [s.own_own])
      obtain ⟨x, after, between, differs, free⟩ := apart m
        (List.mem_filter.mpr ⟨there, by simpa using kept⟩) away
        ((before_swept owned owner_kept kept).mp before)
      obtain ⟨x_rest, x_kept⟩ := List.mem_filter.mp after.right
      replace x_kept : x ∉ s.members po := by simpa using x_kept
      have x_owner : s.own x ≠ po := fun owned => x_kept (member x_rest owned)
      refine ⟨x, (before_swept owned owner_kept x_kept).mpr after,
        (before_swept (other x_rest) x_kept kept).mpr between, differs,
        free.imp_right fun late early => ?_⟩
      exact late ((before_swept x_owner (not_member has listed own (by rwa [s.own_own]))
        owner_kept).mp early)

def NetPage.swept (np : NetPage) (s : Shape) (po : Nat) (o : PageObject) : NetPage :=
  (np.without (s.members po)).freed po o

theorem parted_primary (tail : Option Nat) (has : np.Has s) (object : np.objects po = some o)
    (list : np.pageObjects = po :: rest) (own : s.own po = po) :
    s.Parted (po :: rest) np.links ↔ NoInner np s.own po ∧
      (s.alone po tail).Parted (rest.filter (· ∉ s.members po)) (np.swept s po o).links := by
  have listed : po ∈ np.pageObjects := list ▸ .head _
  have fresh : po ∉ rest := (List.nodup_cons.mp (list ▸ has.nodup)).1
  have swept {x r : Nat} (owned : s.own x = r) (other : r ≠ po) :
      Before (po :: rest) x r ↔ Before (rest.filter (· ∉ s.members po)) x r := by
    have here : x ≠ po := by
      rintro rfl
      exact other (owned.symm.trans own)
    refine before_swept here (not_member has listed own (by rwa [owned]))
      (not_member has listed own ?_)
    rwa [← owned, s.own_own, owned]
  constructor
  · refine fun parted => ⟨fun pol k link owns => ?_, fun pol k link same => ?_⟩
    · have early := parted pol k link (owns.1.trans owns.2.symm)
      rw [owns.1] at early
      exact early.elim (not_before_head fresh) (not_before_head fresh)
    · obtain ⟨unlisted, link⟩ := freed_links.mp link
      have other : s.own k.po1 ≠ po := fun owned =>
        unlisted (mem_links has.listed object link (.inl owned))
      exact (parted pol k link same).imp (swept rfl other).mp (swept same.symm other).mp
  · rintro ⟨inner, parted⟩ pol k link same
    have other : s.own k.po1 ≠ po := fun owned => inner pol k link ⟨owned, same.symm.trans owned⟩
    have unlisted : pol ∉ o.links := by
      intro member
      obtain ⟨k', link', owns⟩ := links_own has.listed object inner pol member
      cases link.symm.trans link'
      rcases owns with owns | owns
      · exact other owns.1
      · exact other (same.trans owns.2)
    have early := parted pol k (freed_links.mpr ⟨unlisted, link⟩) same
    exact early.imp (swept rfl other).mpr (swept same.symm other).mpr

theorem swept_pageObjects (has : np.Has s) (list : np.pageObjects = po :: rest)
    (own : s.own po = po) :
    (np.swept s po o).pageObjects = rest.filter (· ∉ s.members po) := by
  have listed : po ∈ np.pageObjects := list ▸ .head _
  have fresh : po ∉ rest := (List.nodup_cons.mp (list ▸ has.nodup)).1
  have outside : po ∉ s.members po := fun member =>
    ((has.members po listed own).2 po member).2 rfl
  simp only [NetPage.swept, NetPage.freed, NetPage.without, NetPage.cut, list]
  rw [List.filter_cons_of_pos (by simpa using outside), List.filter_cons_of_neg (by simp),
    List.filter_eq_self]
  intro h member
  have there := (List.mem_filter.mp member).1
  simpa using ne_of_mem_of_not_mem there fresh

theorem NetPage.Has.swept (has : np.Has s) (object : np.objects po = some o)
    (own : s.own po = po) (whole : s.tail po = none) :
    (np.swept s po o).Has (s.alone po o.merge) := by
  have listed := has.mem object
  have outside : po ∉ s.members po := fun member =>
    ((has.members po listed own).2 po member).2 rfl
  refine (has.without object own whole).freed (without_objects.mpr ⟨outside, object⟩) own ?_
  intro h there (owned : s.own h = po)
  obtain ⟨there, kept⟩ := List.mem_filter.mp there
  by_contra other
  have member := (has.member h there (by rw [owned]; exact Ne.symm other)).2
  rw [owned] at member
  simp [member] at kept

/-- What the loop needs, before and after it deletes a primary or a host of no group. -/
theorem ready_primary (has : np.Has s) (object : np.objects po = some o)
    (list : np.pageObjects = po :: rest) (own : s.own po = po) (whole : s.tail po = none) :
    s.Ready np ↔ (∀ h ∈ rest.head?, h ∉ s.members po) ∧ NoInner np s.own po ∧
      (s.alone po o.merge).Ready (np.swept s po o) := by
  have left := swept_pageObjects (o := o) has list own
  have listed : po ∈ np.pageObjects := list ▸ .head _
  have fresh : po ∉ rest := (List.nodup_cons.mp (list ▸ has.nodup)).1
  have tail_eq {p : Nat} (other : p ≠ po) : (s.alone po o.merge).tail p = s.tail p :=
    Function.update_of_ne other _ _
  constructor
  · intro ready
    obtain ⟨first, apart⟩ := (apart_primary o.merge has list own).mp (list ▸ ready.apart)
    obtain ⟨inner, parted⟩ := (parted_primary o.merge has object list own).mp
      (list ▸ ready.parted)
    refine ⟨first, inner, ⟨?_, ?_, ?_, ?_⟩⟩
    · intro p there own'
      rw [left] at there
      have later := (List.mem_filter.mp there).1
      rw [tail_eq (ne_of_mem_of_not_mem later fresh)]
      exact ready.whole p (list ▸ .tail _ later) own'
    · rw [left]
      exact (last_primary o.merge has list own).mp (list ▸ ready.last)
    · rwa [left]
    · rwa [left]
  · rintro ⟨first, inner, ready⟩
    obtain ⟨whole', last, apart, parted⟩ := ready
    rw [left] at whole' last apart parted
    refine ⟨?_, ?_, ?_, ?_⟩
    · intro p there own'
      by_cases here : p = po
      · rw [here, whole]
      · rw [← tail_eq here]
        refine whole' p (List.mem_filter.mpr ⟨?_, ?_⟩) own'
        · exact (List.mem_cons.mp (list ▸ there)).resolve_left here
        · simpa using not_member has listed own (by rwa [own'])
    · rw [list]
      exact (last_primary o.merge has list own).mpr last
    · rw [list]
      exact (apart_primary o.merge has list own).mpr ⟨first, apart⟩
    · rw [list]
      exact (parted_primary o.merge has object list own).mpr ⟨inner, parted⟩

end primary

/-! ## A member that is not the last -/

section member

theorem getLast?_erase {xs : List Nat} {x : Nat} (nodup : xs.Nodup)
    (other : xs.getLast? ≠ some x) : (xs.erase x).getLast? = xs.getLast? := by
  by_cases member : x ∈ xs
  · obtain ⟨pre, post, rfl⟩ := List.append_of_mem member
    rw [erase_split nodup]
    rcases List.eq_nil_or_concat post with rfl | ⟨post', y, rfl⟩
    · exact absurd (by simp) other
    · simp [List.getLast?_append, List.getLast?_cons]
  · rw [List.erase_of_not_mem member]

theorem last_member (has : np.Has s) (list : np.pageObjects = po :: rest) (member : s.own po ≠ po)
    (other : (s.members (s.own po)).getLast? ≠ some po) :
    s.Last (po :: rest) ↔ (s.unmerge po).Last rest := by
  have fresh : po ∉ rest := (List.nodup_cons.mp (list ▸ has.nodup)).1
  have same {p : Nat} (there : p ∈ rest) (own : s.own p = p) :
      ((s.unmerge po).members p).getLast? = (s.members p).getLast? := by
    have kept := ne_of_mem_of_not_mem there fresh
    simp only [Shape.unmerge, kept, if_false]
    have grouped := has.members p (list ▸ .tail _ there) own
    refine getLast?_erase grouped.1 fun final => ?_
    have owned := (grouped.2 po (List.mem_of_getLast? final)).1
    rw [owned] at other
    exact other final
  constructor
  · intro last p there own m final
    have kept := ne_of_mem_of_not_mem there fresh
    rw [Shape.unmerge_own, if_neg kept] at own
    rw [same there own] at final
    exact (before_tail kept).mp (last p (.tail _ there) own m final)
  · intro last p there own m final
    have kept : p ≠ po := by
      rintro rfl
      exact member own
    have later := (List.mem_cons.mp there).resolve_left kept
    refine (before_tail kept).mpr (last p later ?_ m ?_)
    · rwa [Shape.unmerge_own, if_neg kept]
    · rwa [same later own]

theorem apart_member (has : np.Has s) (list : np.pageObjects = po :: rest)
    (member : s.own po ≠ po) : s.Apart (po :: rest) ↔ (s.unmerge po).Apart rest := by
  have fresh : po ∉ rest := (List.nodup_cons.mp (list ▸ has.nodup)).1
  have own' {h : Nat} (there : h ∈ rest) : (s.unmerge po).own h = s.own h := by
    rw [Shape.unmerge_own, if_neg (ne_of_mem_of_not_mem there fresh)]
  have owner (h y : Nat) : Before (po :: rest) (s.own h) y ↔ Before rest (s.own h) y :=
    before_tail (never_owner member h)
  constructor
  · intro apart m there away before
    rw [own' there] at away before ⊢
    obtain ⟨x, after, between, differs, free⟩ := apart m (.tail _ there) away
      ((owner m m).mpr before)
    have after' := (owner m x).mp after
    have later := after'.right
    refine ⟨x, after', (before_tail (ne_of_mem_of_not_mem later fresh)).mp between, ?_⟩
    rw [own' later]
    exact ⟨differs, free.imp_right fun late early => late ((owner x _).mpr early)⟩
  · intro apart m there away before
    have before' := (owner m m).mp before
    have later := before'.right
    obtain ⟨x, after, between, differs, free⟩ := apart m later (by rwa [own' later])
      (by rwa [own' later])
    rw [own' later] at after differs free
    have x_later := after.right
    rw [own' x_later] at differs free
    refine ⟨x, (owner m x).mpr after, ?_, differs, free.imp_right fun late early => ?_⟩
    · exact (before_tail (ne_of_mem_of_not_mem x_later fresh)).mpr between
    · exact late ((owner x _).mp early)

/-- Only `po` is owned by `po`, once it is unmerged. -/
theorem unmerge_own_po (member : s.own po ≠ po) (h : Nat) :
    (s.unmerge po).own h = po ↔ h = po := by
  rw [unmerge_own_iff member, if_pos rfl]

theorem noInner_unmerge (has : np.Has (s.unmerge po)) (member : s.own po ≠ po) :
    NoInner np (s.unmerge po).own po := by
  rintro pol k link ⟨own1, own2⟩
  rw [unmerge_own_po member] at own1 own2
  exact has.listed.apart pol k link (own1.trans own2.symm)

variable {np₁ : NetPage} {o₁ : PageObject}

/-- The links that are left when `po` has been unmerged and freed. -/
theorem unmerges_links (has₁ : np₁.Has (s.unmerge po)) (object₁ : np₁.objects po = some o₁)
    (unmerges : Unmerges np np₁ po) (member : s.own po ≠ po) {pol : Nat} {k : PageObjectLink} :
    (np₁.freed po o₁).links pol = some k ↔ np.links pol = some k ∧ ¬ k.HasEnd po := by
  rw [freed_links, unmerges.links, Option.map_eq_some_iff]
  constructor
  · rintro ⟨unlisted, k', link, rfl⟩
    split at *
    next hasEnd =>
      refine absurd (mem_links (l := k'.detach po) has₁.listed object₁ ?_ ?_) unlisted
      · rw [unmerges.links, link, Option.map_some, if_pos hasEnd]
      · rw [unmerge_own_po member, unmerge_own_po member, detach_po1, detach_po2]
        exact hasEnd
    next away => exact ⟨link, away⟩
  · rintro ⟨link, away⟩
    refine ⟨fun listed => ?_, k, link, if_neg away⟩
    obtain ⟨k', link', owns⟩ := links_own has₁.listed object₁ (noInner_unmerge has₁ member) pol
      listed
    rw [unmerges.links, link, Option.map_some, if_neg away] at link'
    cases link'
    rw [OwnsOne, unmerge_own_po member, unmerge_own_po member] at owns
    exact away (owns.imp And.left And.right)

theorem parted_member (has : np.Has s) (has₁ : np₁.Has (s.unmerge po))
    (object₁ : np₁.objects po = some o₁) (unmerges : Unmerges np np₁ po)
    (list : np.pageObjects = po :: rest) (member : s.own po ≠ po) :
    s.Parted (po :: rest) np.links ↔ (s.unmerge po).Parted rest (np₁.freed po o₁).links := by
  have own' {h : Nat} (other : h ≠ po) : (s.unmerge po).own h = s.own h := by
    rw [Shape.unmerge_own, if_neg other]
  have owner : s.own po ∈ rest := by
    have there := (has.member po (list ▸ .head _) member).1
    rw [list] at there
    exact (List.mem_cons.mp there).resolve_left member
  constructor
  · intro parted pol k link same
    obtain ⟨link, away⟩ := (unmerges_links has₁ object₁ unmerges member).mp link
    obtain ⟨other1, other2⟩ := not_or.mp away
    rw [own' other1, own' other2] at same
    rw [own' other1]
    exact (parted pol k link same).imp (before_tail other1).mp (before_tail other2).mp
  · intro parted pol k link same
    by_cases first : k.po1 = po
    · exact .inl (before_cons.mpr (.inl ⟨first, first ▸ owner⟩))
    by_cases second : k.po2 = po
    · refine .inr (before_cons.mpr (.inl ⟨second, ?_⟩))
      rw [same, second]
      exact owner
    have early := parted pol k
      ((unmerges_links has₁ object₁ unmerges member).mpr ⟨link, not_or.mpr ⟨first, second⟩⟩)
      (by rwa [own' first, own' second])
    rw [own' first] at early
    exact early.imp (before_tail first).mpr (before_tail second).mpr

theorem freed_pageObjects (list : np.pageObjects = po :: rest) (fresh : po ∉ rest) :
    (np.freed po o).pageObjects = rest := by
  simp only [NetPage.freed, NetPage.without, NetPage.cut, list]
  rw [List.filter_cons_of_neg (by simp), List.filter_eq_self]
  intro h there
  simpa using ne_of_mem_of_not_mem there fresh

/-- What the loop needs, before and after it unmerges and deletes a member. -/
theorem ready_member (has : np.Has s) (has₁ : np₁.Has (s.unmerge po))
    (object₁ : np₁.objects po = some o₁) (unmerges : Unmerges np np₁ po)
    (list : np.pageObjects = po :: rest) (member : s.own po ≠ po)
    (other : (s.members (s.own po)).getLast? ≠ some po) :
    s.Ready np ↔ (s.unmerge po).Ready (np₁.freed po o₁) := by
  have fresh : po ∉ rest := (List.nodup_cons.mp (list ▸ has.nodup)).1
  have left : (np₁.freed po o₁).pageObjects = rest :=
    freed_pageObjects (unmerges.pageObjects.trans list) fresh
  have last := last_member has list member other
  have apart := apart_member has list member
  have parted := parted_member has has₁ object₁ unmerges list member
  have tail {p : Nat} (kept : p ≠ po) : (s.unmerge po).tail p = s.tail p := by
    simp only [Shape.unmerge, kept, if_false]
  have own' {p : Nat} (kept : p ≠ po) : (s.unmerge po).own p = s.own p := by
    rw [Shape.unmerge_own, if_neg kept]
  constructor
  · intro ready
    refine ⟨?_, left ▸ last.mp (list ▸ ready.last), left ▸ apart.mp (list ▸ ready.apart), ?_⟩
    · intro p there own
      rw [left] at there
      have kept := ne_of_mem_of_not_mem there fresh
      rw [own' kept] at own
      rw [tail kept]
      exact ready.whole p (list ▸ .tail _ there) own
    · rw [left]
      exact parted.mp (list ▸ ready.parted)
  · intro ready
    refine ⟨?_, list ▸ last.mpr (left ▸ ready.last), list ▸ apart.mpr (left ▸ ready.apart), ?_⟩
    · intro p there own
      have kept : p ≠ po := by
        rintro rfl
        exact member own
      rw [← tail kept]
      refine ready.whole p ?_ (by rwa [own' kept])
      rw [left]
      exact (List.mem_cons.mp (list ▸ there)).resolve_left kept
    · rw [list]
      exact parted.mpr (left ▸ ready.parted)

end member

/-! ## The last member -/

/-- The last member of a group has been freed, and its predecessor still points to it. -/
def Shape.lose (s : Shape) (po : Nat) : Shape where
  own := s.own
  members h := (s.members h).erase po
  tail h := if h = s.own po then some po else s.tail h
  own_own := s.own_own

section last

/-- What follows a member in the chain of its group. -/
theorem member_next (has : np.Has s) (object : np.objects po = some o) (member : s.own po ≠ po) :
    ∃ pre post, s.members (s.own po) = pre ++ po :: post ∧
      Seg np.objects PageObject.merge o.merge post (s.tail (s.own po)) := by
  obtain ⟨owner, grouped⟩ := has.member po (has.mem object) member
  obtain ⟨op, primary⟩ := (has.alive _).mp owner
  obtain ⟨pre, post, split⟩ := List.append_of_mem grouped
  have seg := has.chain _ op primary (s.own_own po)
  rw [split] at seg
  obtain ⟨_, -, -, a, object', rest⟩ := Seg.append_iff.mp seg
  cases object.symm.trans object'
  exact ⟨pre, post, split, rest⟩

theorem members_last (has : np.Has s) (object : np.objects po = some o) (member : s.own po ≠ po)
    (last : o.merge = none) : ∃ pre, s.members (s.own po) = pre ++ [po] := by
  obtain ⟨pre, post, split, seg⟩ := member_next has object member
  rw [last] at seg
  rw [seg.nil_of_none.1] at split
  exact ⟨pre, split⟩

theorem NetPage.Has.lose (has : np.Has s) (object : np.objects po = some o)
    (member : s.own po ≠ po) (last : o.merge = none) : (np.freed po o).Has (s.lose po) where
  nodup := has.nodup.filter _
  alive h := by
    rw [freed_mem, has.alive]
    constructor
    · rintro ⟨⟨o', object'⟩, other⟩
      exact ⟨_, freed_objects.mpr ⟨other, o', object', rfl⟩⟩
    · rintro ⟨o', object'⟩
      obtain ⟨other, o₀, object₀, -⟩ := freed_objects.mp object'
      exact ⟨⟨o₀, object₀⟩, other⟩
  owner h o' object' := by
    obtain ⟨-, o₀, object₀, rfl⟩ := freed_objects.mp object'
    exact has.owner h o₀ object₀
  unmerged h o' object' := by
    obtain ⟨-, o₀, object₀, rfl⟩ := freed_objects.mp object'
    exact has.unmerged h o₀ object₀
  chain h o' object' own := by
    obtain ⟨other, o₀, object₀, rfl⟩ := freed_objects.mp object'
    have seg := has.chain h o₀ object₀ own
    have nodup := (has.members h (has.mem object₀) own).1
    have freed {m q : Option Nat} {xs : List Nat} (seg : Seg np.objects PageObject.merge m xs q)
        (absent : po ∉ xs) : Seg (np.freed po o).objects PageObject.merge m xs q := by
      refine seg.congr fun x inside a allocated =>
        ⟨_, freed_objects.mpr ⟨?_, a, allocated, rfl⟩, rfl⟩
      exact ne_of_mem_of_not_mem inside absent
    by_cases here : h = s.own po
    · obtain ⟨pre, split⟩ := members_last has object member last
      rw [← here] at split
      rw [split] at seg nodup
      obtain ⟨q, first, rfl, -⟩ := Seg.append_iff.mp seg
      simp only [Shape.lose, split, if_pos here]
      rw [erase_split nodup, List.append_nil]
      refine freed first fun inside => ?_
      exact (List.nodup_append'.mp nodup).2.2 inside (.head _)
    · have absent : po ∉ s.members h := fun inside =>
        here ((has.members h (has.mem object₀) own).2 po inside).1.symm
      simp only [Shape.lose, if_neg here]
      rw [List.erase_of_not_mem absent]
      exact freed seg absent
  member h listed away := by
    obtain ⟨listed, other⟩ := freed_mem.mp listed
    obtain ⟨primary, grouped⟩ := has.member h listed away
    refine ⟨freed_mem.mpr ⟨primary, never_owner member h⟩, ?_⟩
    exact (List.mem_erase_of_ne other).mpr grouped
  members p listed own := by
    obtain ⟨nodup, grouped⟩ := has.members p (freed_mem.mp listed).1 own
    exact ⟨nodup.erase po, fun h inside => grouped h (List.mem_of_mem_erase inside)⟩
  dangling p listed own d tail := by
    have gone : d = po ∨ np.objects d = none := by
      simp only [Shape.lose] at tail
      split at tail
      next =>
        cases tail
        exact .inl rfl
      next => exact .inr (has.dangling p (freed_mem.mp listed).1 own d tail)
    rw [Option.eq_none_iff_forall_ne_some]
    intro o' object'
    obtain ⟨other, o₀, object₀, -⟩ := freed_objects.mp object'
    rcases gone with here | gone
    · exact other here
    · rw [gone] at object₀
      cases object₀
  listed := by
    change (np.freed po o).Listed s.own none
    exact freed_listed has object

theorem not_last (has : np.Has s) (object : np.objects po = some o) (member : s.own po ≠ po)
    (whole : s.tail (s.own po) = none) (merged : o.merge ≠ none) :
    (s.members (s.own po)).getLast? ≠ some po := by
  obtain ⟨pre, post, split, seg⟩ := member_next has object member
  have nodup := (has.members _ (has.own_mem (has.mem object)) (s.own_own po)).1
  rw [whole] at seg
  rw [split] at nodup
  intro final
  cases post with
  | nil => exact merged seg
  | cons x xs =>
    rw [split, List.getLast?_append_cons, List.getLast?_cons_cons] at final
    exact (List.nodup_cons.mp (List.nodup_append'.mp nodup).2.1).1 (List.mem_of_getLast? final)

theorem merge_dangles {d : Nat} (has : np.Has s) (object : np.objects po = some o)
    (member : s.own po ≠ po) (dangles : s.tail (s.own po) = some d) : o.merge ≠ none := by
  obtain ⟨pre, post, -, seg⟩ := member_next has object member
  intro last
  rw [dangles, last] at seg
  cases seg.nil_of_none.2

/-- A last member at the head of the list comes before its primary. -/
theorem not_ready_last (has : np.Has s) (object : np.objects po = some o)
    (list : np.pageObjects = po :: rest) (member : s.own po ≠ po) (last : o.merge = none) :
    ¬ s.Ready np := by
  intro ready
  obtain ⟨pre, split⟩ := members_last has object member last
  have fresh : po ∉ rest := (List.nodup_cons.mp (list ▸ has.nodup)).1
  have before := ready.last _ (has.own_mem (has.mem object)) (s.own_own po) po (by simp [split])
  rw [list] at before
  exact not_before_head fresh before

end last

/-! ## Chains that dangle -/

section dangling

theorem modify_inv {f : PageObject → PageObject} (run : np.modify po f = .ok np') :
    np' = np.adjust po f := by
  obtain ⟨o, read, -⟩ := bind_ok run
  unfold NetPage.object at read
  split at read
  next object =>
    rw [modify_eq object] at run
    exact (Except.ok.inj run).symm
  next => cases read

theorem object_inv {po : Nat} (run : np.object po = .ok o) : np.objects po = some o := by
  unfold NetPage.object at run
  split at run
  next object =>
    cases run
    exact object
  next => cases run

/-- One turn of the loop over a chain, which changes the record before `x` at most. -/
theorem unchain_inv {p x n : Nat} {prev : Option Nat}
    (run : unchain p po (n + 1) prev (some x) np = .ok np') :
    ∃ np₁ a, (∀ y, np.objects y = none → np₁.objects y = none) ∧
      (∀ y, y ≠ prev.getD p → np₁.objects y = np.objects y) ∧ np₁.objects x = some a ∧
      unchain p po n (some x) a.merge np₁ = .ok np' := by
  rw [unchain] at run
  split at run
  next =>
    obtain ⟨o, -, run⟩ := bind_ok run
    obtain ⟨np₁, edited, run⟩ := bind_ok run
    obtain ⟨a, read, run⟩ := bind_ok run
    refine ⟨np₁, a, ?_, ?_, object_inv read, run⟩
    · intro y gone
      rw [modify_inv edited]
      simp only [NetPage.adjust, gone, Option.map_none, ite_self]
    · intro y away
      rw [modify_inv edited]
      exact if_neg away
  next =>
    obtain ⟨np₁, same, run⟩ := bind_ok run
    cases same
    obtain ⟨a, read, run⟩ := bind_ok run
    exact ⟨np, a, fun _ => id, fun _ _ => rfl, object_inv read, run⟩

/-- The loop follows the whole chain, also behind the host that it looks for. -/
theorem unchain_dangles {p d n : Nat} {prev m : Option Nat} {xs : List Nat}
    (seg : Seg np.objects PageObject.merge m xs (some d)) (gone : np.objects d = none)
    (nodup : xs.Nodup) (outside : prev.getD p ∉ xs) : unchain p po n prev m np ≠ .ok np' := by
  intro run
  induction xs generalizing n prev m np with
  | nil =>
    rw [show m = some d from seg] at run
    cases n with
    | zero => cases run
    | succ n =>
      obtain ⟨np₁, a, freed, -, object, -⟩ := unchain_inv run
      rw [freed d gone] at object
      cases object
  | cons x xs ih =>
    obtain ⟨rfl, a, object, rest⟩ := seg
    obtain ⟨fresh, nodup⟩ := List.nodup_cons.mp nodup
    obtain ⟨other, outside⟩ := not_or.mp (mt List.mem_cons.mpr outside)
    cases n with
    | zero => cases run
    | succ n =>
      obtain ⟨np₁, a', freed, same, object', run⟩ := unchain_inv run
      rw [same x (Ne.symm other), object] at object'
      cases object'
      have outside' : (some x : Option Nat).getD p ∉ xs := fresh
      refine ih (rest.congr fun y inside b allocated => ⟨b, ?_, rfl⟩) (freed d gone) nodup
        outside' run
      rw [same y (ne_of_mem_of_not_mem inside outside), allocated]

/-- A member of a group whose chain dangles cannot be unmerged. -/
theorem unmerge_dangles {d : Nat} (has : np.Has s) (object : np.objects po = some o)
    (member : s.own po ≠ po) (dangles : s.tail (s.own po) = some d) :
    pageObjectUnmerge fuel po np ≠ .ok np' := by
  intro run
  have fixed := s.own_own po
  have owner := has.own_mem (has.mem object)
  obtain ⟨op, primary⟩ := (has.alive _).mp owner
  have seg := has.chain _ op primary fixed
  have gone := has.dangling _ owner fixed d dangles
  rw [dangles] at seg
  obtain ⟨links', pLinks', moved, moves, move⟩ := moveLinks_ok has object member primary
  rw [pageObjectUnmerge, NetPage.object, object] at run
  obtain ⟨_, read, run⟩ := bind_ok run
  cases read
  have mergePrimary := has.mergePrimary object member
  rw [if_neg (by rw [mergePrimary]; simpa using member), mergePrimary] at run
  obtain ⟨np₁, first, run⟩ := bind_ok run
  cases move.symm.trans first
  obtain ⟨op₁, read, run⟩ := bind_ok run
  obtain ⟨np₂, chained, -⟩ := bind_ok run
  cases (moved_p primary member.symm).symm.trans (object_inv read)
  refine unchain_dangles (seg.congr fun x _ a allocated => moved_merge allocated) ?_
    (has.members _ owner fixed).1 ?_ chained
  · simp only [NetPage.moved, NetPage.adjust, gone, Option.map_none, ite_self]
  · exact fun inside => ((has.members _ owner fixed).2 _ inside).2 rfl

theorem forMerged_gone {body : Nat → NetPage → Except Fault NetPage} {n d : Nat}
    (gone : np.objects d = none) : forMerged body n (some d) np ≠ .ok np' := by
  intro run
  cases n with
  | zero => cases run
  | succ n =>
    rw [forMerged] at run
    obtain ⟨o, read, -⟩ := bind_ok run
    have object := object_inv read
    rw [gone] at object
    cases object

/-- A primary whose chain dangles cannot be deleted with its group. -/
theorem delete_dangles {d : Nat} {yes : Bool} (has : np.Has s) (object : np.objects po = some o)
    (own : s.own po = po) (dangles : s.tail po = some d) (enough : np.pageObjects.length ≤ fuel) :
    pageObjectDelete (fuel + 1) true yes po np ≠ .ok np' := by
  intro run
  have listed := has.mem object
  have seg := has.chain po o object own
  have gone := has.dangling po listed own d dangles
  rw [dangles] at seg
  have merged : o.merge ≠ none := by
    intro last
    rw [last] at seg
    cases seg.nil_of_none.2
  have short := Nat.le_trans (has.length_members listed own) enough
  obtain ⟨fuel, rfl⟩ : ∃ n, fuel = n + 1 :=
    ⟨fuel - 1, by have := List.length_pos_of_mem listed; omega⟩
  obtain ⟨n, count⟩ := Nat.exists_eq_add_of_le' short
  rw [delete_eq_all true yes listed object merged (has.primary object own merged) rfl] at run
  obtain ⟨np₁, members, -⟩ := bind_ok run
  have chain : forMerged (deleteTemp (fuel + 1) true yes) (n + (s.members po).length) o.merge np =
      _ := deleteTemps_eq true yes seg (has.members po listed own).1 has.nodup (has.bare listed own)
  rw [← count] at chain
  refine forMerged_gone ?_ (chain.symm.trans members)
  simp only [NetPage.without, gone, ite_self]

end dangling

/-! ## The loop -/

theorem next_head (list : np.pageObjects = po :: rest) :
    nextPageObject po np.pageObjects = rest.head? := by
  rw [nextPageObject, list, List.dropWhile_cons_of_neg (by simp), List.tail_cons]

theorem removeLoop_cons {n : Nat} (object : np.objects po = some o)
    (list : np.pageObjects = po :: rest) :
    removeLoop fuel (n + 1) np.pageObjects.head? np =
      pageObjectDelete fuel true false po np >>= removeLoop fuel n rest.head? := by
  rw [show np.pageObjects.head? = some po by rw [list]; rfl, removeLoop, NetPage.object, object]
  change (pageObjectDelete fuel true false po np >>=
    removeLoop fuel n (nextPageObject po np.pageObjects)) = _
  rw [next_head list]

/-- The loop cannot go on with a host that has been freed. -/
theorem removeLoop_gone {n h : Nat} (gone : np.objects h = none) :
    removeLoop fuel n (some h) np ≠ .ok np' := by
  intro run
  cases n with
  | zero => cases run
  | succ n =>
    rw [removeLoop] at run
    obtain ⟨o, read, -⟩ := bind_ok run
    have object := object_inv read
    rw [gone] at object
    cases object

/-- A forced deletion of a primary, or of a host of no group. -/
theorem delete_forced {yes : Bool} (has : np.Has s) (object : np.objects po = some o)
    (own : s.own po = po) (whole : s.tail po = none) (enough : np.pageObjects.length ≤ fuel) :
    pageObjectDelete (fuel + 1) true yes po np =
      freePageObject po (np.without (s.members po)) := by
  by_cases merged : o.merge = none
  · have seg := has.chain po o object own
    rw [merged] at seg
    rw [delete_eq_free true yes (has.mem object) object merged, seg.nil_of_none.1, without_nil]
  · exact delete_all_eq has object own whole merged enough rfl

theorem removeLoop_nil {n : Nat} (has : np.Has s) (list : np.pageObjects = []) :
    (∃ np', removeLoop fuel n np.pageObjects.head? np = .ok np' ∧ np'.Removed) ↔ s.Ready np := by
  have bare (h : Nat) : np.objects h = none := by
    rw [Option.eq_none_iff_forall_ne_some]
    intro o object
    have there := has.mem object
    rw [list] at there
    cases there
  constructor
  · refine fun _ => ⟨?_, ?_, ?_, ?_⟩
    · rw [list]
      exact nofun
    · rw [list]
      exact nofun
    · rw [list]
      exact nofun
    · intro pol k link
      have there := (has.listed.drawn1 pol k link).2
      rw [list] at there
      cases there
  · intro _
    rw [list]
    exact ⟨np, by cases n <;> rfl, list, bare⟩

/-- The rest of the loop, after the members of the group of `po` have been freed. -/
theorem free_iff {n : Nat} (has : np.Has s) (object : np.objects po = some o)
    (list : np.pageObjects = po :: rest) (own : s.own po = po) (whole : s.tail po = none)
    (ih : (np.swept s po o).Has (s.alone po o.merge) →
      (np.swept s po o).pageObjects = rest.filter (· ∉ s.members po) →
      ((∃ np', removeLoop fuel n (np.swept s po o).pageObjects.head? (np.swept s po o) = .ok np' ∧
        np'.Removed) ↔ (s.alone po o.merge).Ready (np.swept s po o))) :
    (∃ np', (freePageObject po (np.without (s.members po)) >>= removeLoop fuel n rest.head?) =
      .ok np' ∧ np'.Removed) ↔
      (∀ h ∈ rest.head?, h ∉ s.members po) ∧ NoInner np s.own po ∧
        (s.alone po o.merge).Ready (np.swept s po o) := by
  have listed := has.mem object
  have outside : po ∉ s.members po := fun member =>
    ((has.members po listed own).2 po member).2 rfl
  have has₁ := has.without object own whole
  have object₁ : (np.without (s.members po)).objects po = some o :=
    without_objects.mpr ⟨outside, object⟩
  have left := swept_pageObjects (o := o) has list own
  have ih := ih (has.swept object own whole) left
  by_cases inner : NoInner np s.own po
  · rw [freePageObject_eq has₁ object₁ inner]
    change (∃ np', removeLoop fuel n rest.head? (np.swept s po o) = .ok np' ∧ np'.Removed) ↔ _
    by_cases first : ∀ h ∈ rest.head?, h ∉ s.members po
    · have head : rest.head? = (np.swept s po o).pageObjects.head? := by
        rw [left]
        cases rest with
        | nil => rfl
        | cons r rs =>
          rw [List.filter_cons_of_pos (by simpa using first r rfl)]
          rfl
      rw [head, ih]
      exact ⟨fun ready => ⟨head ▸ first, inner, ready⟩, fun ready => ready.2.2⟩
    · refine iff_of_false ?_ fun ready => first ready.1
      rintro ⟨np', run, -⟩
      refine first fun h next member => ?_
      rw [next] at run
      refine removeLoop_gone ?_ run
      rw [Option.eq_none_iff_forall_ne_some]
      intro o' object'
      obtain ⟨-, o₀, object₀, -⟩ := freed_objects.mp object'
      exact (without_objects.mp object₀).1 member
  · refine iff_of_false ?_ fun ready => inner ready.2.1
    rintro ⟨np', run, -⟩
    obtain ⟨np₁, freed, -⟩ := bind_ok run
    have inner' : NoInner (np.without (s.members po)) (s.alone po o.merge).own po :=
      freePageObject_inner has₁ object₁ freed
    exact inner inner'

/-- The loop frees all hosts exactly when the page is ready for it.  One turn of the loop leaves
    a page that is ready exactly when this one is, or else fails now or later. -/
theorem removeLoop_iff {n : Nat} (has : np.Has s) (enough : np.pageObjects.length < fuel)
    (length : np.pageObjects.length ≤ n) :
    (∃ np', removeLoop fuel n np.pageObjects.head? np = .ok np' ∧ np'.Removed) ↔ s.Ready np := by
  induction n generalizing np s with
  | zero => exact removeLoop_nil has (List.length_eq_zero_iff.mp (Nat.le_zero.mp length))
  | succ n ih =>
    cases list : np.pageObjects with
    | nil =>
      rw [← list]
      exact removeLoop_nil has list
    | cons po rest =>
      have listed : po ∈ np.pageObjects := list ▸ .head _
      have fresh : po ∉ rest := (List.nodup_cons.mp (list ▸ has.nodup)).1
      obtain ⟨o, object⟩ := (has.alive po).mp listed
      obtain ⟨fuel, rfl⟩ : ∃ n, fuel = n + 1 := ⟨fuel - 1, by omega⟩
      rw [list, List.length_cons] at enough length
      have shorter : np.pageObjects.length ≤ fuel := by
        rw [list, List.length_cons]
        omega
      rw [← list, removeLoop_cons object list]
      by_cases own : s.own po = po
      · cases whole : s.tail po with
        | none =>
          rw [delete_forced has object own whole shorter, ready_primary has object list own whole]
          refine free_iff has object list own whole fun has' left => ?_
          have less : (np.swept s po o).pageObjects.length ≤ rest.length := by
            rw [left]
            exact List.length_filter_le _ _
          exact ih has' (by omega) (by omega)
        | some d =>
          refine iff_of_false ?_ fun ready => ?_
          · rintro ⟨np', run, -⟩
            obtain ⟨np₁, deleted, -⟩ := bind_ok run
            exact delete_dangles has object own whole shorter deleted
          · rw [ready.whole po listed own] at whole
            cases whole
      · cases whole : s.tail (s.own po) with
        | none =>
          by_cases merged : o.merge = none
          · refine iff_of_false ?_ (not_ready_last has object list own merged)
            rw [delete_eq_free true false listed object merged, freePageObject_eq has object
              fun _ l _ owns => never_owner own l.po1 owns.1]
            change ¬ ∃ np',
              removeLoop (fuel + 1) n rest.head? (np.freed po o) = .ok np' ∧ np'.Removed
            have left : (np.freed po o).pageObjects = rest := freed_pageObjects list fresh
            rw [← left, ih (has.lose object own merged) (by rw [left]; omega) (by rw [left]; omega)]
            intro ready
            have owner := freed_mem (o := o).mpr ⟨has.own_mem listed, own⟩
            have tail := ready.whole (s.own po) owner (s.own_own po)
            simp [Shape.lose] at tail
          · obtain ⟨np₁, run, has₁, unmerges, -⟩ := pageObjectUnmerge_member has object own whole
              shorter
            obtain ⟨o₁, object₁⟩ := (has₁.alive po).mp (by rwa [unmerges.pageObjects])
            have left : (np₁.freed po o₁).pageObjects = rest :=
              freed_pageObjects (unmerges.pageObjects.trans list) fresh
            have primary := has.mergePrimary object own
            rw [delete_eq_unmerge true false listed object merged
                (by rw [primary]; simpa using own), run,
              ready_member has has₁ object₁ unmerges list own
                (not_last has object own whole merged)]
            change (∃ np',
              (freePageObject po np₁ >>= removeLoop (fuel + 1) n rest.head?) = .ok np' ∧
                np'.Removed) ↔ _
            rw [freePageObject_eq has₁ object₁ (noInner_unmerge has₁ own), ← left]
            refine ih (has₁.freed object₁ ((unmerge_own_po own po).mpr rfl) ?_)
              (by rw [left]; omega) (by rw [left]; omega)
            exact fun h _ owned => (unmerge_own_po own h).mp owned
        | some d =>
          refine iff_of_false ?_ fun ready => ?_
          · rintro ⟨np', run, -⟩
            obtain ⟨np₁, deleted, -⟩ := bind_ok run
            have primary := has.mergePrimary object own
            rw [delete_eq_unmerge true false listed object (merge_dangles has object own whole)
              (by rw [primary]; simpa using own)] at deleted
            obtain ⟨np₂, unmerged, -⟩ := bind_ok deleted
            exact unmerge_dangles has object own whole unmerged
          · rw [ready.whole _ (has.own_mem listed) (s.own_own po)] at whole
            cases whole

/-! ## Well-formed pages -/

theorem removable_iff (has : np.Has s)
    (whole : ∀ p ∈ np.pageObjects, s.own p = p → s.tail p = none)
    (linked : ∀ pol l, np.links pol = some l → l.po1 ∈ np.pageObjects ∧ l.po2 ∈ np.pageObjects) :
    np.Removable ↔ s.Ready np := by
  have owner {h : Nat} (listed : h ∈ np.pageObjects) : np.owner h = s.own h := has.owner_eq listed
  constructor
  · intro removable
    refine ⟨whole, ?_, ?_, ?_⟩
    · intro p listed own m final
      obtain ⟨owned, other⟩ := (has.members p listed own).2 m (List.mem_of_getLast? final)
      have there := has.members_alive listed own m (List.mem_of_getLast? final)
      obtain ⟨o, object⟩ := (has.alive m).mp there
      have member : s.own m ≠ m := by
        rw [owned]
        exact other.symm
      have merge : o.merge = none := by
        by_contra merged
        refine not_last has object member ?_ merged (by rwa [owned])
        rw [owned]
        exact whole p listed own
      have before := removable.last m ((lastMember_iff has object).mpr ⟨member, merge⟩)
      rwa [owner there, owned] at before
    · intro m there away before
      rw [← owner there] at away before ⊢
      obtain ⟨x, after, between, differs, free⟩ := removable.apart m there away before
      rw [owner after.right] at differs free
      exact ⟨x, after, between, differs, free⟩
    · intro pol k link same
      obtain ⟨there1, there2⟩ := linked pol k link
      rw [← owner there1, ← owner there2] at same
      rw [← owner there1]
      exact removable.links pol k link same
  · intro ready
    refine ⟨?_, ?_, ?_⟩
    · intro m last
      obtain ⟨o, object, -⟩ := id last
      obtain ⟨member, merge⟩ := (lastMember_iff has object).mp last
      obtain ⟨pre, split⟩ := members_last has object member merge
      have there := has.mem object
      rw [owner there]
      exact ready.last _ (has.own_mem there) (s.own_own m) m (by simp [split])
    · intro m there away before
      rw [owner there] at away before ⊢
      obtain ⟨x, after, between, differs, free⟩ := ready.apart m there away before
      rw [← owner after.right] at differs free
      exact ⟨x, after, between, differs, free⟩
    · intro pol k link same
      obtain ⟨there1, there2⟩ := linked pol k link
      rw [owner there1, owner there2] at same
      rw [owner there1]
      exact ready.parted pol k link same

/-- The loop frees every host of a well-formed page once, and reads no host that has been freed,
    exactly when the order of the list allows it. -/
theorem netPageRemove_iff (formed : np.WellFormed) (enough : np.pageObjects.length < fuel) :
    (∃ np', netPageRemove fuel np = .ok np' ∧ np'.Removed) ↔ np.Removable := by
  obtain ⟨⟨s, has, whole⟩, linked⟩ := formed
  rw [removable_iff has whole linked]
  exact removeLoop_iff has enough (Nat.le_of_lt enough)

def trio (pageObjects : List Nat) : NetPage where
  pageObjects
  objects h := if h = 1 then some ⟨some 2, some 1, []⟩ else
    if h = 2 then some ⟨none, some 1, []⟩ else if h = 3 then some ⟨none, none, []⟩ else none
  links _ := none

theorem trio_objects {l : List Nat} {h : Nat} (object : (trio l).objects h = some o) :
    h = 1 ∧ o = ⟨some 2, some 1, []⟩ ∨ h = 2 ∧ o = ⟨none, some 1, []⟩ ∨
      h = 3 ∧ o = ⟨none, none, []⟩ := by
  simp only [trio] at object
  split_ifs at object with first second third
  · exact .inl ⟨first, (Option.some.inj object).symm⟩
  · exact .inr (.inl ⟨second, (Option.some.inj object).symm⟩)
  · exact .inr (.inr ⟨third, (Option.some.inj object).symm⟩)

theorem trio_wellFormed {l : List Nat} (nodup : l.Nodup)
    (mem : ∀ h, h ∈ l ↔ h = 1 ∨ h = 2 ∨ h = 3) : (trio l).WellFormed := by
  refine ⟨⟨pairShape, ⟨nodup, ?_, ?_, ?_, ?_, ?_, ?_, nofun, nofun, nofun, nofun, ?_⟩,
    fun _ _ _ => rfl⟩, nofun⟩
  · intro h
    rw [show h ∈ (trio l).pageObjects ↔ _ from mem h]
    constructor
    · rintro (rfl | rfl | rfl) <;> exact ⟨_, rfl⟩
    · rintro ⟨o, object⟩
      exact (trio_objects object).imp And.left (Or.imp And.left And.left)
  · intro h o object
    rcases trio_objects object with ⟨rfl, rfl⟩ | ⟨rfl, rfl⟩ | ⟨rfl, rfl⟩ <;> rfl
  · intro h o object unmerged
    rcases trio_objects object with ⟨rfl, rfl⟩ | ⟨rfl, rfl⟩ | ⟨rfl, rfl⟩
    · cases unmerged
    · cases unmerged
    · rfl
  · intro h o object own
    rcases trio_objects object with ⟨rfl, rfl⟩ | ⟨rfl, rfl⟩ | ⟨rfl, rfl⟩
    · exact ⟨rfl, _, rfl, rfl⟩
    · cases own
    · rfl
  · intro h listed away
    rcases (mem h).mp listed with rfl | rfl | rfl
    · exact absurd rfl away
    · exact ⟨(mem 1).mpr (.inl rfl), by decide⟩
    · exact absurd rfl away
  · intro p listed own
    rcases (mem p).mp listed with rfl | rfl | rfl
    · decide
    · cases own
    · decide
  · intro h o object _ pol
    rcases trio_objects object with ⟨rfl, rfl⟩ | ⟨rfl, rfl⟩ | ⟨rfl, rfl⟩ <;> rfl

theorem trio_removable : (trio [1, 3, 2]).Removable := by
  refine ⟨?_, ?_, nofun⟩
  · rintro m ⟨o, object, -, p, primary, other⟩
    rcases trio_objects object with ⟨rfl, rfl⟩ | ⟨rfl, rfl⟩ | ⟨rfl, rfl⟩
    · cases primary
      exact absurd rfl other
    · decide
    · cases primary
  · intro m listed away _
    fin_cases listed
    · exact absurd rfl away
    · exact absurd rfl away
    · exact ⟨3, by decide, by decide, by decide, .inl rfl⟩

/-- The page can be removed when another host comes between the primary and its member. -/
theorem netPageRemove_between :
    ∃ np', netPageRemove 4 (trio [1, 3, 2]) = .ok np' ∧ np'.Removed :=
  (netPageRemove_iff (trio_wellFormed (by decide) (by simp; omega)) (by decide)).mpr trio_removable

/-- The member that follows its primary in the list is freed with it. -/
theorem netPageRemove_next : (trio [1, 2, 3]).WellFormed ∧
    netPageRemove 4 (trio [1, 2, 3]) = .error .freed :=
  ⟨trio_wellFormed (by decide) (by simp), rfl⟩

end Cheops.Canvas
